/-!
# Texts with places

A template is a text in which some letters are places for other texts. Filling the places gives a
text, and the letters between them are pieces that are put together with what fills the places.
-/

namespace SyntaxTree

variable {α : Type}

/-- A letter of a template: a character, or a place for the text of something. -/
inductive Letter (α : Type) where
  | char (char : Char)
  | place (content : α)

namespace Template

/-- The pieces with the texts between them, as far as there are pieces. -/
def spliced : List (List Char) → List (List Char) → List Char
  | [], _ => []
  | piece :: _, [] => piece
  | piece :: pieces, text :: texts => piece ++ (text ++ spliced pieces texts)

/-- A text without places. -/
def ofText (text : List Char) : List (Letter α) := text.map .char

def contents : List (Letter α) → List α
  | [] => []
  | .char _ :: rest => contents rest
  | .place content :: rest => content :: contents rest

/-- The text with every place filled. -/
def fill (write : α → List Char) : List (Letter α) → List Char
  | [] => []
  | .char char :: rest => char :: fill write rest
  | .place content :: rest => write content ++ fill write rest

/-- The pieces before, between and after the places. -/
def pieces : List (Letter α) → List (List Char)
  | [] => [[]]
  | .char char :: rest => (pieces rest).modifyHead (char :: ·)
  | .place _ :: rest => [] :: pieces rest

theorem length_pieces (template : List (Letter α)) :
    (pieces template).length = (contents template).length + 1 := by
  induction template with
  | nil => rfl
  | cons letter rest ih =>
      cases letter with
      | char char => simpa only [pieces, contents, List.length_modifyHead] using ih
      | place content => simp only [pieces, contents, List.length_cons, ih]

theorem fill_eq_spliced (write : α → List Char) (template : List (Letter α)) :
    fill write template = spliced (pieces template) ((contents template).map write) := by
  induction template with
  | nil => rfl
  | cons letter rest ih =>
      cases letter with
      | place content =>
          simp only [fill, pieces, contents, List.map_cons, spliced, ih, List.nil_append]
      | char char =>
          have nonempty := length_pieces rest
          simp only [fill, pieces, contents, ih]
          cases equal : pieces rest with
          | nil => simp [equal] at nonempty
          | cons piece others => cases (contents rest).map write <;> rfl

@[simp] theorem contents_ofText (text : List Char) :
    contents (ofText text : List (Letter α)) = [] := by
  induction text with
  | nil => rfl
  | cons char rest ih => exact ih

@[simp] theorem fill_ofText (write : α → List Char) (text : List Char) :
    fill write (ofText text) = text := by
  induction text with
  | nil => rfl
  | cons char rest ih => exact congrArg (char :: ·) ih

@[simp] theorem contents_append (first second : List (Letter α)) :
    contents (first ++ second) = contents first ++ contents second := by
  induction first with
  | nil => rfl
  | cons letter rest ih => cases letter <;> simp [contents, ih]

@[simp] theorem fill_append (write : α → List Char) (first second : List (Letter α)) :
    fill write (first ++ second) = fill write first ++ fill write second := by
  induction first with
  | nil => rfl
  | cons letter rest ih => cases letter <;> simp [fill, ih]

theorem contents_intercalate (separator : Char) (templates : List (List (Letter α))) :
    contents (List.intercalate [.char separator] templates) = templates.flatMap contents := by
  induction templates with
  | nil => rfl
  | cons first rest ih =>
      cases rest with
      | nil => simp
      | cons second others =>
          rw [List.intercalate_cons_cons, contents_append, contents_append, ih, List.flatMap_cons]
          simp [contents]

theorem fill_intercalate (write : α → List Char) (separator : Char)
    (templates : List (List (Letter α))) :
    fill write (List.intercalate [.char separator] templates) =
      List.intercalate [separator] (templates.map (fill write)) := by
  induction templates with
  | nil => rfl
  | cons first rest ih =>
      cases rest with
      | nil => simp
      | cons second others =>
          rw [List.intercalate_cons_cons, fill_append, fill_append, ih]
          simp [fill]

/-- Places that are filled with something leave no template empty. -/
theorem fill_eq_nil_iff {write : α → List Char} {template : List (Letter α)}
    (written : ∀ content ∈ contents template, write content ≠ []) :
    fill write template = [] ↔ template = [] := by
  cases template with
  | nil => simp [fill]
  | cons letter rest =>
      cases letter with
      | char char => simp [fill]
      | place content => simp [fill, written content (by simp [contents])]

end Template

end SyntaxTree
