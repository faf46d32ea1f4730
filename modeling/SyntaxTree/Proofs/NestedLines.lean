/-!
# Lines of nested lists

A line is scanned from left to right. The scan keeps the closers of what is open and the character
before, goes through quoted text without looking at more than backslashes and the closing quote,
and refuses a space or a closer that stands where it must not. Texts that the scan passes with
nothing left open can be put next to one another, and into lists with single spaces between them.
-/

namespace SyntaxTree.Line

/-- What is open, by closers from the innermost, and where the scan stands. -/
inductive Scan
  | outside (opened : List Char) (previous : Option Char)
  | quoted (opened : List Char)
  /-- Behind a backslash in quoted text. -/
  | escaped (opened : List Char)
deriving DecidableEq

namespace Scan

/-- One character of a line, none where it must not stand. -/
def step : Scan → Char → Option Scan
  | .outside opened previous, char =>
      match char with
      | '"' => some (.quoted opened)
      | '(' => some (.outside (')' :: opened) (some '('))
      | '[' => some (.outside (']' :: opened) (some '['))
      | ' ' =>
          if [none, some ' ', some '(', some '['].contains previous then none
          else some (.outside opened (some ' '))
      | char =>
          if char = ')' ∨ char = ']' then
            if opened.head? = some char ∧ previous ≠ some ' ' then
              some (.outside opened.tail (some char))
            else none
          else some (.outside opened (some char))
  | .quoted opened, char =>
      match char with
      | '"' => some (.outside opened (some '"'))
      | '\\' => some (.escaped opened)
      | _ => some (.quoted opened)
  | .escaped opened, _ => some (.quoted opened)

def run (state : Scan) (text : List Char) : Option Scan := text.foldlM step state

/-- Spaces stand between items, not around them. -/
example : (Scan.outside [] none).run ['(', 'a', ' ', ')'] = none := rfl

theorem run_append (state : Scan) (first second : List Char) :
    state.run (first ++ second) = (state.run first).bind (·.run second) :=
  List.foldlM_append

/-- Quoted text goes on until a quote or a backslash. -/
theorem run_quoted {text : List Char} (opened : List Char)
    (plain : ∀ char ∈ text, char ≠ '"' ∧ char ≠ '\\') :
    (Scan.quoted opened).run text = some (.quoted opened) := by
  induction text with
  | nil => rfl
  | cons char rest ih =>
      obtain ⟨here, others⟩ := List.forall_mem_cons.mp plain
      have stepped : (Scan.quoted opened).step char = some (.quoted opened) := by
        simp [Scan.step, here.1, here.2]
      rw [Scan.run, List.foldlM_cons, stepped]
      exact ih others

end Scan

/-- Neither a control character of ASCII nor the one that deletes. -/
def isVisible (char : Char) : Bool := decide (0x20 ≤ char.toNat ∧ char.toNat ≠ 0x7f)

/-- All characters are visible, quotes and lists are closed and spaces are single and inside. -/
structure WellFormed (text : List Char) : Prop where
  visible : ∀ char ∈ text, isVisible char = true
  scans : ∃ last ≠ ' ', (Scan.outside [] none).run text = some (.outside [] (some last))

/-- A visible character that means nothing to the scan, as those of words do. -/
def isInert (char : Char) : Bool :=
  isVisible char && !([' ', '(', ')', '[', ']', '"'].contains char)

/-- A character that a space or a closer may follow. -/
def isSolid (char : Char) : Bool := !([' ', '(', '['].contains char)

/-- Wherever the text stands outside of quotes, the scan passes it, and more may follow. -/
structure Solid (text : List Char) : Prop where
  visible : ∀ char ∈ text, isVisible char = true
  scans : ∀ opened previous, ∃ last, isSolid last = true ∧
    (Scan.outside opened previous).run text = some (.outside opened (some last))

theorem step_inert {char : Char} (inert : isInert char = true) (opened : List Char)
    (previous : Option Char) :
    (Scan.outside opened previous).step char = some (.outside opened (some char)) := by
  simp only [isInert, List.contains_cons, Bool.and_eq_true, Bool.not_eq_true', Bool.or_eq_false_iff,
    beq_eq_false_iff_ne] at inert
  obtain ⟨-, space, opens, closes, opensBracket, closesBracket, quote, -⟩ := inert
  have neither : ¬(char = ')' ∨ char = ']') := fun either => either.elim closes closesBracket
  simp [Scan.step, neither]

theorem isSolid_of_isInert {char : Char} (inert : isInert char = true) : isSolid char = true := by
  simp_all [isInert, isSolid]

theorem isVisible_of_isInert {char : Char} (inert : isInert char = true) :
    isVisible char = true := ((Bool.and_eq_true ..).mp inert).1

namespace Solid

/-- Characters that mean nothing to the scan are passed one by one. -/
theorem word {text : List Char} (nonempty : text ≠ [])
    (inert : ∀ char ∈ text, isInert char = true) : Solid text where
  visible char member := isVisible_of_isInert (inert char member)
  scans opened previous := by
    induction text generalizing previous with
    | nil => exact absurd rfl nonempty
    | cons char rest ih =>
        obtain ⟨here, others⟩ := List.forall_mem_cons.mp inert
        have stepped : (Scan.outside opened previous).run (char :: rest) =
            (Scan.outside opened (some char)).run rest := by
          rw [Scan.run, List.foldlM_cons, step_inert here]
          rfl
        rw [stepped]
        cases rest with
        | nil => exact ⟨char, isSolid_of_isInert here, rfl⟩
        | cons second more => exact ih (List.cons_ne_nil second more) others (some char)

theorem append {first second : List Char} (here : Solid first) (later : Solid second) :
    Solid (first ++ second) where
  visible := List.forall_mem_append.mpr ⟨here.visible, later.visible⟩
  scans opened previous := by
    obtain ⟨between, -, passed⟩ := here.scans opened previous
    obtain ⟨last, solid, ends⟩ := later.scans opened (some between)
    exact ⟨last, solid, by rw [Scan.run_append, passed, Option.bind_some, ends]⟩

/-- A space may follow, if more follows it. -/
theorem spaced {first second : List Char} (here : Solid first) (later : Solid second) :
    Solid (first ++ ' ' :: second) where
  visible := List.forall_mem_append.mpr
    ⟨here.visible, List.forall_mem_cons.mpr ⟨rfl, later.visible⟩⟩
  scans opened previous := by
    obtain ⟨between, follows, passed⟩ := here.scans opened previous
    obtain ⟨last, solid, ends⟩ := later.scans opened (some ' ')
    have space : (Scan.outside opened (some between)).step ' ' =
        some (.outside opened (some ' ')) := by
      simp_all [Scan.step, isSolid]
    refine ⟨last, solid, ?_⟩
    rw [Scan.run_append, passed, Option.bind_some, Scan.run, List.foldlM_cons, space]
    exact ends

theorem intercalate {texts : List (List Char)} (nonempty : texts ≠ [])
    (solid : ∀ text ∈ texts, Solid text) : Solid (List.intercalate [' '] texts) := by
  induction texts with
  | nil => exact absurd rfl nonempty
  | cons first rest ih =>
      obtain ⟨here, others⟩ := List.forall_mem_cons.mp solid
      cases rest with
      | nil => simpa using here
      | cons second more =>
          rw [List.intercalate_cons_cons, List.append_assoc]
          exact here.spaced (ih (List.cons_ne_nil second more) others)

/-- A list of texts between an opener and its closer. -/
theorem enclosed {opening closing : Char}
    (pair : (opening = '(' ∧ closing = ')') ∨ (opening = '[' ∧ closing = ']'))
    {texts : List (List Char)} (solid : ∀ text ∈ texts, Solid text) :
    Solid (opening :: (List.intercalate [' '] texts ++ [closing])) := by
  have opens (opened : List Char) (previous : Option Char) :
      (Scan.outside opened previous).step opening =
        some (.outside (closing :: opened) (some opening)) := by
    rcases pair with ⟨rfl, rfl⟩ | ⟨rfl, rfl⟩ <;> rfl
  have closes (opened : List Char) {last : Char} (notSpace : last ≠ ' ') :
      (Scan.outside (closing :: opened) (some last)).step closing =
        some (.outside opened (some closing)) := by
    rcases pair with ⟨rfl, rfl⟩ | ⟨rfl, rfl⟩ <;> simp [Scan.step, notSpace]
  have marks : isVisible opening = true ∧ opening ≠ ' ' ∧ isVisible closing = true ∧
      isSolid closing = true := by
    rcases pair with ⟨rfl, rfl⟩ | ⟨rfl, rfl⟩ <;> decide
  obtain ⟨opener, notSpace, closer, ends⟩ := marks
  constructor
  · rw [List.forall_mem_cons, List.forall_mem_append, List.forall_mem_singleton]
    refine ⟨opener, ?_, closer⟩
    cases texts with
    | nil => simp
    | cons first rest => exact (intercalate (List.cons_ne_nil first rest) solid).visible
  · intro opened previous
    have inside : ∃ last ≠ ' ', (Scan.outside (closing :: opened) (some opening)).run
        (List.intercalate [' '] texts) = some (.outside (closing :: opened) (some last)) := by
      cases texts with
      | nil => exact ⟨opening, notSpace, rfl⟩
      | cons first rest =>
          obtain ⟨last, follows, passed⟩ :=
            (intercalate (List.cons_ne_nil first rest) solid).scans (closing :: opened)
              (some opening)
          refine ⟨last, ?_, passed⟩
          rintro rfl
          cases follows
    obtain ⟨last, lastSolid, passed⟩ := inside
    refine ⟨closing, ends, ?_⟩
    rw [Scan.run, List.foldlM_cons, opens]
    change (Scan.outside (closing :: opened) (some opening)).run
      (List.intercalate [' '] texts ++ [closing]) = _
    rw [Scan.run_append, passed, Option.bind_some, Scan.run, List.foldlM_cons,
      closes opened lastSolid]
    rfl

/-- Between quotes stands what the scan passes without leaving them. -/
theorem quotation {inside : List Char} (visible : ∀ char ∈ inside, isVisible char = true)
    (passed : ∀ opened, (Scan.quoted opened).run inside = some (.quoted opened)) :
    Solid ('"' :: (inside ++ ['"'])) where
  visible := by
    rw [List.forall_mem_cons, List.forall_mem_append, List.forall_mem_singleton]
    exact ⟨rfl, visible, rfl⟩
  scans opened previous := by
    refine ⟨'"', rfl, ?_⟩
    change (Scan.quoted opened).run (inside ++ ['"']) = _
    rw [Scan.run_append, passed, Option.bind_some]
    rfl

theorem wellFormed {text : List Char} (solid : Solid text) : WellFormed text where
  visible := solid.visible
  scans := by
    obtain ⟨last, follows, passed⟩ := solid.scans [] none
    refine ⟨last, ?_, passed⟩
    rintro rfl
    cases follows

end Solid

end SyntaxTree.Line
