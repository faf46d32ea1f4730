import SyntaxTree.Proofs.QuotedText

/-!
# Shapes of written items

What is written is a word, a quoted text, a spread, or a list between parentheses or brackets.
Proper shapes, whose words cannot be mistaken for anything else, are determined by their text, and
so are those in front of a space or of a closing parenthesis or bracket.
-/

namespace SyntaxTree

inductive Shape where
  | word (text : List Char)
  | quoted (text : String)
  | spread (inner : Shape)
  | group (parts : List Shape)
  | bracket (parts : List Shape)

namespace Shape

mutual

def text : Shape → List Char
  | .word text => text
  | .quoted text => Text.quoted text
  | .spread inner => '.' :: '.' :: '.' :: text inner
  | .group parts => '(' :: (List.intercalate [' '] (texts parts) ++ [')'])
  | .bracket parts => '[' :: (List.intercalate [' '] (texts parts) ++ [']'])

def texts : List Shape → List (List Char)
  | [] => []
  | part :: rest => text part :: texts rest

end

theorem texts_eq_map (parts : List Shape) : texts parts = parts.map text := by
  induction parts with
  | nil => rfl
  | cons part rest ih => rw [texts, ih, List.map_cons]

/-- What ends an item: a space before the next one, or the end of the list around it. -/
def isCloser (char : Char) : Bool := [' ', ')', ']'].contains char

/-- The closers, and what opens an item that is no word. -/
def delimiters : List Char := [' ', ')', ']', '(', '[', '"']

def isPlain (char : Char) : Bool := !delimiters.contains char

theorem isPlain_of_isCloser {char : Char} (closer : isCloser char = true) :
    isPlain char = false := by
  simp only [isCloser, List.contains_eq_mem, decide_eq_true_eq] at closer
  have delimiter : char ∈ delimiters := List.mem_append_left ['(', '[', '"'] closer
  simpa [isPlain] using delimiter

/-- Where an item has ended, nothing follows or a closer does. -/
def Ended : List Char → Prop
  | [] => True
  | char :: _ => isCloser char = true

/-- A word that is not mistaken for a spread nor for anything with a closer of its own. -/
structure Readable (word : List Char) : Prop where
  nonempty : word ≠ []
  plain : ∀ char ∈ word, isPlain char = true
  dots : word.head? = some '.' → word = ['.'] ∨ word = ['.', '.', '.']

/-- Every word of the shape is readable. -/
inductive Proper : Shape → Prop
  | word {text : List Char} (readable : Readable text) : Proper (.word text)
  | quoted (text : String) : Proper (.quoted text)
  | spread {inner : Shape} (proper : Proper inner) : Proper (.spread inner)
  | group {parts : List Shape} (proper : ∀ part ∈ parts, Proper part) : Proper (.group parts)
  | bracket {parts : List Shape} (proper : ∀ part ∈ parts, Proper part) : Proper (.bracket parts)

/-! ### The outside of a shape -/

inductive Guise where
  | word
  | quoted
  | spread
  | group
  | bracket

def guise : Shape → Guise
  | .word _ => .word
  | .quoted _ => .quoted
  | .spread _ => .spread
  | .group _ => .group
  | .bracket _ => .bracket

/-- The guise of the item at the front of a text. Three dots are a word where they end an item. -/
def Guise.ofText : List Char → Guise
  | '"' :: _ => .quoted
  | '(' :: _ => .group
  | '[' :: _ => .bracket
  | '.' :: '.' :: '.' :: char :: _ => if isCloser char then .word else .spread
  | _ => .word

theorem Proper.text_eq_cons {shape : Shape} (proper : shape.Proper) :
    ∃ char rest, shape.text = char :: rest ∧ isCloser char = false := by
  cases proper with
  | @word text readable =>
      cases text with
      | nil => exact absurd rfl readable.nonempty
      | cons char rest =>
          have plain := readable.plain char List.mem_cons_self
          refine ⟨char, rest, rfl, Bool.eq_false_iff.mpr (fun closer => ?_)⟩
          rw [isPlain_of_isCloser closer] at plain
          cases plain
  | quoted text => exact ⟨'"', _, rfl, rfl⟩
  | spread proper => exact ⟨'.', _, rfl, rfl⟩
  | group proper => exact ⟨'(', _, rfl, rfl⟩
  | bracket proper => exact ⟨'[', _, rfl, rfl⟩

theorem ofText_word {text rest : List Char} (readable : Readable text) (ended : Ended rest) :
    Guise.ofText (text ++ rest) = .word := by
  cases text with
  | nil => exact absurd rfl readable.nonempty
  | cons char after =>
      have plain := readable.plain char List.mem_cons_self
      by_cases dot : char = '.'
      · subst dot
        rcases readable.dots rfl with single | triple
        · rw [single]
          cases rest with
          | nil => rfl
          | cons follows rest =>
              have notDot : follows ≠ '.' := fun equal => by
                subst equal
                exact Bool.false_ne_true ended
              simp [Guise.ofText, notDot]
        · rw [triple]
          cases rest with
          | nil => rfl
          | cons follows rest =>
              have closer : isCloser follows = true := ended
              simp [Guise.ofText, closer]
      · rw [List.cons_append]
        unfold Guise.ofText
        split <;> simp_all [isPlain, delimiters]

theorem Proper.ofText_append {shape : Shape} (proper : shape.Proper) {rest : List Char}
    (ended : Ended rest) : Guise.ofText (shape.text ++ rest) = shape.guise := by
  cases proper with
  | word readable => exact ofText_word readable ended
  | @spread inner proper =>
      obtain ⟨char, after, equal, opens⟩ := proper.text_eq_cons
      simp [text, equal, Guise.ofText, opens, guise]
  | _ => rfl

/-! ### Shapes from texts -/

/-- Two readable words with what follows each of them are the same where the whole texts are. -/
theorem Readable.append_inj {first second rest others : List Char} (firstReadable : Readable first)
    (secondReadable : Readable second) (ended : Ended rest) (otherEnded : Ended others)
    (same : first ++ rest = second ++ others) : first = second ∧ rest = others := by
  have taken {word follows : List Char} (readable : Readable word) (ends : Ended follows) :
      (word ++ follows).takeWhile isPlain = word := by
    rw [List.takeWhile_append_of_pos readable.plain]
    cases follows with
    | nil => simp
    | cons char follows =>
        simp [isPlain_of_isCloser ends]
  have words : first = second := by
    rw [← taken firstReadable ended, same, taken secondReadable otherEnded]
  subst words
  exact ⟨rfl, List.append_cancel_left same⟩

/-- The shape is told from any proper one by its text, whatever ended text follows each. -/
def Told (first : Shape) : Prop :=
  ∀ second rest others, second.Proper → Ended rest → Ended others →
    first.text ++ rest = second.text ++ others → first = second ∧ rest = others

/-- What is written of the parts after the first one. -/
def following (parts : List Shape) : List Char := parts.flatMap (fun part => ' ' :: part.text)

theorem intercalate_texts (part : Shape) (parts : List Shape) :
    List.intercalate [' '] (texts (part :: parts)) = part.text ++ following parts := by
  induction parts generalizing part with
  | nil => simp [texts, following]
  | cons next parts ih =>
      rw [texts, texts, List.intercalate_cons_cons, ← texts, ih]
      simp [following]

theorem ended_following (parts : List Shape) {close : Char} (closer : isCloser close = true)
    (rest : List Char) : Ended (following parts ++ close :: rest) := by
  cases parts with
  | nil => exact closer
  | cons part parts => exact rfl

theorem following_append_inj {close : Char} (closer : isCloser close = true) (notSpace : close ≠ ' ')
    {firsts seconds : List Shape} (told : ∀ first ∈ firsts, first.Told)
    (proper : ∀ second ∈ seconds, second.Proper) {rest others : List Char}
    (same : following firsts ++ close :: rest = following seconds ++ close :: others) :
    firsts = seconds ∧ rest = others := by
  induction firsts generalizing seconds with
  | nil =>
      cases seconds with
      | nil => exact ⟨rfl, List.tail_eq_of_cons_eq same⟩
      | cons second seconds => exact absurd (List.head_eq_of_cons_eq same) notSpace
  | cons first firsts ih =>
      cases seconds with
      | nil => exact absurd (List.head_eq_of_cons_eq same).symm notSpace
      | cons second seconds =>
          rw [List.forall_mem_cons] at told proper
          simp only [following, List.flatMap_cons, List.cons_append, List.append_assoc,
            List.cons.injEq, true_and] at same
          obtain ⟨rfl, after⟩ := told.1 second _ _ proper.1 (ended_following firsts closer rest)
            (ended_following seconds closer others) same
          obtain ⟨rfl, follows⟩ := ih told.2 proper.2 after
          exact ⟨rfl, follows⟩

theorem parts_append_inj {close : Char} (closer : isCloser close = true) (notSpace : close ≠ ' ')
    {firsts seconds : List Shape} (told : ∀ first ∈ firsts, first.Told)
    (firstsProper : ∀ first ∈ firsts, first.Proper)
    (proper : ∀ second ∈ seconds, second.Proper) {rest others : List Char}
    (same : List.intercalate [' '] (texts firsts) ++ close :: rest =
      List.intercalate [' '] (texts seconds) ++ close :: others) :
    firsts = seconds ∧ rest = others := by
  have opens {part : Shape} (partProper : part.Proper) (parts : List Shape)
      (tail after : List Char) :
      List.intercalate [' '] (texts (part :: parts)) ++ tail ≠ close :: after := by
    intro equal
    obtain ⟨char, rest, text, notCloser⟩ := partProper.text_eq_cons
    rw [intercalate_texts, text] at equal
    rw [List.head_eq_of_cons_eq equal, closer] at notCloser
    cases notCloser
  cases firsts with
  | nil =>
      cases seconds with
      | nil => exact ⟨rfl, List.tail_eq_of_cons_eq same⟩
      | cons second seconds =>
          exact absurd same.symm (opens (proper second List.mem_cons_self) seconds _ _)
  | cons first firsts =>
      cases seconds with
      | nil => exact absurd same (opens (firstsProper first List.mem_cons_self) firsts _ _)
      | cons second seconds =>
          rw [List.forall_mem_cons] at told proper
          rw [intercalate_texts, intercalate_texts, List.append_assoc, List.append_assoc] at same
          obtain ⟨rfl, after⟩ := told.1 second _ _ proper.1 (ended_following firsts closer rest)
            (ended_following seconds closer others) same
          obtain ⟨rfl, follows⟩ := following_append_inj closer notSpace told.2 proper.2 after
          exact ⟨rfl, follows⟩

theorem Proper.guise_eq {first second : Shape} (firstProper : first.Proper)
    (secondProper : second.Proper) {rest others : List Char} (ended : Ended rest)
    (otherEnded : Ended others) (same : first.text ++ rest = second.text ++ others) :
    first.guise = second.guise := by
  rw [← firstProper.ofText_append ended, same, secondProper.ofText_append otherEnded]

/-- By induction on the first shape; the guises leave only shapes of its own kind to tell apart. -/
theorem Proper.told {first : Shape} (proper : first.Proper) : first.Told := by
  induction proper with
  | word readable =>
      intro second rest others secondProper ended otherEnded same
      have guises := guise_eq (.word readable) secondProper ended otherEnded same
      cases secondProper with
      | word other =>
          obtain ⟨rfl, follows⟩ := readable.append_inj other ended otherEnded same
          exact ⟨rfl, follows⟩
      | _ => cases guises
  | quoted text =>
      intro second rest others secondProper ended otherEnded same
      have guises := guise_eq (.quoted text) secondProper ended otherEnded same
      cases secondProper with
      | quoted other =>
          obtain ⟨rfl, follows⟩ := Text.quoted_append_inj same
          exact ⟨rfl, follows⟩
      | _ => cases guises
  | spread inner ih =>
      intro second rest others secondProper ended otherEnded same
      have guises := guise_eq (.spread inner) secondProper ended otherEnded same
      cases secondProper with
      | spread other =>
          simp only [text, List.cons_append, List.cons.injEq, true_and] at same
          obtain ⟨rfl, follows⟩ := ih _ rest others other ended otherEnded same
          exact ⟨rfl, follows⟩
      | _ => cases guises
  | group parts ih =>
      intro second rest others secondProper ended otherEnded same
      have guises := guise_eq (.group parts) secondProper ended otherEnded same
      cases secondProper with
      | group other =>
          simp only [text, List.cons_append, List.append_assoc, List.nil_append, List.cons.injEq,
            true_and] at same
          obtain ⟨rfl, follows⟩ := parts_append_inj rfl (by decide) ih parts other same
          exact ⟨rfl, follows⟩
      | _ => cases guises
  | bracket parts ih =>
      intro second rest others secondProper ended otherEnded same
      have guises := guise_eq (.bracket parts) secondProper ended otherEnded same
      cases secondProper with
      | bracket other =>
          simp only [text, List.cons_append, List.append_assoc, List.nil_append, List.cons.injEq,
            true_and] at same
          obtain ⟨rfl, follows⟩ := parts_append_inj rfl (by decide) ih parts other same
          exact ⟨rfl, follows⟩
      | _ => cases guises

/-- Proper shapes of the same text are the same. -/
theorem Proper.text_inj {first second : Shape} (firstProper : first.Proper)
    (secondProper : second.Proper) (same : first.text = second.text) : first = second := by
  refine (firstProper.told second [] [] secondProper trivial trivial ?_).1
  rw [same]

end Shape
end SyntaxTree
