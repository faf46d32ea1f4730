import SyntaxTree.Proofs.Json.CutNumerals
import SyntaxTree.Proofs.Json.LongerTexts

/-!
# Texts that are cut

A compact text that is cut before its end gives the lexemes in front of the cut, and what is left of
the lexeme within which it is cut: nothing, a scalar that the end cuts short, or a number with fewer
digits.
-/

namespace SyntaxTree.Json

/-- What is left of a lexeme of several characters that is cut within them. -/
inductive Remnant : Lexeme → Lexeme → Prop
  | null : Remnant .null (.broken .null .ended .ended)
  | bool (value : Bool) : Remnant (.bool value) (.broken .bool .ended .ended)
  | text (content : Option String) : Remnant (.text content) (.broken .text .ended .ended)
  | numeral (numeral : Numeral) : Remnant (.numeral numeral) (.broken .number .ended .invalid)
  | shorter {numeral shorter : Numeral} (shortened : numeral.Shortened shorter) :
      Remnant (.numeral numeral) (.numeral shorter)

/-- A lexeme of one character. -/
def Lexeme.isMark : Lexeme → Bool
  | .openBrace | .closeBrace | .openBracket | .closeBracket | .comma | .colon => true
  | _ => false

theorem not_remnant_of_isMark {mark left : Lexeme} (isMark : mark.isMark = true) :
    ¬Remnant mark left := by
  rintro ⟨⟩ <;> cases isMark

/-- The lexemes in front of a cut, before the last of them or within it. -/
inductive Cut : List Lexeme → List Lexeme → Prop
  | before (first : Lexeme) (others : List Lexeme) : Cut (first :: others) []
  | within {first left : Lexeme} (remnant : Remnant first left) (others : List Lexeme) :
      Cut (first :: others) [left]
  | behind (first : Lexeme) {others kept : List Lexeme} (cut : Cut others kept) :
      Cut (first :: others) (first :: kept)

theorem Cut.append {spelled kept : List Lexeme} (cut : Cut spelled kept) (others : List Lexeme) :
    Cut (spelled ++ others) kept := by
  induction cut with
  | before first rest => exact .before first _
  | within remnant rest => exact .within remnant _
  | behind first _ ih => exact .behind first ih

theorem Cut.after {others kept : List Lexeme} (cut : Cut others kept) (spelled : List Lexeme) :
    Cut (spelled ++ others) (spelled ++ kept) := by
  induction spelled with
  | nil => exact cut
  | cons first rest ih => exact .behind first ih

/-- A cut is in the first or in the second of two parts. -/
theorem cut_append {spelled others kept : List Lexeme} (cut : Cut (spelled ++ others) kept) :
    Cut spelled kept ∨ ∃ later, kept = spelled ++ later ∧ Cut others later := by
  induction spelled generalizing kept with
  | nil => exact .inr ⟨kept, rfl, cut⟩
  | cons first rest ih =>
      cases cut with
      | before => exact .inl (.before first rest)
      | within remnant => exact .inl (.within remnant rest)
      | behind _ cut =>
          rcases ih cut with early | ⟨later, rfl, late⟩
          · exact .inl (.behind first early)
          · exact .inr ⟨later, rfl, late⟩

/-! ### Texts -/

/-- Wherever the text is cut before its end, its lexemes are cut. -/
def Severs (text : List Char) (spelled : List Lexeme) : Prop :=
  ∀ kept cut, text = kept ++ cut → cut ≠ [] → ∀ found, ∃ left, Cut spelled left ∧
    (kept.foldl Scanner.step ⟨found, .between⟩).finish = found.reverse ++ left

/-- The first text is cut, or the second behind all of the first. -/
theorem Severs.append {text more : List Char} {spelled others : List Lexeme}
    (severs : Severs text spelled)
    (joins : ∀ kept cut, more = kept ++ cut → ∀ found,
      ((text ++ kept).foldl Scanner.step ⟨found, .between⟩).finish =
        (kept.foldl Scanner.step ⟨spelled.reverse ++ found, .between⟩).finish)
    (follows : Severs more others) : Severs (text ++ more) (spelled ++ others) := by
  intro kept cut whole nonempty found
  have second {later : List Char} (split : more = later ++ cut) :
      ∃ left, Cut (spelled ++ others) left ∧
        ((text ++ later).foldl Scanner.step ⟨found, .between⟩).finish = found.reverse ++ left := by
    obtain ⟨left, cuts, finish⟩ := follows later cut split nonempty (spelled.reverse ++ found)
    refine ⟨spelled ++ left, cuts.after spelled, ?_⟩
    rw [joins later cut split, finish, List.reverse_append, List.reverse_reverse,
      List.append_assoc]
  rcases List.append_eq_append_iff.mp whole with ⟨later, rfl, split⟩ | ⟨rest, rfl, rfl⟩
  · exact second split
  · cases rest with
    | nil =>
        have whole := @second [] rfl
        rwa [List.append_nil, List.append_nil] at whole
    | cons char rest =>
        obtain ⟨left, cuts, finish⟩ := severs kept (char :: rest) rfl (List.cons_ne_nil char rest)
          found
        exact ⟨left, cuts.append others, finish⟩

/-- A text behind one that is a lexeme of its own, whatever follows. -/
theorem Severs.behind {text more : List Char} {lexeme : Lexeme} {others : List Lexeme}
    (scanned : ∀ found, text.foldl Scanner.step ⟨found, .between⟩ = ⟨lexeme :: found, .between⟩)
    (severs : Severs text [lexeme]) (follows : Severs more others) :
    Severs (text ++ more) (lexeme :: others) := by
  refine severs.append (fun kept cut _ found => ?_) follows
  rw [List.foldl_append, scanned]
  rfl

/-- A text in front of one that delimits it. -/
theorem Severs.delimited {text more : List Char} {spelled others : List Lexeme}
    (severs : Severs text spelled) (lexes : Lexes text spelled) (delimits : Delimited more)
    (follows : Severs more others) : Severs (text ++ more) (spelled ++ others) := by
  refine severs.append (fun kept cut split found => ?_) follows
  subst split
  refine lexes found kept ?_
  cases kept with
  | nil => trivial
  | cons char rest => exact delimits

/-! ### Lexemes -/

theorem severs_char (char : Char) (lexeme : Lexeme) : Severs [char] [lexeme] := by
  intro kept cut whole nonempty found
  cases kept with
  | nil => exact ⟨[], .before lexeme [], by simp [Scanner.finish]⟩
  | cons first rest =>
      obtain ⟨-, ended⟩ := List.cons.inj whole
      exact absurd (List.append_eq_nil_iff.mp ended.symm).2 nonempty

theorem Severs.cons {char : Char} {mark : Lexeme} {text : List Char} {spelled : List Lexeme}
    (starts : ∀ found, Scanner.step ⟨found, .between⟩ char = ⟨mark :: found, .between⟩)
    (severs : Severs text spelled) : Severs (char :: text) (mark :: spelled) :=
  @Severs.behind [char] text mark spelled starts (severs_char char mark) severs

/-- Within the text the scanner has come to something that the end leaves as a remnant. -/
theorem severs_of_remnant {text : List Char} {lexeme : Lexeme}
    (remains : ∀ kept cut, text = kept ++ cut → kept ≠ [] → cut ≠ [] → ∀ found, ∃ left,
      Remnant lexeme left ∧
        (kept.foldl Scanner.step ⟨found, .between⟩).finish = found.reverse ++ [left]) :
    Severs text [lexeme] := by
  intro kept cut whole nonempty found
  by_cases begun : kept = []
  · exact ⟨[], .before lexeme [], by simp [begun, Scanner.finish]⟩
  · obtain ⟨left, remnant, finish⟩ := remains kept cut whole begun nonempty found
    exact ⟨[left], .within remnant [], finish⟩

theorem foldl_word (found : List Lexeme) (lexeme : Lexeme) {kept cut : List Char}
    (nonempty : cut ≠ []) :
    kept.foldl Scanner.step ⟨found, .word (kept ++ cut) lexeme⟩ = ⟨found, .word cut lexeme⟩ := by
  induction kept with
  | nil => rfl
  | cons char rest ih =>
      have unfinished : (rest ++ cut).isEmpty = false := by simp [nonempty]
      have stepped : Scanner.step ⟨found, .word (char :: (rest ++ cut)) lexeme⟩ char =
          ⟨found, .word (rest ++ cut) lexeme⟩ := by
        simp [Scanner.step, Scanner.enter, unfinished]
      rw [List.foldl_cons, List.cons_append, stepped, ih]

theorem severs_word {first : Char} {letters : List Char} {lexeme : Lexeme}
    (starts : ∀ found, Scanner.step ⟨found, .between⟩ first = ⟨found, .word letters lexeme⟩)
    (remnant : Remnant lexeme (.broken (Scanner.wordKind lexeme) .ended .ended)) :
    Severs (first :: letters) [lexeme] := by
  refine severs_of_remnant (fun kept cut whole begun nonempty found => ⟨_, remnant, ?_⟩)
  obtain ⟨char, rest, rfl⟩ := List.exists_cons_of_ne_nil begun
  obtain ⟨rfl, split⟩ := List.cons.inj whole
  change letters = rest ++ cut at split
  rw [List.foldl_cons, starts, split, foldl_word found lexeme nonempty]
  simp [Scanner.finish]

/-! ### Characters between quotes -/

/-- A text that is not closed goes on with each of its characters. -/
theorem text_step_of_foldl {found : List Lexeme} {scan last : TextScan} {char : Char}
    {rest : List Char}
    (scanned : (char :: rest).foldl Scanner.step ⟨found, .text scan⟩ = ⟨found, .text last⟩) :
    ∃ next, scan.step char = .more next ∧
      rest.foldl Scanner.step ⟨found, .text next⟩ = ⟨found, .text last⟩ := by
  have longer {lexeme : Lexeme} {mode : ScanMode} :
      rest.foldl Scanner.step ⟨lexeme :: found, mode⟩ ≠ ⟨found, .text last⟩ := by
    intro equal
    have least := length_found_le_foldl ⟨lexeme :: found, mode⟩ rest
    rw [equal] at least
    exact absurd least (by simp)
  rw [List.foldl_cons] at scanned
  cases stepped : scan.step char with
  | more next =>
      refine ⟨next, rfl, ?_⟩
      simpa only [Scanner.step, stepped, Scanner.enter] using scanned
  | done content =>
      simp only [Scanner.step, stepped, Scanner.emit] at scanned
      exact absurd scanned longer
  | wrong =>
      simp only [Scanner.step, stepped, Scanner.halt] at scanned
      exact absurd scanned longer

/-- A content that is lost does not come back. -/
theorem content_isSome_of_step {scan next : TextScan} {char : Char}
    (stepped : scan.step char = .more next) (full : next.content.isSome = true) :
    scan.content.isSome = true := by
  have pushed {char : Char} (full : (scan.push char).content.isSome = true) :
      scan.content.isSome = true := by
    unfold TextScan.push at full
    dsimp only at full
    split at full
    · cases full
    · simpa using full
  have unit {unit : Nat} (full : (scan.pushUnit unit).content.isSome = true) :
      scan.content.isSome = true := by
    unfold TextScan.pushUnit at full
    split at full
    · split at full
      · simpa using full
      · cases full
    · split at full
      · exact full
      · split at full
        · cases full
        · exact pushed full
  unfold TextScan.step at stepped
  dsimp only at stepped
  split at stepped
  · split at stepped
    · cases stepped
    · split at stepped
      · cases stepped
        exact full
      · split at stepped
        · cases stepped
        · cases stepped
          exact pushed full
  · split at stepped
    · cases stepped
      exact full
    · split at stepped
      · cases stepped
        exact pushed full
      · cases stepped
  · split at stepped
    · cases stepped
      exact full
    · split at stepped
      · cases stepped
        exact unit full
      · cases stepped

/-- Within a text with a content the scanner is within a text, which has a content so far. -/
theorem exists_text_of_foldl {found : List Lexeme} {scan last : TextScan} {kept cut : List Char}
    (scanned : (kept ++ cut).foldl Scanner.step ⟨found, .text scan⟩ = ⟨found, .text last⟩)
    (full : last.content.isSome = true) :
    ∃ middle, kept.foldl Scanner.step ⟨found, .text scan⟩ = ⟨found, .text middle⟩ ∧
      middle.content.isSome = true := by
  induction kept generalizing scan with
  | nil =>
      refine ⟨scan, rfl, ?_⟩
      induction cut generalizing scan with
      | nil =>
          cases scanned
          exact full
      | cons char rest ih =>
          obtain ⟨next, stepped, further⟩ := text_step_of_foldl scanned
          exact content_isSome_of_step stepped (ih further)
  | cons char rest ih =>
      obtain ⟨next, stepped, further⟩ := text_step_of_foldl scanned
      obtain ⟨middle, reached, content⟩ := ih further
      refine ⟨middle, ?_, content⟩
      rw [List.foldl_cons]
      simpa only [Scanner.step, stepped, Scanner.enter] using reached

theorem severs_textLiteral (content : String) :
    Severs (textLiteral content) [.text (some content)] := by
  refine severs_of_remnant (fun kept cut whole begun nonempty found => ⟨_, .text _, ?_⟩)
  obtain ⟨quote, rest, rfl⟩ := List.exists_cons_of_ne_nil begun
  obtain ⟨init, last, rfl⟩ : ∃ init last, cut = init ++ [last] :=
    ⟨_, _, (List.dropLast_concat_getLast nonempty).symm⟩
  obtain ⟨rfl, split⟩ := List.cons.inj whole
  change content.toList.flatMap escapedChar ++ ['"'] = rest ++ (init ++ [last]) at split
  rw [← List.append_assoc] at split
  obtain ⟨inside, -⟩ := List.append_inj' split rfl
  have scanned := foldl_escaped found [] content.toList
  rw [inside] at scanned
  obtain ⟨middle, reached, full⟩ := exists_text_of_foldl scanned rfl
  have opened : Scanner.step ⟨found, .between⟩ '"' = ⟨found, .text { content := some [] }⟩ := rfl
  rw [List.foldl_cons, opened, reached]
  simp [Scanner.finish, TextScan.lexeme, Option.isNone_eq_false_iff.mpr full]

/-! ### Texts of values -/

theorem Steady.severs {text : List Char} {numeral : Numeral} (steady : Steady text numeral) :
    Severs text [.numeral numeral] := by
  refine severs_of_remnant (fun kept cut whole begun nonempty found => ?_)
  subst whole
  obtain ⟨scan, reached, shortened⟩ := steady.cut begun found
  rw [reached]
  cases complete : scan.numeral? with
  | none => exact ⟨_, .numeral numeral, by simp [Scanner.finish, NumeralScan.lexeme, complete]⟩
  | some shorter =>
      exact ⟨_, .shorter (shortened shorter complete),
        by simp [Scanner.finish, NumeralScan.lexeme, complete]⟩

section Items

variable {α : Type} {text : α → List Char} {spelled : α → List Lexeme} {items : List α}
  {opening closing : Char} {mark endMark : Lexeme}

/-- Segments after their commas, and the closing bracket. -/
theorem severs_further
    (closes : ∀ found, Scanner.step ⟨found, .between⟩ closing = ⟨endMark :: found, .between⟩)
    (delimiter : closing = ']' ∨ closing = '}')
    (lexes : ∀ item ∈ items, Lexes (text item) (spelled item))
    (severs : ∀ item ∈ items, Severs (text item) (spelled item)) :
    Severs (items.flatMap (fun item => ',' :: text item) ++ [closing])
      (items.flatMap (fun item => .comma :: spelled item) ++ [endMark]) := by
  induction items with
  | nil => exact severs_char closing endMark
  | cons item rest ih =>
      obtain ⟨first, others⟩ := List.forall_mem_cons.mp severs
      obtain ⟨here, later⟩ := List.forall_mem_cons.mp lexes
      have delimits := (lexes_further closes delimiter later).2 []
      rw [List.append_nil] at delimits
      have whole := Severs.cons (fun _ => rfl : ∀ found, Scanner.step ⟨found, .between⟩ ',' = _)
        (first.delimited here delimits (ih later others))
      simpa using whole

/-- Segments between brackets, with commas between them. -/
theorem severs_bracketed
    (opens : ∀ found, Scanner.step ⟨found, .between⟩ opening = ⟨mark :: found, .between⟩)
    (closes : ∀ found, Scanner.step ⟨found, .between⟩ closing = ⟨endMark :: found, .between⟩)
    (delimiter : closing = ']' ∨ closing = '}')
    (lexes : ∀ item ∈ items, Lexes (text item) (spelled item))
    (severs : ∀ item ∈ items, Severs (text item) (spelled item)) :
    Severs (opening :: ([','].intercalate (items.map text) ++ [closing]))
      (mark :: ([.comma].intercalate (items.map spelled) ++ [endMark])) := by
  refine Severs.cons opens ?_
  cases items with
  | nil => exact severs_char closing endMark
  | cons item rest =>
      obtain ⟨first, others⟩ := List.forall_mem_cons.mp severs
      obtain ⟨here, later⟩ := List.forall_mem_cons.mp lexes
      have delimits := (lexes_further closes delimiter later).2 []
      rw [List.append_nil] at delimits
      simp only [List.map_cons, intercalate_cons, List.flatMap_map, List.append_assoc]
      exact first.delimited here delimits (severs_further closes delimiter later others)

end Items

mutual

/-- Cutting the compact text of a value cuts the spelling of the value. -/
theorem severs_compact : (json : Json) → Severs json.compact json.spelling
  | .null => severs_word (fun _ => rfl) .null
  | .bool true => severs_word (fun _ => rfl) (.bool true)
  | .bool false => severs_word (fun _ => rfl) (.bool false)
  | .integer value => (steady_integer value).severs
  | .real value => (steady_real realFormat value).severs
  | .text value => severs_textLiteral value
  | .array elements => by
      rw [compact, spelling, compactElements_eq_map, spellings_eq_map]
      exact severs_bracketed (fun _ => rfl) (fun _ => rfl) (.inl rfl) (lexes_elements elements)
        (severs_elements elements)
  | .object members => by
      rw [compact, spelling, compactMembers_eq_map, memberSpellings_eq_map]
      exact severs_bracketed (fun _ => rfl) (fun _ => rfl) (.inr rfl) (lexes_members members)
        (severs_members members)

theorem severs_elements :
    (elements : List Json) → ∀ element ∈ elements, Severs element.compact element.spelling
  | [] => nofun
  | element :: rest => List.forall_mem_cons.mpr ⟨severs_compact element, severs_elements rest⟩

theorem severs_members : (members : List (String × Json)) → ∀ member ∈ members,
    Severs (textLiteral member.1 ++ ':' :: member.2.compact)
      (.text (some member.1) :: .colon :: member.2.spelling)
  | [] => nofun
  | (name, value) :: rest =>
      List.forall_mem_cons.mpr
        ⟨.behind (fun found => foldl_textLiteral found name) (severs_textLiteral name)
          (.cons (fun _ => rfl) (severs_compact value)),
          severs_members rest⟩

end

/-- The lexemes of a compact text that is cut. -/
theorem cut_of_compact {json : Json} {kept cut : List Char} (whole : json.compact = kept ++ cut)
    (nonempty : cut ≠ []) : Cut json.spelling (lexemes kept) := by
  obtain ⟨left, cuts, finish⟩ := severs_compact json kept cut whole nonempty []
  rw [lexemes, finish]
  exact cuts

end SyntaxTree.Json
