import SyntaxTree.Proofs.Json.SpacedText

/-!
# Texts that go on

The lexemes that are found of a text stay found whatever follows, and what is found further on does
not depend on them. A text with more than blanks has lexemes, since what was begun is never dropped.
-/

namespace SyntaxTree.Json

/-! ### What was found before -/

theorem length_found_le_start (scanner : Scanner) (char : Char) :
    scanner.found.length ≤ (scanner.start char).found.length := by
  unfold Scanner.start
  split <;> try simp [Scanner.emit, Scanner.enter]
  split
  · exact Nat.le_refl _
  · split
    · exact Nat.le_refl _
    · exact Nat.le_succ _

theorem length_found_le_step (scanner : Scanner) (char : Char) :
    scanner.found.length ≤ (scanner.step char).found.length := by
  have emitted (lexeme : Lexeme) :
      scanner.found.length ≤ ((scanner.emit lexeme).start char).found.length :=
    Nat.le_trans (Nat.le_succ _) (length_found_le_start (scanner.emit lexeme) char)
  unfold Scanner.step
  split
  · exact length_found_le_start scanner char
  · exact emitted _
  · split
    · split <;> simp [Scanner.emit, Scanner.enter]
    · exact Nat.le_succ _
  · split
    · exact Nat.le_refl _
    · exact emitted _
    · exact Nat.le_succ _
  · split
    · exact Nat.le_refl _
    · exact Nat.le_succ _
    · exact Nat.le_succ _
  · exact Nat.le_refl _

theorem length_found_le_foldl (scanner : Scanner) (text : List Char) :
    scanner.found.length ≤ (text.foldl Scanner.step scanner).found.length := by
  induction text generalizing scanner with
  | nil => exact Nat.le_refl _
  | cons char rest ih => exact Nat.le_trans (length_found_le_step scanner char) (ih _)

/-- The scanner with more lexemes found before it. -/
def Scanner.after (earlier : List Lexeme) (scanner : Scanner) : Scanner :=
  ⟨scanner.found ++ earlier, scanner.mode⟩

theorem start_after (earlier : List Lexeme) (scanner : Scanner) (char : Char) :
    (scanner.after earlier).start char = (scanner.start char).after earlier := by
  unfold Scanner.start
  split <;> try rfl
  split
  · rfl
  · split <;> rfl

theorem step_after (earlier : List Lexeme) (scanner : Scanner) (char : Char) :
    (scanner.after earlier).step char = (scanner.step char).after earlier := by
  obtain ⟨found, mode⟩ := scanner
  have emitted (lexeme : Lexeme) := start_after earlier (Scanner.emit lexeme ⟨found, mode⟩) char
  cases mode with
  | between => exact start_after earlier _ char
  | halted => rfl
  | word letters lexeme =>
      cases letters with
      | nil => exact emitted lexeme
      | cons letter left =>
          simp only [Scanner.step, Scanner.after]
          split
          · split <;> rfl
          · rfl
  | numeral scan =>
      simp only [Scanner.step, Scanner.after]
      split
      · rfl
      · exact emitted scan.lexeme
      · rfl
  | text scan =>
      simp only [Scanner.step, Scanner.after]
      split <;> rfl

/-- What is found of a text does not depend on what was found before it. -/
theorem finish_foldl (earlier : List Lexeme) (text : List Char) :
    (text.foldl Scanner.step ⟨earlier, .between⟩).finish = earlier.reverse ++ lexemes text := by
  have moved (scanner : Scanner) : text.foldl Scanner.step (scanner.after earlier) =
      (text.foldl Scanner.step scanner).after earlier := by
    induction text generalizing scanner with
    | nil => rfl
    | cons char rest ih => rw [List.foldl_cons, step_after, ih, List.foldl_cons]
  have finished (scanner : Scanner) :
      (scanner.after earlier).finish = earlier.reverse ++ scanner.finish := by
    obtain ⟨found, mode⟩ := scanner
    cases mode <;> simp [Scanner.finish, Scanner.after]
  have whole := moved {}
  rw [lexemes, ← finished, ← whole]
  rfl

/-! ### What was begun -/

theorem finish_ne_nil_of_found {scanner : Scanner} (found : scanner.found ≠ []) :
    scanner.finish ≠ [] := by
  unfold Scanner.finish
  split <;> simp [found]

theorem found_foldl_ne_nil {scanner : Scanner} (found : scanner.found ≠ []) (text : List Char) :
    (text.foldl Scanner.step scanner).found ≠ [] := by
  have least := length_found_le_foldl scanner text
  have positive := List.length_pos_iff.mpr found
  exact List.length_pos_iff.mp (Nat.lt_of_lt_of_le positive least)

/-- The scanner is in the middle of a lexeme. -/
def ScanMode.Begun : ScanMode → Prop
  | .between | .halted => False
  | _ => True

theorem begun_step {mode : ScanMode} (begun : mode.Begun) {char : Char}
    (none : (Scanner.step ⟨[], mode⟩ char).found = []) :
    (Scanner.step ⟨[], mode⟩ char).mode.Begun := by
  have emitted (lexeme : Lexeme) :
      (Scanner.start (Scanner.emit lexeme ⟨[], mode⟩) char).found ≠ [] :=
    List.length_pos_iff.mp (Nat.lt_of_lt_of_le Nat.one_pos
      (length_found_le_start (Scanner.emit lexeme ⟨[], mode⟩) char))
  cases mode with
  | between => exact begun.elim
  | halted => exact begun.elim
  | word letters lexeme =>
      cases letters with
      | nil => exact absurd none (emitted lexeme)
      | cons letter left =>
          simp only [Scanner.step] at none ⊢
          split at none
          · split at none
            · cases none
            · rename_i same unfinished
              simp only [same, unfinished, if_true, if_false, Bool.false_eq_true, Scanner.enter]
              trivial
          · cases none
  | numeral scan =>
      simp only [Scanner.step] at none ⊢
      cases stepped : scan.step char with
      | more next => exact trivial
      | done =>
          rw [stepped] at none
          exact absurd none (emitted scan.lexeme)
      | wrong =>
          rw [stepped] at none
          cases none
  | text scan =>
      simp only [Scanner.step] at none ⊢
      cases stepped : scan.step char with
      | more next => exact trivial
      | done content =>
          rw [stepped] at none
          cases none
      | wrong =>
          rw [stepped] at none
          cases none

/-- What was begun is among the lexemes in the end. -/
theorem finish_ne_nil_of_begun {mode : ScanMode} (begun : mode.Begun) (text : List Char) :
    (text.foldl Scanner.step ⟨[], mode⟩).finish ≠ [] := by
  induction text generalizing mode with
  | nil => cases mode <;> first | exact begun.elim | simp [Scanner.finish]
  | cons char rest ih =>
      rw [List.foldl_cons]
      have next := @begun_step mode begun char
      generalize Scanner.step ⟨[], mode⟩ char = scanner at next
      obtain ⟨found, mode⟩ := scanner
      by_cases none : found = []
      · subst none
        exact ih (next rfl)
      · exact finish_ne_nil_of_found (found_foldl_ne_nil none rest)

theorem begun_start {char : Char} (visible : Scanner.isBlank char = false)
    (none : (Scanner.start {} char).found = []) : (Scanner.start {} char).mode.Begun := by
  unfold Scanner.start at none ⊢
  split at none <;> try trivial
  case h_13 =>
      split at none
      case isTrue digit =>
          rw [if_pos digit]
          trivial
      case isFalse noDigit =>
          rw [visible] at none
          cases none

/-- A text with more than blanks has lexemes. -/
theorem lexemes_ne_nil {text : List Char} (inside : ∃ char ∈ text, Scanner.isBlank char = false) :
    lexemes text ≠ [] := by
  induction text with
  | nil =>
      obtain ⟨char, member, -⟩ := inside
      cases member
  | cons char rest ih =>
      rw [lexemes, List.foldl_cons]
      cases blank : Scanner.isBlank char with
      | true =>
          have skipped : Scanner.step {} char = {} := start_blank {} blank
          rw [skipped]
          refine ih ?_
          obtain ⟨other, member, visible⟩ := inside
          rcases List.mem_cons.mp member with rfl | later
          · rw [blank] at visible
            cases visible
          · exact ⟨other, later, visible⟩
      | false =>
          have next := begun_start blank
          change (rest.foldl Scanner.step (Scanner.start {} char)).finish ≠ []
          generalize Scanner.start {} char = scanner at next
          obtain ⟨found, mode⟩ := scanner
          by_cases none : found = []
          · subst none
            exact finish_ne_nil_of_begun (next rfl) rest
          · exact finish_ne_nil_of_found (found_foldl_ne_nil none rest)

/-! ### Behind a value -/

/-- Blanks behind a text change nothing. -/
theorem Spaced.behind {lexemes : List Lexeme} {text blanks : List Char}
    (spaced : Spaced lexemes text) (areBlank : ∀ char ∈ blanks, Scanner.isBlank char = true) :
    Spaced lexemes (text ++ blanks) := by
  have trailing : Spaced [] blanks := by
    simpa using Spaced.blanks areBlank .nil
  have apart : Apart blanks := by
    cases blanks with
    | nil => exact trivial
    | cons char rest => exact apart_blank (List.forall_mem_cons.mp areBlank).1 rest
  simpa using spaced.append apart trailing

/-- A text goes on with one that delimits it, or that is empty in front of what does. -/
theorem Lexes.goesOn {text more : List Char} {spelled others : List Lexeme}
    (lexes : Lexes text spelled) (delimits : ∀ rest, Delimited rest → Delimited (more ++ rest))
    (follows : Lexes more others) : Lexes (text ++ more) (spelled ++ others) := by
  intro found rest delimited
  rw [List.append_assoc, lexes found _ (delimits rest delimited), follows _ rest delimited,
    List.reverse_append, List.append_assoc]

section Opened

variable {α : Type} {text : α → List Char} {spelled : α → List Lexeme} {items : List α}

theorem delimited_segments (items : List α) {rest : List Char} (delimited : Delimited rest) :
    Delimited (items.flatMap (fun item => ',' :: text item) ++ rest) := by
  cases items with
  | nil => exact delimited
  | cons item others => exact .inl rfl

/-- Segments after their commas, in front of what ends them. -/
theorem lexes_segments (lexes : ∀ item ∈ items, Lexes (text item) (spelled item)) :
    Lexes (items.flatMap (fun item => ',' :: text item))
      (items.flatMap (fun item => .comma :: spelled item)) := by
  induction items with
  | nil => exact .of_foldl (fun _ => rfl)
  | cons item rest ih =>
      obtain ⟨first, others⟩ := List.forall_mem_cons.mp lexes
      exact Lexes.cons (fun _ => rfl)
        (first.goesOn (fun _ => delimited_segments rest) (ih others))

/-- Segments with commas between them, in front of what ends them. -/
theorem lexes_separated (lexes : ∀ item ∈ items, Lexes (text item) (spelled item)) :
    Lexes ([','].intercalate (items.map text)) ([.comma].intercalate (items.map spelled)) := by
  cases items with
  | nil => exact .of_foldl (fun _ => rfl)
  | cons item rest =>
      obtain ⟨first, others⟩ := List.forall_mem_cons.mp lexes
      simp only [List.map_cons, intercalate_cons, List.flatMap_map]
      exact first.goesOn (fun _ => delimited_segments rest) (lexes_segments others)

end Opened

/-- Whatever follows an object is found behind it. -/
theorem lexemes_object_append (members : List (String × Json)) (more : List Char) :
    lexemes ((object members).compact ++ more) = (object members).spelling ++ lexemes more := by
  have opened : Lexes ('{' :: _) (.openBrace :: _) :=
    Lexes.cons (fun _ => rfl) (lexes_separated (lexes_members members))
  have inside := opened [] ('}' :: more) (.inr (.inr rfl))
  have behind := inside.trans (finish_foldl (.closeBrace :: (_ ++ [])) more)
  rw [compact, spelling, compactMembers_eq_map, memberSpellings_eq_map]
  simpa [lexemes] using behind

end SyntaxTree.Json
