import SyntaxTree.Proofs.Json.Takes

/-!
# Texts with blanks

A JSON text is made of the texts of its lexemes, with any blanks before, between and after them.
A text between quotes shows each of its characters as it stands, behind a backslash or by its
number. However a text is written, cutting it gives the lexemes that it is made of; the compact and
the indented text of a value are two ways to write its spelling.
-/

namespace SyntaxTree.Json

/-! ### Characters between quotes -/

/-- The number that hexadecimal digits stand for, none if one of them is no digit. -/
def hexUnit? (digits : List Char) : Option Nat :=
  digits.foldl (fun value digit =>
    value.bind (fun high => (TextScan.hexDigit? digit).map (16 * high + ·))) (some 0)

/-- How a character is written between quotes: as it is, by a letter, or by one or two units. -/
inductive CharText : Char → List Char → Prop
  | plain {char : Char} (unquoted : char ≠ '"') (unescaped : char ≠ '\\')
      (visible : 0x20 ≤ char.toNat) : CharText char [char]
  | letter {letter char : Char} (escapes : TextScan.shortEscape? letter = some char) :
      CharText char ['\\', letter]
  | unit {char : Char} {digits : List Char} (four : digits.length = 4)
      (value : hexUnit? digits = some char.toNat) : CharText char ('\\' :: 'u' :: digits)
  | surrogates {leading trailing : List Char} {lead trail : Nat} (fourLeading : leading.length = 4)
      (leadValue : hexUnit? leading = some lead) (isLead : TextScan.isLead lead = true)
      (fourTrailing : trailing.length = 4) (trailValue : hexUnit? trailing = some trail)
      (isTrail : TextScan.isTrail trail = true) :
      CharText (Char.ofNat (0x10000 + (lead - 0xD800) * 0x400 + (trail - 0xDC00)))
        ('\\' :: 'u' :: (leading ++ '\\' :: 'u' :: trailing))

theorem utf8Size_of_hexDigit? {digit : Char} {value : Nat}
    (hexadecimal : TextScan.hexDigit? digit = some value) : digit.utf8Size = 1 := by
  have small : digit.toNat < 128 := by
    unfold TextScan.hexDigit? at hexadecimal
    split at hexadecimal
    · rename_i decimal
      simp only [Char.isDigit, Bool.and_eq_true, decide_eq_true_eq, ge_iff_le,
        UInt32.le_iff_toNat_le] at decimal
      exact Nat.lt_of_le_of_lt decimal.2 (by decide)
    · split at hexadecimal
      · rename_i lower
        simp only [Bool.and_eq_true, decide_eq_true_eq, Char.le_def,
          UInt32.le_iff_toNat_le] at lower
        exact Nat.lt_of_le_of_lt lower.2 (by decide)
      · split at hexadecimal
        · rename_i upper
          simp only [Bool.and_eq_true, decide_eq_true_eq, Char.le_def,
            UInt32.le_iff_toNat_le] at upper
          exact Nat.lt_of_le_of_lt upper.2 (by decide)
        · cases hexadecimal
  simp only [Char.utf8Size]
  rw [if_pos]
  simp only [UInt32.le_iff_toNat_le]
  exact Nat.le_of_lt_succ small

/-- Four digits are taken together, as the unit that they stand for. -/
theorem foldl_hexUnit (found : List Lexeme) (scan : TextScan) {digits : List Char} {unit : Nat}
    (four : digits.length = 4) (value : hexUnit? digits = some unit) :
    digits.foldl Scanner.step ⟨found, .text { scan with phase := .hex 4 (some 0) }⟩ =
      ⟨found, .text (scan.pushUnit unit)⟩ := by
  match digits, four with
  | [first, second, third, fourth], _ =>
      simp only [hexUnit?, List.foldl_cons, List.foldl_nil, Option.bind_some,
        Option.bind_eq_some_iff, Option.map_eq_some_iff] at value
      obtain ⟨_, ⟨_, ⟨_, ⟨one, isFirst, rfl⟩, two, isSecond, rfl⟩, three, isThird, rfl⟩,
        four, isFourth, rfl⟩ := value
      have pushed (phase : EscapePhase) (unit : Nat) :
          ({ scan with phase := phase } : TextScan).pushUnit unit = scan.pushUnit unit := by
        simp only [TextScan.pushUnit, TextScan.push]
      simp [Scanner.step, TextScan.step, Scanner.enter, isFirst, isSecond, isThird, isFourth,
        utf8Size_of_hexDigit? isFirst, utf8Size_of_hexDigit? isSecond,
        utf8Size_of_hexDigit? isThird, utf8Size_of_hexDigit? isFourth, pushed]

/-- A character is no surrogate. -/
theorem pushUnit_toNat (content : List Char) (char : Char) :
    TextScan.pushUnit char.toNat { content := some content } =
      { content := some (char :: content) } := by
  have valid := char.valid
  have lead : TextScan.isLead char.toNat = false := by
    simp only [TextScan.isLead, Bool.and_eq_false_iff, decide_eq_false_iff_not]
    simp only [UInt32.isValidChar, Nat.isValidChar, Char.toNat] at valid ⊢
    omega
  have trail : TextScan.isTrail char.toNat = false := by
    simp only [TextScan.isTrail, Bool.and_eq_false_iff, decide_eq_false_iff_not]
    simp only [UInt32.isValidChar, Nat.isValidChar, Char.toNat] at valid ⊢
    omega
  simp [TextScan.pushUnit, lead, trail, TextScan.push, Char.ofNat_toNat]

/-- A character that is written is taken into a text that is being scanned. -/
theorem CharText.foldl {char : Char} {text : List Char} (written : CharText char text)
    (found : List Lexeme) (content : List Char) :
    text.foldl Scanner.step ⟨found, .text { content := some content }⟩ =
      ⟨found, .text { content := some (char :: content) }⟩ := by
  have escaped (scan : TextScan) (phase : scan.phase = .plain) (rest : List Char) :
      ('\\' :: 'u' :: rest).foldl Scanner.step ⟨found, .text scan⟩ =
        rest.foldl Scanner.step ⟨found, .text { scan with phase := .hex 4 (some 0) }⟩ := by
    simp [Scanner.step, TextScan.step, Scanner.enter, phase]
  cases written with
  | plain unquoted unescaped visible =>
      have quote : (char == '"') = false := by simpa using unquoted
      have backslash : (char == '\\') = false := by simpa using unescaped
      have control : ¬char.toNat < 0x20 := Nat.not_lt_of_le visible
      simp [Scanner.step, TextScan.step, Scanner.enter, TextScan.push, quote, backslash, control]
  | @letter letter _ escapes =>
      have other : (letter == 'u') = false := by
        refine Bool.eq_false_iff.mpr (fun unit => ?_)
        rw [eq_of_beq unit] at escapes
        cases escapes
      simp [Scanner.step, TextScan.step, Scanner.enter, TextScan.push, other, escapes]
  | @unit _ digits four value =>
      rw [escaped _ rfl, foldl_hexUnit found { content := some content } four value,
        pushUnit_toNat]
  | @surrogates leading trailing lead trail fourLeading leadValue isLead fourTrailing trailValue
      isTrail =>
      have led : TextScan.pushUnit lead { content := some content } =
          { content := some content, lead := some lead } := by
        simp [TextScan.pushUnit, isLead]
      rw [escaped _ rfl, List.foldl_append,
        foldl_hexUnit found { content := some content } fourLeading leadValue, led,
        escaped _ rfl, foldl_hexUnit found { content := some content, lead := some lead }
          fourTrailing trailValue]
      simp [TextScan.pushUnit, isTrail]

/-- Characters one after another between quotes. -/
inductive CharsText : List Char → List Char → Prop
  | nil : CharsText [] []
  | cons {char : Char} {chars text rest : List Char} (written : CharText char text)
      (others : CharsText chars rest) : CharsText (char :: chars) (text ++ rest)

theorem CharsText.foldl {chars text : List Char} (written : CharsText chars text)
    (found : List Lexeme) (content : List Char) :
    text.foldl Scanner.step ⟨found, .text { content := some content }⟩ =
      ⟨found, .text { content := some (chars.reverse ++ content) }⟩ := by
  induction written generalizing content with
  | nil => rfl
  | cons first _ ih =>
      rw [List.foldl_append, first.foldl, ih, List.reverse_cons, List.append_assoc]
      rfl

theorem hexUnit?_control {unit : Nat} (control : unit < 0x20) :
    hexUnit? ['0', '0', Nat.digitChar (unit / 16), Nat.digitChar (unit % 16)] = some unit := by
  have table : ∀ unit < 0x20,
      hexUnit? ['0', '0', Nat.digitChar (unit / 16), Nat.digitChar (unit % 16)] = some unit := by
    decide
  exact table unit control

theorem charText_escapedChar (char : Char) : CharText char (escapedChar char) := by
  unfold escapedChar
  split
  case h_8 plain_quote plain_backslash _ _ _ _ _ =>
      split
      case isTrue control => exact .unit rfl (hexUnit?_control control)
      case isFalse visible => exact .plain plain_quote plain_backslash (Nat.le_of_not_lt visible)
  all_goals exact .letter rfl

theorem charsText_escaped (chars : List Char) : CharsText chars (chars.flatMap escapedChar) := by
  induction chars with
  | nil => exact .nil
  | cons char rest ih => exact .cons (charText_escapedChar char) ih

/-! ### Lexemes -/

/-- The text of a lexeme. -/
inductive LexemeText : Lexeme → List Char → Prop
  | openBrace : LexemeText .openBrace ['{']
  | closeBrace : LexemeText .closeBrace ['}']
  | openBracket : LexemeText .openBracket ['[']
  | closeBracket : LexemeText .closeBracket [']']
  | colon : LexemeText .colon [':']
  | comma : LexemeText .comma [',']
  | null : LexemeText .null ['n', 'u', 'l', 'l']
  | true : LexemeText (.bool true) ['t', 'r', 'u', 'e']
  | false : LexemeText (.bool false) ['f', 'a', 'l', 's', 'e']
  | numeral {numeral : Numeral} {text : List Char} (scans : Scans text numeral) :
      LexemeText (.numeral numeral) text
  | text {chars text : List Char} (written : CharsText chars text) :
      LexemeText (.text (some (String.ofList chars))) ('"' :: (text ++ ['"']))

theorem lexemeText_textLiteral (content : String) :
    LexemeText (.text (some content)) (textLiteral content) := by
  have written := LexemeText.text (charsText_escaped content.toList)
  rwa [String.ofList_toList] at written

/-- A number is told from what follows it. -/
def Apart : List Char → Prop
  | [] => True
  | char :: _ => Scanner.isBlank char = true ∨ char = ',' ∨ char = ']' ∨ char = '}'

/-- The text is made of the texts of the lexemes, with any blanks around them. -/
inductive Spaced : List Lexeme → List Char → Prop
  | nil : Spaced [] []
  | blank {lexemes : List Lexeme} {char : Char} {text : List Char}
      (isBlank : Scanner.isBlank char = true) (others : Spaced lexemes text) :
      Spaced lexemes (char :: text)
  | lexeme {lexeme : Lexeme} {lexemes : List Lexeme} {text rest : List Char}
      (written : LexemeText lexeme text)
      (apart : ∀ numeral, lexeme = .numeral numeral → Apart rest)
      (others : Spaced lexemes rest) : Spaced (lexeme :: lexemes) (text ++ rest)

theorem start_blank (scanner : Scanner) {char : Char} (isBlank : Scanner.isBlank char = true) :
    scanner.start char = scanner.enter .between := by
  simp only [Scanner.isBlank, Bool.or_eq_true, beq_iff_eq] at isBlank
  rcases isBlank with ((rfl | rfl) | rfl) | rfl <;> rfl

/-- What is apart from a number ends it. -/
theorem step_apart {scan : NumeralScan} {numeral : Numeral}
    (complete : scan.numeral? = some numeral)
    {char : Char} {rest : List Char} (apart : Apart (char :: rest)) : scan.step char = .done := by
  rcases apart with blank | delimiter
  · have phases : scan.phase = .zero ∨ scan.phase = .whole ∨ scan.phase = .fraction ∨
        scan.phase = .power := by
      cases phase : scan.phase <;> simp_all [NumeralScan.numeral?]
    simp only [Scanner.isBlank, Bool.or_eq_true, beq_iff_eq] at blank
    rcases blank with ((rfl | rfl) | rfl) | rfl <;>
      rcases phases with phase | phase | phase | phase <;>
        simp [NumeralScan.step, phase, NumeralScan.isExponentMark]
  · exact @step_delimiter scan numeral complete char rest delimiter

/-- A lexeme is a number, or it is found as soon as its text ends. -/
theorem LexemeText.scans_or_foldl {lexeme : Lexeme} {text : List Char}
    (written : LexemeText lexeme text) :
    (∃ numeral, lexeme = .numeral numeral ∧ Scans text numeral) ∨
      ∀ found, text.foldl Scanner.step ⟨found, .between⟩ = ⟨lexeme :: found, .between⟩ := by
  cases written with
  | numeral scans => exact .inl ⟨_, rfl, scans⟩
  | text written =>
      refine .inr (fun found => ?_)
      have opened : Scanner.step ⟨found, .between⟩ '"' =
          ⟨found, .text { content := some [] }⟩ := rfl
      rw [List.foldl_cons, opened, List.foldl_append, written.foldl]
      simp [Scanner.step, TextScan.step, TextScan.finished, Scanner.emit]
  | _ => exact .inr (fun _ => rfl)

/-- The lexemes that a text is made of are found, behind those that were found before it. -/
theorem Spaced.finish {lexemes : List Lexeme} {text : List Char} (spaced : Spaced lexemes text)
    (found : List Lexeme) :
    (text.foldl Scanner.step ⟨found, .between⟩).finish = found.reverse ++ lexemes := by
  induction spaced generalizing found with
  | nil => simp [Scanner.finish]
  | blank isBlank _ ih =>
      have skipped : Scanner.step ⟨found, .between⟩ _ = ⟨found, .between⟩ :=
        start_blank ⟨found, .between⟩ isBlank
      rw [List.foldl_cons, skipped, ih found]
  | @lexeme lexeme lexemes text rest written apart _ ih =>
      have after := ih (lexeme :: found)
      rw [List.reverse_cons, List.append_assoc, List.singleton_append] at after
      rw [List.foldl_append]
      rcases written.scans_or_foldl with ⟨numeral, rfl, scans⟩ | ends
      · -- A number is found only with the character behind it, or with the end.
        obtain ⟨scan, reaches, complete⟩ := scans.reaches found
        have shown : scan.lexeme = .numeral numeral := by rw [NumeralScan.lexeme, complete]
        rw [reaches, ← after]
        cases rest with
        | nil => simp [Scanner.finish, shown]
        | cons char rest =>
            have ends : Scanner.step ⟨found, .numeral scan⟩ char =
                Scanner.step ⟨.numeral numeral :: found, .between⟩ char := by
              simp only [Scanner.step, step_apart complete (apart numeral rfl), shown,
                Scanner.emit]
            rw [List.foldl_cons, List.foldl_cons, ends]
      · rw [ends found, after]

theorem Spaced.lexemes_eq {lexemes : List Lexeme} {text : List Char}
    (spaced : Spaced lexemes text) : Json.lexemes text = lexemes := spaced.finish []

/-! ### Putting texts together -/

theorem Apart.append {text rest : List Char} (apart : Apart text) (follows : Apart rest) :
    Apart (text ++ rest) := by
  cases text with
  | nil => exact follows
  | cons char others => exact apart

theorem apart_blank {char : Char} (isBlank : Scanner.isBlank char = true) (rest : List Char) :
    Apart (char :: rest) := .inl isBlank

theorem apart_comma (rest : List Char) : Apart (',' :: rest) := .inr (.inl rfl)

theorem Spaced.append {firsts others : List Lexeme} {text rest : List Char}
    (spaced : Spaced firsts text) (apart : Apart rest) (follows : Spaced others rest) :
    Spaced (firsts ++ others) (text ++ rest) := by
  induction spaced with
  | nil => exact follows
  | blank isBlank _ ih => exact .blank isBlank ih
  | lexeme written after _ ih =>
      rw [List.append_assoc]
      exact .lexeme written (fun numeral equal => (after numeral equal).append apart) ih

theorem Spaced.blanks {lexemes : List Lexeme} {blanks text : List Char}
    (areBlank : ∀ char ∈ blanks, Scanner.isBlank char = true) (spaced : Spaced lexemes text) :
    Spaced lexemes (blanks ++ text) := by
  induction blanks with
  | nil => exact spaced
  | cons char rest ih =>
      obtain ⟨isBlank, others⟩ := List.forall_mem_cons.mp areBlank
      exact .blank isBlank (ih others)

/-- A lexeme of one character, which is no number. -/
theorem Spaced.mark {mark : Lexeme} {char : Char} (written : LexemeText mark [char])
    (notNumeral : ∀ numeral, mark ≠ .numeral numeral) {lexemes : List Lexeme} {text : List Char}
    (others : Spaced lexemes text) : Spaced (mark :: lexemes) (char :: text) :=
  .lexeme written (fun numeral equal => absurd equal (notNumeral numeral)) others

theorem Spaced.scalar {lexeme : Lexeme} {text : List Char} (written : LexemeText lexeme text) :
    Spaced [lexeme] text := by
  have spaced : Spaced [lexeme] (text ++ []) := .lexeme written (fun _ _ => trivial) .nil
  rwa [List.append_nil] at spaced

/-- Items with a comma and blanks between them, in front of what they do not run into. -/
theorem Spaced.separated {α : Type} {text : α → List Char} {spelled : α → List Lexeme}
    {blanks tail : List Char} {closing : List Lexeme}
    (areBlank : ∀ char ∈ blanks, Scanner.isBlank char = true) (apart : Apart tail)
    (closes : Spaced closing tail) {items : List α} (nonempty : items ≠ [])
    (spaced : ∀ item ∈ items, Spaced (spelled item) (text item)) :
    Spaced ([.comma].intercalate (items.map spelled) ++ closing)
      (List.intercalate (',' :: blanks) (items.map text) ++ tail) := by
  induction items with
  | nil => exact absurd rfl nonempty
  | cons first rest ih =>
      obtain ⟨here, others⟩ := List.forall_mem_cons.mp spaced
      cases rest with
      | nil => simpa using here.append apart closes
      | cons second more =>
          have further := (ih (List.cons_ne_nil second more) others).blanks areBlank
          have whole := here.append (apart_comma _) (further.mark .comma nofun)
          simpa [List.intercalate_cons_cons] using whole

/-! ### Compact texts -/

/-- Items between brackets, with a comma between them. -/
theorem Spaced.bracketed {opening closing : Char} {mark endMark : Lexeme}
    (opens : LexemeText mark [opening]) (notNumeral : ∀ numeral, mark ≠ .numeral numeral)
    (closes : LexemeText endMark [closing]) (apart : Apart [closing]) {α : Type}
    {text : α → List Char} {spelled : α → List Lexeme} {items : List α}
    (spaced : ∀ item ∈ items, Spaced (spelled item) (text item)) :
    Spaced (mark :: ([.comma].intercalate (items.map spelled) ++ [endMark]))
      (opening :: ([','].intercalate (items.map text) ++ [closing])) := by
  have last := Spaced.scalar closes
  cases items with
  | nil => exact .mark opens notNumeral last
  | cons first rest =>
      have noBlanks : ∀ char ∈ ([] : List Char), Scanner.isBlank char = true := nofun
      exact .mark opens notNumeral
        (.separated noBlanks apart last (List.cons_ne_nil first rest) spaced)

mutual

/-- The compact text of a value is a text of its spelling. -/
theorem spaced_compact : (json : Json) → Spaced json.spelling json.compact
  | .null => .scalar .null
  | .bool true => .scalar .true
  | .bool false => .scalar .false
  | .integer value => .scalar (.numeral (scans_integer value))
  | .real value => .scalar (.numeral (scans_real realFormat value))
  | .text value => .scalar (lexemeText_textLiteral value)
  | .array elements => by
      rw [compact, spelling, compactElements_eq_map, spellings_eq_map]
      exact .bracketed .openBracket nofun .closeBracket (.inr (.inr (.inl rfl)))
        (spaced_compactElements elements)
  | .object members => by
      rw [compact, spelling, compactMembers_eq_map, memberSpellings_eq_map]
      exact .bracketed .openBrace nofun .closeBrace (.inr (.inr (.inr rfl)))
        (spaced_compactMembers members)

theorem spaced_compactElements :
    (elements : List Json) → ∀ element ∈ elements, Spaced element.spelling element.compact
  | [] => nofun
  | element :: rest =>
      List.forall_mem_cons.mpr ⟨spaced_compact element, spaced_compactElements rest⟩

theorem spaced_compactMembers : (members : List (String × Json)) → ∀ member ∈ members,
    Spaced (.text (some member.1) :: .colon :: member.2.spelling)
      (textLiteral member.1 ++ ':' :: member.2.compact)
  | [] => nofun
  | (name, value) :: rest =>
      List.forall_mem_cons.mpr
        ⟨.lexeme (lexemeText_textLiteral name) nofun (.mark .colon nofun (spaced_compact value)),
          spaced_compactMembers rest⟩

end

/-! ### Indented texts -/

/-- Items between brackets, each on a line of its own. -/
theorem Spaced.indented {opening closing : Char} {mark endMark : Lexeme}
    (opens : LexemeText mark [opening]) (notNumeral : ∀ numeral, mark ≠ .numeral numeral)
    (closes : LexemeText endMark [closing]) {α : Type} {text : α → List Char}
    {spelled : α → List Lexeme} {items : List α} (depth : Nat)
    (spaced : ∀ item ∈ items, Spaced (spelled item) (text item)) :
    Spaced (mark :: ([.comma].intercalate (items.map spelled) ++ [endMark]))
      (Json.indented depth opening closing (items.map text)) := by
  have indentation (count : Nat) :
      ∀ char ∈ '\n' :: List.replicate count ' ', Scanner.isBlank char = true := by
    rw [List.forall_mem_cons]
    refine ⟨rfl, fun char member => ?_⟩
    rw [List.eq_of_mem_replicate member]
    rfl
  cases items with
  | nil => exact .mark opens notNumeral (.scalar closes)
  | cons first rest =>
      have last := (Spaced.scalar closes).blanks (indentation (2 * depth))
      have parts := Spaced.separated (indentation (2 * (depth + 1))) (apart_blank rfl _) last
        (List.cons_ne_nil first rest) spaced
      have whole := Spaced.mark opens notNumeral (parts.blanks (indentation (2 * (depth + 1))))
      simpa [Json.indented] using whole

theorem prettyElements_eq_map (depth : Nat) (elements : List Json) :
    prettyElements depth elements = elements.map (pretty depth) := by
  induction elements with
  | nil => rfl
  | cons element rest ih => simp only [prettyElements, ih, List.map_cons]

theorem prettyMembers_eq_map (depth : Nat) (members : List (String × Json)) :
    prettyMembers depth members =
      members.map (fun member => textLiteral member.1 ++ ':' :: ' ' :: member.2.pretty depth) := by
  induction members with
  | nil => rfl
  | cons member rest ih => simp only [prettyMembers, ih, List.map_cons]

mutual

/-- The indented text of a value is a text of its spelling, at any depth. -/
theorem spaced_pretty : (json : Json) → (depth : Nat) → Spaced json.spelling (json.pretty depth)
  | .null, _ => .scalar .null
  | .bool true, _ => .scalar .true
  | .bool false, _ => .scalar .false
  | .integer value, _ => .scalar (.numeral (scans_integer value))
  | .real value, _ => .scalar (.numeral (scans_real realFormat value))
  | .text value, _ => .scalar (lexemeText_textLiteral value)
  | .array elements, depth => by
      rw [pretty, spelling, prettyElements_eq_map, spellings_eq_map]
      exact .indented .openBracket nofun .closeBracket depth (spaced_elements elements (depth + 1))
  | .object members, depth => by
      rw [pretty, spelling, prettyMembers_eq_map, memberSpellings_eq_map]
      exact .indented .openBrace nofun .closeBrace depth (spaced_members members (depth + 1))

theorem spaced_elements : (elements : List Json) → (depth : Nat) →
    ∀ element ∈ elements, Spaced element.spelling (element.pretty depth)
  | [], _ => nofun
  | element :: rest, depth =>
      List.forall_mem_cons.mpr ⟨spaced_pretty element depth, spaced_elements rest depth⟩

theorem spaced_members : (members : List (String × Json)) → (depth : Nat) → ∀ member ∈ members,
    Spaced (.text (some member.1) :: .colon :: member.2.spelling)
      (textLiteral member.1 ++ ':' :: ' ' :: member.2.pretty depth)
  | [], _ => nofun
  | (name, value) :: rest, depth =>
      List.forall_mem_cons.mpr
        ⟨.lexeme (lexemeText_textLiteral name) nofun
          (.mark .colon nofun (.blank rfl (spaced_pretty value depth))),
          spaced_members rest depth⟩

end

/-! ### Reading -/

/-- A reader that takes the lexemes reads every text that is made of them. -/
theorem Reader.Takes.run {α : Type} {levels depth : Nat} {reader : Reader α}
    {lexemes : List Lexeme} {value : α}
    (takes : reader.Takes (levels + 1) lexemes depth (.ok value)) (shallow : depth ≤ levels)
    {text : List Char} (spaced : Spaced lexemes text) : reader.run levels text = .ok value := by
  have taken := takes.within levels (Nat.lt_succ_self levels) shallow []
  rw [List.append_nil] at taken
  rw [Reader.run, spaced.lexemes_eq, taken]
  rfl

end SyntaxTree.Json
