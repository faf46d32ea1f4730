import SyntaxTree.Proofs.Json.NumeralScanning

/-!
# Lexemes of compact texts

Every JSON value has a list of lexemes that spells it, and cutting its compact text gives this
list. So two values with one compact text have one spelling, and what a reader makes of a text can
be said of the spelling.
-/

namespace SyntaxTree.Json

theorem intercalate_cons {α : Type} (separator : α) (first : List α) (rest : List (List α)) :
    [separator].intercalate (first :: rest) =
      first ++ rest.flatMap (fun segment => separator :: segment) := by
  induction rest generalizing first with
  | nil => simp
  | cons second rest ih =>
      rw [List.intercalate_cons_cons, ih]
      simp

/-! ### Spellings -/

mutual

def spelling : Json → List Lexeme
  | .null => [.null]
  | .bool value => [.bool value]
  | .integer value => [.numeral (.ofInt value)]
  | .real value => [.numeral (.ofReal realFormat value)]
  | .text value => [.text (some value)]
  | .array elements =>
      .openBracket :: ([.comma].intercalate (spellings elements) ++ [.closeBracket])
  | .object members =>
      .openBrace :: ([.comma].intercalate (memberSpellings members) ++ [.closeBrace])

def spellings : List Json → List (List Lexeme)
  | [] => []
  | element :: rest => spelling element :: spellings rest

def memberSpellings : List (String × Json) → List (List Lexeme)
  | [] => []
  | (name, value) :: rest =>
      (.text (some name) :: .colon :: spelling value) :: memberSpellings rest

end

mutual

/-- How many arrays and objects are open at once at most. -/
def depth : Json → Nat
  | .array elements => depths elements + 1
  | .object members => memberDepths members + 1
  | _ => 0

def depths : List Json → Nat
  | [] => 0
  | element :: rest => max (depth element) (depths rest)

def memberDepths : List (String × Json) → Nat
  | [] => 0
  | (_, value) :: rest => max (depth value) (memberDepths rest)

end

theorem compactElements_eq_map (elements : List Json) :
    compactElements elements = elements.map compact := by
  induction elements with
  | nil => rfl
  | cons element rest ih => simp only [compactElements, ih, List.map_cons]

theorem spellings_eq_map (elements : List Json) : spellings elements = elements.map spelling := by
  induction elements with
  | nil => rfl
  | cons element rest ih => simp only [spellings, ih, List.map_cons]

theorem compactMembers_eq_map (members : List (String × Json)) :
    compactMembers members =
      members.map (fun member => textLiteral member.1 ++ ':' :: member.2.compact) := by
  induction members with
  | nil => rfl
  | cons member rest ih => simp only [compactMembers, ih, List.map_cons]

theorem memberSpellings_eq_map (members : List (String × Json)) :
    memberSpellings members =
      members.map (fun member => .text (some member.1) :: .colon :: member.2.spelling) := by
  induction members with
  | nil => rfl
  | cons member rest ih => simp only [memberSpellings, ih, List.map_cons]

/-! ### Texts -/

/-- The four digits of a control character are taken together. -/
theorem foldl_controlEscape (found : List Lexeme) (content : List Char) {unit : Nat}
    (control : unit < 32) :
    ['\\', 'u', '0', '0', Nat.digitChar (unit / 16), Nat.digitChar (unit % 16)].foldl Scanner.step
        ⟨found, .text { content := some content }⟩ =
      ⟨found, .text { content := some (Char.ofNat unit :: content) }⟩ := by
  have hexDigits : ∀ digit < 16, TextScan.hexDigit? digit.digitChar = some digit ∧
      digit.digitChar.utf8Size = 1 := by decide
  obtain ⟨high, highSize⟩ := hexDigits (unit / 16) (by omega)
  obtain ⟨low, lowSize⟩ := hexDigits (unit % 16) (by omega)
  have zero : TextScan.hexDigit? '0' = some 0 ∧ '0'.utf8Size = 1 := hexDigits 0 (by decide)
  have whole : 16 * (unit / 16) + unit % 16 = unit := Nat.div_add_mod unit 16
  have lead : TextScan.isLead unit = false := by simp [TextScan.isLead]; omega
  have trail : TextScan.isTrail unit = false := by simp [TextScan.isTrail]; omega
  simp [Scanner.step, TextScan.step, Scanner.enter, zero, high, highSize, low, lowSize, whole,
    TextScan.pushUnit, lead, trail, TextScan.push]

/-- An escaped character is taken into a text that is being scanned. -/
theorem foldl_escapedChar (found : List Lexeme) (content : List Char) (char : Char) :
    (escapedChar char).foldl Scanner.step ⟨found, .text { content := some content }⟩ =
      ⟨found, .text { content := some (char :: content) }⟩ := by
  unfold escapedChar
  split
  case h_8 plain_quote plain_backslash _ _ _ _ _ =>
      split
      case isTrue control =>
          have scanned := foldl_controlEscape found content control
          rwa [Char.ofNat_toNat] at scanned
      case isFalse visible =>
          have quote : (char == '"') = false := by simpa using plain_quote
          have backslash : (char == '\\') = false := by simpa using plain_backslash
          simp [Scanner.step, TextScan.step, Scanner.enter, TextScan.push, quote, backslash,
            visible]
  all_goals rfl

theorem foldl_escaped (found : List Lexeme) (content chars : List Char) :
    (chars.flatMap escapedChar).foldl Scanner.step ⟨found, .text { content := some content }⟩ =
      ⟨found, .text { content := some (chars.reverse ++ content) }⟩ := by
  induction chars generalizing content with
  | nil => rfl
  | cons char rest ih =>
      rw [List.flatMap_cons, List.foldl_append, foldl_escapedChar, ih, List.reverse_cons,
        List.append_assoc]
      rfl

theorem foldl_textLiteral (found : List Lexeme) (text : String) :
    (textLiteral text).foldl Scanner.step ⟨found, .between⟩ =
      ⟨.text (some text) :: found, .between⟩ := by
  have opened : Scanner.step ⟨found, .between⟩ '"' = ⟨found, .text { content := some [] }⟩ := rfl
  rw [textLiteral, List.foldl_cons, opened, List.foldl_append, foldl_escaped]
  simp [Scanner.step, TextScan.step, TextScan.finished, Scanner.emit]

/-! ### Texts of values -/

/-- A text that ends with its last character, before anything. -/
theorem Lexes.of_foldl {text : List Char} {spelled : List Lexeme}
    (scanned : ∀ found, text.foldl Scanner.step ⟨found, .between⟩ =
      ⟨spelled.reverse ++ found, .between⟩) : Lexes text spelled := by
  intro found rest _
  rw [List.foldl_append, scanned]

theorem Lexes.cons {char : Char} {mark : Lexeme} {text : List Char} {spelled : List Lexeme}
    (starts : ∀ found, Scanner.step ⟨found, .between⟩ char = ⟨mark :: found, .between⟩)
    (lexes : Lexes text spelled) : Lexes (char :: text) (mark :: spelled) := by
  intro found rest delimited
  rw [List.cons_append, List.foldl_cons, starts, lexes _ rest delimited, List.reverse_cons,
    List.append_assoc]
  rfl

theorem Lexes.afterText (content : String) {text : List Char} {spelled : List Lexeme}
    (lexes : Lexes text spelled) :
    Lexes (textLiteral content ++ text) (.text (some content) :: spelled) := by
  intro found rest delimited
  rw [List.append_assoc, List.foldl_append, foldl_textLiteral, lexes _ rest delimited,
    List.reverse_cons, List.append_assoc]
  rfl

theorem Lexes.append {text more : List Char} {spelled others : List Lexeme}
    (lexes : Lexes text spelled) (delimits : ∀ rest, Delimited (more ++ rest))
    (follows : Lexes more others) : Lexes (text ++ more) (spelled ++ others) := by
  intro found rest delimited
  rw [List.append_assoc, lexes found _ (delimits rest), follows _ rest delimited,
    List.reverse_append, List.append_assoc]

/-- Segments after their commas, and the closing bracket. -/
theorem lexes_further {closing : Char} {mark : Lexeme}
    (closes : ∀ found, Scanner.step ⟨found, .between⟩ closing = ⟨mark :: found, .between⟩)
    (delimiter : closing = ']' ∨ closing = '}') {α : Type} {text : α → List Char}
    {spelled : α → List Lexeme} {items : List α}
    (lexes : ∀ item ∈ items, Lexes (text item) (spelled item)) :
    Lexes (items.flatMap (fun item => ',' :: text item) ++ [closing])
        (items.flatMap (fun item => .comma :: spelled item) ++ [mark]) ∧
      ∀ rest, Delimited (items.flatMap (fun item => ',' :: text item) ++ [closing] ++ rest) := by
  induction items with
  | nil =>
      refine ⟨.of_foldl (fun found => closes found), fun rest => ?_⟩
      rcases delimiter with rfl | rfl
      · exact .inr (.inl rfl)
      · exact .inr (.inr rfl)
  | cons item rest ih =>
      obtain ⟨first, others⟩ := List.forall_mem_cons.mp lexes
      obtain ⟨further, delimits⟩ := ih others
      refine ⟨?_, fun _ => .inl rfl⟩
      have whole := Lexes.cons (fun _ => rfl : ∀ found, Scanner.step ⟨found, .between⟩ ',' = _)
        (first.append delimits further)
      simpa using whole

/-- Segments between brackets, with commas between them. -/
theorem lexes_bracketed {opening closing : Char} {mark endMark : Lexeme}
    (opens : ∀ found, Scanner.step ⟨found, .between⟩ opening = ⟨mark :: found, .between⟩)
    (closes : ∀ found, Scanner.step ⟨found, .between⟩ closing = ⟨endMark :: found, .between⟩)
    (delimiter : closing = ']' ∨ closing = '}') {α : Type} {text : α → List Char}
    {spelled : α → List Lexeme} {items : List α}
    (lexes : ∀ item ∈ items, Lexes (text item) (spelled item)) :
    Lexes (opening :: ([','].intercalate (items.map text) ++ [closing]))
      (mark :: ([.comma].intercalate (items.map spelled) ++ [endMark])) := by
  refine Lexes.cons opens ?_
  cases items with
  | nil => exact .of_foldl (fun found => closes found)
  | cons item rest =>
      obtain ⟨first, others⟩ := List.forall_mem_cons.mp lexes
      obtain ⟨further, delimits⟩ := lexes_further closes delimiter others
      simp only [List.map_cons, intercalate_cons, List.flatMap_map, List.append_assoc]
      exact first.append delimits further

mutual

/-- The compact text of a value is cut into the spelling of the value. -/
theorem lexes_compact : (json : Json) → Lexes json.compact json.spelling
  | .null => .of_foldl (fun _ => rfl)
  | .bool true => .of_foldl (fun _ => rfl)
  | .bool false => .of_foldl (fun _ => rfl)
  | .integer value => (scans_integer value).lexes
  | .real value => (scans_real realFormat value).lexes
  | .text value => .of_foldl (fun found => foldl_textLiteral found value)
  | .array elements => by
      rw [compact, spelling, compactElements_eq_map, spellings_eq_map]
      exact lexes_bracketed (fun _ => rfl) (fun _ => rfl) (.inl rfl) (lexes_elements elements)
  | .object members => by
      rw [compact, spelling, compactMembers_eq_map, memberSpellings_eq_map]
      exact lexes_bracketed (fun _ => rfl) (fun _ => rfl) (.inr rfl) (lexes_members members)

theorem lexes_elements :
    (elements : List Json) → ∀ element ∈ elements, Lexes element.compact element.spelling
  | [] => nofun
  | element :: rest => List.forall_mem_cons.mpr ⟨lexes_compact element, lexes_elements rest⟩

theorem lexes_members : (members : List (String × Json)) → ∀ member ∈ members,
    Lexes (textLiteral member.1 ++ ':' :: member.2.compact)
      (.text (some member.1) :: .colon :: member.2.spelling)
  | [] => nofun
  | (name, value) :: rest =>
      List.forall_mem_cons.mpr
        ⟨.afterText name (.cons (fun _ => rfl) (lexes_compact value)), lexes_members rest⟩

end

theorem lexemes_compact (json : Json) : lexemes json.compact = json.spelling := by
  have scanned := lexes_compact json [] [] trivial
  simpa [lexemes, Scanner.finish] using scanned

end SyntaxTree.Json
