import SyntaxTree.Json.TextScan
import SyntaxTree.Text.Quoted

/-!
# Quoted text is read back

A character is read off the front of a quoted text, whether it stands there as it is, with a short
escape or by its number, and nothing of what follows it is touched. So a quoted text ends where it
says it ends, and it determines the text.
-/

namespace SyntaxTree.Text

/-- The number that lowercase hexadecimal digits stand for. -/
def hexValue (digits : List Char) : Nat :=
  digits.foldl (fun value digit => 16 * value + (Json.TextScan.hexDigit? digit).getD 0) 0

/-- The first character of a text within quotes, and what follows it; none at the closing quote. -/
def unquotedChar? : List Char → Option (Char × List Char)
  | [] | '"' :: _ => none
  | '\\' :: '0' :: rest => some ('\x00', rest)
  | '\\' :: 't' :: rest => some ('\t', rest)
  | '\\' :: 'n' :: rest => some ('\n', rest)
  | '\\' :: 'r' :: rest => some ('\r', rest)
  | '\\' :: '"' :: rest => some ('"', rest)
  | '\\' :: '\\' :: rest => some ('\\', rest)
  | '\\' :: 'u' :: '{' :: rest =>
      some (Char.ofNat (hexValue (rest.takeWhile (· != '}'))), (rest.dropWhile (· != '}')).tail)
  | char :: rest => some (char, rest)

theorem hexDigit?_digitChar :
    ∀ digit < 16, Json.TextScan.hexDigit? digit.digitChar = some digit := by decide

theorem hexValue_append (digits : List Char) {digit : Nat} (small : digit < 16) :
    hexValue (digits ++ [digit.digitChar]) = 16 * hexValue digits + digit := by
  simp [hexValue, List.foldl_append, hexDigit?_digitChar digit small]

theorem hexValue_toDigits (natural : Nat) : hexValue (Nat.toDigits 16 natural) = natural := by
  induction natural using Nat.strongRecOn with
  | ind natural ih =>
      by_cases small : natural < 16
      · rw [Nat.toDigits_of_lt_base small]
        exact (hexValue_append [] small).trans (Nat.zero_add natural)
      · rw [Nat.toDigits_of_base_le (by decide) (by omega),
          hexValue_append _ (Nat.mod_lt natural (by decide)),
          ih (natural / 16) (by omega)]
        omega

theorem digitChar_of_mem_toDigits (natural : Nat) :
    ∀ digit ∈ Nat.toDigits 16 natural, ∃ value < 16, digit = Nat.digitChar value := by
  induction natural using Nat.strongRecOn with
  | ind natural ih =>
      intro digit member
      by_cases small : natural < 16
      · rw [Nat.toDigits_of_lt_base small, List.mem_singleton] at member
        exact ⟨natural, small, member⟩
      · rw [Nat.toDigits_of_base_le (by decide) (by omega), List.mem_append,
          List.mem_singleton] at member
        rcases member with earlier | last
        · exact ih (natural / 16) (by omega) digit earlier
        · exact ⟨natural % 16, Nat.mod_lt natural (by decide), last⟩

theorem ne_brace_of_mem_toDigits (natural : Nat) :
    ∀ digit ∈ Nat.toDigits 16 natural, (digit != '}') = true := by
  have table : ∀ value < 16, (Nat.digitChar value != '}') = true := by decide
  intro digit member
  obtain ⟨value, small, rfl⟩ := digitChar_of_mem_toDigits natural digit member
  exact table value small

/-- A quoted character is read back, whatever follows it. -/
theorem unquotedChar?_quotedChar (char : Char) (rest : List Char) :
    unquotedChar? (quotedChar char ++ rest) = some (char, rest) := by
  unfold quotedChar
  split
  · rfl
  · rfl
  · rfl
  · rfl
  · rfl
  · rfl
  · rename_i notQuote notBackslash
    split
    · have before := ne_brace_of_mem_toDigits char.toNat
      simp only [List.cons_append, List.append_assoc, List.nil_append, unquotedChar?,
        List.takeWhile_append_of_pos before, List.dropWhile_append_of_pos before,
        List.takeWhile_cons, List.dropWhile_cons, bne_self_eq_false, Bool.false_eq_true, if_false,
        List.append_nil, hexValue_toDigits, List.tail_cons, Char.ofNat_toNat]
    · unfold unquotedChar?
      split <;> simp_all

theorem quotedChars_append_inj {firsts seconds rest others : List Char}
    (same : firsts.flatMap quotedChar ++ '"' :: rest =
      seconds.flatMap quotedChar ++ '"' :: others) :
    firsts = seconds ∧ rest = others := by
  induction firsts generalizing seconds with
  | nil =>
      cases seconds with
      | nil => exact ⟨rfl, List.tail_eq_of_cons_eq same⟩
      | cons second seconds =>
          have read := congrArg unquotedChar? same
          rw [List.flatMap_cons, List.append_assoc, unquotedChar?_quotedChar] at read
          cases read
  | cons first firsts ih =>
      have read := congrArg unquotedChar? same
      rw [List.flatMap_cons, List.append_assoc, unquotedChar?_quotedChar] at read
      cases seconds with
      | nil => cases read
      | cons second seconds =>
          rw [List.flatMap_cons, List.append_assoc, unquotedChar?_quotedChar] at read
          obtain ⟨rfl, after⟩ := Prod.mk.inj (Option.some.inj read)
          obtain ⟨rfl, follows⟩ := ih after
          exact ⟨rfl, follows⟩

/-- A quoted text is told from any other before its end, whatever follows the two. -/
theorem quoted_append_inj {first second : String} {rest others : List Char}
    (same : quoted first ++ rest = quoted second ++ others) : first = second ∧ rest = others := by
  simp only [quoted, List.cons_append, List.append_assoc, List.nil_append] at same
  obtain ⟨equal, follows⟩ := quotedChars_append_inj (List.tail_eq_of_cons_eq same)
  exact ⟨String.toList_injective equal, follows⟩

end SyntaxTree.Text
