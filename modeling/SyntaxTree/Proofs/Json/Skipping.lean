import SyntaxTree.Proofs.Json.Takes

/-!
# Values that are skipped

The lexemes of any JSON value, with whatever texts and numbers, are skipped exactly, however deep
they nest: the scan through a value comes back to the brackets that it started in.
-/

namespace SyntaxTree.Json

/-- The lexemes of a member, given those of its value. -/
def memberLexemes (name : String) (value : List Lexeme) : List Lexeme :=
  .text (some name) :: .colon :: value

/-- The lexemes are those of a JSON value. -/
inductive IsValue : List Lexeme → Prop
  | null : IsValue [.null]
  | bool (value : Bool) : IsValue [.bool value]
  | numeral (numeral : Numeral) : IsValue [.numeral numeral]
  | text (value : String) : IsValue [.text (some value)]
  | array {elements : List (List Lexeme)} (each : ∀ element ∈ elements, IsValue element) :
      IsValue (.openBracket :: ([.comma].intercalate elements ++ [.closeBracket]))
  | object {members : List (String × List Lexeme)} (each : ∀ member ∈ members, IsValue member.2) :
      IsValue (.openBrace :: ([.comma].intercalate
        (members.map (fun member => memberLexemes member.1 member.2)) ++ [.closeBrace]))

namespace Reader

variable {rest : List Lexeme}

/-- Behind a value that is skipped, the scan ends or goes on within the brackets around it. -/
def skipped (enclosing : List Bool) (rest : List Lexeme) : Except Fault (List Lexeme) :=
  match enclosing with
  | [] => .ok rest
  | _ :: _ => skipFrom .separator enclosing rest

theorem skipFrom_value {expectation : Expectation} {enclosing outer : List Bool}
    {lexeme : Lexeme}
    (stepped : skipStep expectation enclosing lexeme = .ok (.separator, outer)) :
    skipFrom expectation enclosing (lexeme :: rest) = skipped outer rest := by
  rw [skipFrom, stepped]
  cases outer <;> rfl

theorem skipFrom_further {expectation next : Expectation} {enclosing outer : List Bool}
    {lexeme : Lexeme} (stepped : skipStep expectation enclosing lexeme = .ok (next, outer))
    (unfinished : next ≠ .separator) :
    skipFrom expectation enclosing (lexeme :: rest) = skipFrom next outer rest := by
  rw [skipFrom, stepped]
  cases next with
  | separator => exact absurd rfl unfinished
  | _ => rfl

/-- What the brackets around a place hold, as it is expected first and behind a comma. -/
def firstItem (inObject : Bool) : Expectation := if inObject then .firstName else .firstElement

def nextItem (inObject : Bool) : Expectation := if inObject then .name else .value

def closer (inObject : Bool) : Lexeme := if inObject then .closeBrace else .closeBracket

section Items

variable {inObject : Bool} {enclosing : List Bool} {items : List (List Lexeme)}

/-- Items up to the closing bracket, each behind a comma. -/
theorem skipFrom_moreItems
    (skips : ∀ item ∈ items, ∀ rest, skipFrom (nextItem inObject) (inObject :: enclosing)
      (item ++ rest) = skipped (inObject :: enclosing) rest) :
    skipFrom .separator (inObject :: enclosing)
      (items.flatMap (.comma :: ·) ++ closer inObject :: rest) = skipped enclosing rest := by
  induction items with
  | nil => cases inObject <;> exact skipFrom_value rfl
  | cons item others ih =>
      obtain ⟨here, later⟩ := List.forall_mem_cons.mp skips
      have stepped : skipStep .separator (inObject :: enclosing) .comma =
          .ok (nextItem inObject, inObject :: enclosing) := rfl
      have unfinished : nextItem inObject ≠ .separator := by cases inObject <;> decide
      rw [List.flatMap_cons, List.append_assoc, List.cons_append,
        skipFrom_further stepped unfinished, here]
      exact ih later

/-- Items between brackets, which are expected first as they are behind a comma. -/
theorem skipFrom_items
    (starts : ∀ item ∈ items, ∀ rest, skipFrom (firstItem inObject) (inObject :: enclosing)
      (item ++ rest) = skipFrom (nextItem inObject) (inObject :: enclosing) (item ++ rest))
    (skips : ∀ item ∈ items, ∀ rest, skipFrom (nextItem inObject) (inObject :: enclosing)
      (item ++ rest) = skipped (inObject :: enclosing) rest) :
    skipFrom (firstItem inObject) (inObject :: enclosing)
      ([.comma].intercalate items ++ closer inObject :: rest) = skipped enclosing rest := by
  cases items with
  | nil => cases inObject <;> exact skipFrom_value rfl
  | cons first others =>
      rw [intercalate_cons, List.append_assoc, starts first List.mem_cons_self,
        skips first List.mem_cons_self]
      exact skipFrom_moreItems (List.forall_mem_cons.mp skips).2

end Items

end Reader

namespace IsValue

open Reader (skipFrom skipFrom_further skipFrom_items skipFrom_value skipped)

variable {lexemes : List Lexeme}

/-- A first element is skipped as any other value. -/
theorem skipFrom_firstElement (value : IsValue lexemes) (enclosing : List Bool)
    (rest : List Lexeme) :
    skipFrom .firstElement enclosing (lexemes ++ rest) =
      skipFrom .value enclosing (lexemes ++ rest) := by
  cases value <;> rfl

theorem skipFrom_eq (value : IsValue lexemes) (enclosing : List Bool) (rest : List Lexeme) :
    skipFrom .value enclosing (lexemes ++ rest) = skipped enclosing rest := by
  induction value generalizing enclosing rest with
  | @array elements each ih =>
      rw [List.cons_append, List.append_assoc, skipFrom_further rfl (by decide)]
      refine @skipFrom_items rest false enclosing elements ?_ ?_
      · exact fun element member => (each element member).skipFrom_firstElement _
      · exact fun element member => ih element member _
  | @object members each ih =>
      rw [List.cons_append, List.append_assoc, skipFrom_further rfl (by decide)]
      refine @skipFrom_items rest true enclosing _ ?_ ?_
      · intro item listed rest
        obtain ⟨member, -, rfl⟩ := List.mem_map.mp listed
        rfl
      · intro item listed rest
        obtain ⟨member, within, rfl⟩ := List.mem_map.mp listed
        exact ih member within (true :: enclosing) rest
  | _ => exact skipFrom_value rfl

/-- A value is skipped without a look at how deep it nests. -/
theorem skip_takes (value : IsValue lexemes) (bound : Nat) :
    Reader.skip.Takes bound lexemes 0 (.ok ()) := by
  refine .flat (fun levels rest => ?_)
  rw [Reader.skip, value.skipFrom_eq]
  rfl

end IsValue

end SyntaxTree.Json
