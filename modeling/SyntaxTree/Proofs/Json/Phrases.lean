import Mathlib.Data.List.Forall2
import SyntaxTree.Proofs.Json.Skipping

/-!
# Phrases

A phrase is any JSON value as it stands in a text: numbers as they are written, even those past the
finite ones, texts and names even with escapes of surrogates without a partner, members in their
order, even repeated ones. Every phrase is skipped exactly; read as a value, it comes to its value,
or fails for a number or a text without one.
-/

namespace SyntaxTree.Json

/-- A JSON value as written. A text or a name is none if it has no value. -/
inductive Phrase where
  | null
  | bool (value : Bool)
  | numeral (numeral : Numeral)
  | text (content : Option String)
  | array (elements : List Phrase)
  | object (members : List (Option String × Phrase))

namespace Phrase

mutual

def lexemes : Phrase → List Lexeme
  | .null => [.null]
  | .bool value => [.bool value]
  | .numeral written => [.numeral written]
  | .text content => [.text content]
  | .array elements =>
      .openBracket :: ([.comma].intercalate (elementLexemes elements) ++ [.closeBracket])
  | .object members =>
      .openBrace :: ([.comma].intercalate (memberLexemes members) ++ [.closeBrace])

def elementLexemes : List Phrase → List (List Lexeme)
  | [] => []
  | element :: rest => lexemes element :: elementLexemes rest

def memberLexemes : List (Option String × Phrase) → List (List Lexeme)
  | [] => []
  | (name, value) :: rest => (.text name :: .colon :: lexemes value) :: memberLexemes rest

end

mutual

/-- How many arrays and objects are open at once at most. -/
def depth : Phrase → Nat
  | .array elements => elementDepths elements + 1
  | .object members => memberDepths members + 1
  | _ => 0

def elementDepths : List Phrase → Nat
  | [] => 0
  | element :: rest => max (depth element) (elementDepths rest)

def memberDepths : List (Option String × Phrase) → Nat
  | [] => 0
  | (_, value) :: rest => max (depth value) (memberDepths rest)

end

mutual

/-- The value of a phrase, none if a number or a text within it has no value. -/
def json? : Phrase → Option Json
  | .null => some .null
  | .bool value => some (.bool value)
  | .numeral written => written.value?
  | .text content => content.map .text
  | .array elements => (elementJsons? elements).map .array
  | .object members => (memberJsons? members).map .object

def elementJsons? : List Phrase → Option (List Json)
  | [] => some []
  | element :: rest => do return (← json? element) :: (← elementJsons? rest)

def memberJsons? : List (Option String × Phrase) → Option (List (String × Json))
  | [] => some []
  | (name, value) :: rest => do return (← name, ← json? value) :: (← memberJsons? rest)

end

theorem elementLexemes_eq_map (elements : List Phrase) :
    elementLexemes elements = elements.map lexemes := by
  induction elements with
  | nil => rfl
  | cons element rest ih => simp only [elementLexemes, ih, List.map_cons]

/-- The lexemes of a member. -/
def spelledMember (member : Option String × Phrase) : List Lexeme :=
  .text member.1 :: .colon :: member.2.lexemes

theorem memberLexemes_eq_map (members : List (Option String × Phrase)) :
    memberLexemes members = members.map spelledMember := by
  induction members with
  | nil => rfl
  | cons member rest ih =>
      simp only [memberLexemes, ih, List.map_cons]
      rfl

theorem elementDepths_le {elements : List Phrase} {levels : Nat} :
    elementDepths elements ≤ levels ↔ ∀ element ∈ elements, element.depth ≤ levels := by
  induction elements with
  | nil => simp [elementDepths]
  | cons element rest ih => rw [elementDepths, Nat.max_le, ih, List.forall_mem_cons]

theorem memberDepths_le {members : List (Option String × Phrase)} {levels : Nat} :
    memberDepths members ≤ levels ↔ ∀ member ∈ members, member.2.depth ≤ levels := by
  induction members with
  | nil => simp [memberDepths]
  | cons member rest ih =>
      obtain ⟨name, value⟩ := member
      rw [memberDepths, Nat.max_le, ih, List.forall_mem_cons]

/-- The values of phrases stand in their order. -/
theorem forall₂_of_elementJsons? {elements : List Phrase} {values : List Json}
    (whole : elementJsons? elements = some values) :
    List.Forall₂ (fun element value => element.json? = some value) elements values := by
  induction elements generalizing values with
  | nil =>
      cases whole
      exact .nil
  | cons element rest ih =>
      simp only [elementJsons?, Option.bind_eq_bind, Option.bind_eq_some_iff] at whole
      obtain ⟨value, here, others, further, equal⟩ := whole
      cases equal
      exact .cons here (ih further)

theorem forall₂_of_memberJsons? {members : List (Option String × Phrase)}
    {values : List (String × Json)} (whole : memberJsons? members = some values) :
    List.Forall₂ (fun member value => member.1 = some value.1 ∧ member.2.json? = some value.2)
      members values := by
  induction members generalizing values with
  | nil =>
      cases whole
      exact .nil
  | cons member rest ih =>
      simp only [memberJsons?, Option.bind_eq_bind, Option.bind_eq_some_iff] at whole
      obtain ⟨name, named, value, here, others, further, equal⟩ := whole
      cases equal
      exact .cons ⟨named, here⟩ (ih further)

/-- What holds of a phrase as soon as it holds of what stands within it holds of every phrase. -/
theorem induction {motive : Phrase → Prop} (null : motive .null)
    (bool : ∀ value, motive (.bool value)) (numeral : ∀ written, motive (.numeral written))
    (text : ∀ content, motive (.text content))
    (array : ∀ elements, (∀ element ∈ elements, motive element) → motive (.array elements))
    (object : ∀ members : List (Option String × Phrase),
      (∀ member ∈ members, motive member.2) → motive (.object members))
    (phrase : Phrase) : motive phrase :=
  Phrase.rec null bool numeral text array object
    nofun (fun _ _ first others => List.forall_mem_cons.mpr ⟨first, others⟩)
    nofun (fun _ _ first others => List.forall_mem_cons.mpr ⟨first, others⟩)
    (fun _ _ value => value) phrase

/-! ### Skipping -/

open Reader (skipFrom skipFrom_further skipFrom_items skipFrom_value skipped)

/-- A first element is skipped as any other value. -/
theorem skipFrom_firstElement (phrase : Phrase) (enclosing : List Bool) (rest : List Lexeme) :
    skipFrom .firstElement enclosing (phrase.lexemes ++ rest) =
      skipFrom .value enclosing (phrase.lexemes ++ rest) := by
  cases phrase <;> rfl

theorem skipFrom_eq (phrase : Phrase) (enclosing : List Bool) (rest : List Lexeme) :
    skipFrom .value enclosing (phrase.lexemes ++ rest) = skipped enclosing rest := by
  induction phrase using Phrase.induction generalizing enclosing rest with
  | array elements ih =>
      rw [lexemes, elementLexemes_eq_map, List.cons_append, List.append_assoc,
        skipFrom_further rfl (by decide)]
      refine @skipFrom_items rest false enclosing _ ?_ ?_
      · intro item listed rest
        obtain ⟨element, -, rfl⟩ := List.mem_map.mp listed
        exact element.skipFrom_firstElement _ rest
      · intro item listed rest
        obtain ⟨element, within, rfl⟩ := List.mem_map.mp listed
        exact ih element within (false :: enclosing) rest
  | object members ih =>
      rw [lexemes, memberLexemes_eq_map, List.cons_append, List.append_assoc,
        skipFrom_further rfl (by decide)]
      refine @skipFrom_items rest true enclosing _ ?_ ?_
      · intro item listed rest
        obtain ⟨member, -, rfl⟩ := List.mem_map.mp listed
        rfl
      · intro item listed rest
        obtain ⟨member, within, rfl⟩ := List.mem_map.mp listed
        exact ih member within (true :: enclosing) rest
  | _ => exact skipFrom_value rfl

theorem skip_eq (phrase : Phrase) (levels : Nat) (rest : List Lexeme) :
    Reader.skip levels (phrase.lexemes ++ rest) = .ok ((), rest) := by
  rw [Reader.skip, phrase.skipFrom_eq]
  rfl

/-! ### Reading -/

theorem exists_lexemes_eq_cons (phrase : Phrase) :
    ∃ opening others, phrase.lexemes = opening :: others ∧ opening ≠ .closeBracket := by
  cases phrase <;> exact ⟨_, _, rfl, by simp⟩

/-- An array of more than nothing is read from its first phrase on. -/
theorem elements_first {α : Type} (element : Reader α) (levels : Nat) (phrase : Phrase)
    (rest : List Lexeme) :
    Reader.elements element levels (phrase.lexemes ++ rest) =
      (element >>= fun value levels lexemes =>
        ((value :: ·) <$> Reader.moreElements element (lexemes.length + 1)) levels lexemes)
        levels (phrase.lexemes ++ rest) := by
  obtain ⟨opening, others, equal, opens⟩ := phrase.exists_lexemes_eq_cons
  rw [equal]
  exact Reader.Takes.elements_cons element levels opens (others ++ rest)

theorem pair_first {α β : Type} (first : Reader α) (second : Reader β) (levels : Nat)
    (phrase : Phrase) (rest : List Lexeme) :
    Reader.pair first second levels (.openBracket :: (phrase.lexemes ++ rest)) =
      Reader.nested (first >>= Reader.Takes.pairAfter second) levels (phrase.lexemes ++ rest) := by
  obtain ⟨opening, others, equal, opens⟩ := phrase.exists_lexemes_eq_cons
  rw [equal]
  exact Reader.Takes.pair_cons first second levels opens (others ++ rest)

/-- The answer of a reader that finds a value in front of the rest, or a lexeme without one. -/
def answer {α : Type} (rest : List Lexeme) : Option α → Except ReadError (α × List Lexeme)
  | some value => .ok (value, rest)
  | none => .error (.fault .invalid)

section Parts

variable {reader : Reader Json} {levels : Nat}

theorem moreElements_eq {elements : List Phrase}
    (reads : ∀ element ∈ elements, ∀ rest,
      reader levels (element.lexemes ++ rest) = answer rest element.json?)
    {steps : Nat} (enough : elements.length < steps) (rest : List Lexeme) :
    Reader.moreElements reader steps levels
        (elements.flatMap (fun element => .comma :: element.lexemes) ++ .closeBracket :: rest) =
      answer rest (elementJsons? elements) := by
  induction elements generalizing steps with
  | nil =>
      obtain ⟨steps, rfl⟩ := Nat.exists_eq_succ_of_ne_zero (Nat.ne_of_gt enough)
      rfl
  | cons element others ih =>
      obtain ⟨steps, rfl⟩ := Nat.exists_eq_succ_of_ne_zero (Nat.ne_of_gt (Nat.zero_lt_of_lt enough))
      obtain ⟨first, later⟩ := List.forall_mem_cons.mp reads
      rw [List.flatMap_cons, List.append_assoc, List.cons_append, Reader.Takes.moreElements_comma]
      simp only [Bind.bind, Functor.map, first, elementJsons?]
      cases element.json? with
      | none => rfl
      | some value =>
          simp only [answer, ih later (Nat.lt_of_succ_lt_succ enough)]
          cases elementJsons? others <;> rfl

theorem elements_eq {elements : List Phrase}
    (reads : ∀ element ∈ elements, ∀ rest,
      reader levels (element.lexemes ++ rest) = answer rest element.json?)
    (rest : List Lexeme) :
    Reader.elements reader levels
        ([.comma].intercalate (elements.map lexemes) ++ .closeBracket :: rest) =
      answer rest (elementJsons? elements) := by
  cases elements with
  | nil => rfl
  | cons element others =>
      obtain ⟨first, later⟩ := List.forall_mem_cons.mp reads
      have fuel := Reader.Takes.length_le_flatMap_comma lexemes others
      rw [List.map_cons, intercalate_cons, List.flatMap_map, List.append_assoc, elements_first]
      simp only [Bind.bind, Functor.map, first, elementJsons?]
      cases element.json? with
      | none => rfl
      | some value =>
          simp only [answer]
          rw [moreElements_eq later (by rw [List.length_append]; omega)]
          cases elementJsons? others <;> rfl

theorem moreMembers_eq {members : List (Option String × Phrase)}
    (reads : ∀ member ∈ members, ∀ rest,
      reader levels (member.2.lexemes ++ rest) = answer rest member.2.json?)
    {steps : Nat} (enough : members.length < steps) (rest : List Lexeme) :
    Reader.moreMembers reader steps levels
        (members.flatMap (fun member => .comma :: spelledMember member) ++ .closeBrace :: rest) =
      answer rest (memberJsons? members) := by
  induction members generalizing steps with
  | nil =>
      obtain ⟨steps, rfl⟩ := Nat.exists_eq_succ_of_ne_zero (Nat.ne_of_gt enough)
      rfl
  | cons member others ih =>
      obtain ⟨steps, rfl⟩ := Nat.exists_eq_succ_of_ne_zero (Nat.ne_of_gt (Nat.zero_lt_of_lt enough))
      obtain ⟨first, later⟩ := List.forall_mem_cons.mp reads
      obtain ⟨name, value⟩ := member
      rw [List.flatMap_cons, List.append_assoc]
      cases name with
      | none => rfl
      | some name =>
          have further := ih later (Nat.lt_of_succ_lt_succ enough)
          simp only [spelledMember] at further
          simp only [spelledMember, List.cons_append, Reader.moreMembers, Bind.bind, Reader.name,
            Reader.punctuation, if_true, first, memberJsons?]
          cases value.json? with
          | none => rfl
          | some value =>
              simp only [answer, further]
              cases memberJsons? others <;> rfl

theorem members_eq {members : List (Option String × Phrase)}
    (reads : ∀ member ∈ members, ∀ rest,
      reader levels (member.2.lexemes ++ rest) = answer rest member.2.json?)
    (rest : List Lexeme) :
    Reader.members reader levels
        ([.comma].intercalate (members.map spelledMember) ++ .closeBrace :: rest) =
      answer rest (memberJsons? members) := by
  cases members with
  | nil => rfl
  | cons member others =>
      have fuel := Reader.Takes.length_le_flatMap_comma spelledMember others
      have enough : (member :: others).length < (spelledMember member ++
          (others.flatMap (fun member => .comma :: spelledMember member) ++
            .closeBrace :: rest)).length + 1 := by
        simp only [List.length_append, List.length_cons]
        omega
      -- The first member is read as it would be behind a comma.
      refine Eq.trans ?_ (moreMembers_eq reads enough rest)
      rw [List.map_cons, intercalate_cons, List.flatMap_map, List.append_assoc, List.flatMap_cons,
        List.append_assoc]
      rfl

end Parts

/-- A phrase is read as its value, or fails if it has none, within the levels that it nests to. -/
theorem anyUpTo_eq (phrase : Phrase) {height levels : Nat} (below : phrase.depth < height)
    (within : phrase.depth ≤ levels) (rest : List Lexeme) :
    Reader.anyUpTo height levels (phrase.lexemes ++ rest) = answer rest phrase.json? := by
  obtain ⟨height, rfl⟩ := Nat.exists_eq_succ_of_ne_zero (Nat.ne_of_gt (Nat.zero_lt_of_lt below))
  induction phrase using Phrase.induction generalizing height levels rest with
  | null => rfl
  | bool value => rfl
  | numeral written =>
      simp only [lexemes, json?, List.cons_append, Reader.anyUpTo]
      cases written.value? <;> rfl
  | text content => cases content <;> rfl
  | array elements ih =>
      rw [depth, Nat.succ_lt_succ_iff] at below
      rw [depth] at within
      obtain ⟨height, rfl⟩ := Nat.exists_eq_succ_of_ne_zero (Nat.ne_of_gt (Nat.zero_lt_of_lt below))
      obtain ⟨levels, rfl⟩ := Nat.exists_eq_succ_of_ne_zero (Nat.ne_of_gt (Nat.zero_lt_of_lt within))
      have shallow := elementDepths_le.mp (Nat.le_refl (elementDepths elements))
      have reads : ∀ element ∈ elements, ∀ rest, Reader.anyUpTo (height + 1) levels
          (element.lexemes ++ rest) = answer rest element.json? :=
        fun element member rest => ih element member
          (Nat.le_trans (shallow element member) (Nat.le_of_succ_le_succ within)) rest height
          (Nat.lt_of_le_of_lt (shallow element member) below)
      simp only [lexemes, json?, elementLexemes_eq_map, List.cons_append, List.append_assoc,
        List.nil_append]
      change (Json.array <$> Reader.elements (Reader.anyUpTo (height + 1))) levels _ = _
      simp only [Functor.map, elements_eq reads]
      cases elementJsons? elements <;> rfl
  | object members ih =>
      rw [depth, Nat.succ_lt_succ_iff] at below
      rw [depth] at within
      obtain ⟨height, rfl⟩ := Nat.exists_eq_succ_of_ne_zero (Nat.ne_of_gt (Nat.zero_lt_of_lt below))
      obtain ⟨levels, rfl⟩ := Nat.exists_eq_succ_of_ne_zero (Nat.ne_of_gt (Nat.zero_lt_of_lt within))
      have shallow := memberDepths_le.mp (Nat.le_refl (memberDepths members))
      have reads : ∀ member ∈ members, ∀ rest, Reader.anyUpTo (height + 1) levels
          (member.2.lexemes ++ rest) = answer rest member.2.json? :=
        fun member listed rest => ih member listed
          (Nat.le_trans (shallow member listed) (Nat.le_of_succ_le_succ within)) rest height
          (Nat.lt_of_le_of_lt (shallow member listed) below)
      simp only [lexemes, json?, memberLexemes_eq_map, List.cons_append, List.append_assoc,
        List.nil_append]
      change (Json.object <$> Reader.members (Reader.anyUpTo (height + 1))) levels _ = _
      simp only [Functor.map, members_eq reads]
      cases memberJsons? members <;> rfl

theorem any_eq (phrase : Phrase) {levels : Nat} (within : phrase.depth ≤ levels)
    (rest : List Lexeme) :
    Reader.any levels (phrase.lexemes ++ rest) = answer rest phrase.json? :=
  phrase.anyUpTo_eq (Nat.lt_succ_of_le within) within rest

end Phrase
end SyntaxTree.Json
