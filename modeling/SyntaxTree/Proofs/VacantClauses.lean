import SyntaxTree.Kind
import SyntaxTree.Proofs.Json.Phrases

/-!
# Vacant clauses in JSON

The optional clauses of a form are the last fields of its record. One of them is vacant if it is
null or the JSON of the sentinel. A phrase is trimmed when every vacant clause in it is left out:
gone from the members of an object, cut off the end of an array, and null where an array goes on.
-/

namespace SyntaxTree

open Json (Phrase)

/-- The fields of a record, its optional clauses behind the others. -/
structure Layout where
  others : List String := []
  clauses : List String := []

/-- The JSON of the sentinel. -/
def Json.Phrase.sentinel : Phrase := .object [(some "value", .null)]

/-- Null, or the JSON of the sentinel. -/
def Json.Phrase.isVacant : Phrase → Bool
  | .null => true
  | .object [(some "value", .null)] => true
  | _ => false

theorem Json.Phrase.eq_of_isVacant {phrase : Phrase} (vacant : phrase.isVacant = true) :
    phrase = .null ∨ phrase = .sentinel := by
  unfold isVacant at vacant
  split at vacant
  · exact .inl rfl
  · exact .inr rfl
  · cases vacant

namespace Layout

/-- The layout of the forms of a kind. Without optional clauses the other fields do not matter. -/
def ofKind : Kind → Layout
  | .loop => ⟨["body"], ["else"]⟩
  | .cond => ⟨["cond"], ["then", "else"]⟩
  | .switch => ⟨["scrutinee", "cases"], ["default", "then", "else"]⟩
  | .forEach => ⟨["target", "iter", "body"], ["then", "else"]⟩
  | _ => {}

/-- The layout of what the member of a name holds, if the name is that of a kind. -/
def ofName (name : Option String) : Layout := (name.bind Kind.ofName?).elim {} ofKind

/-- The names of the clauses that members give once, as vacant ones. -/
def leftOut (layout : Layout) (members : List (Option String × Phrase)) : List String :=
  layout.clauses.filter (fun clause =>
    match members.filter (fun member => member.1 == some clause) with
    | [(_, value)] => value.isVacant
    | _ => false)

theorem mem_leftOut {layout : Layout} {members : List (Option String × Phrase)} {name : String} :
    name ∈ layout.leftOut members ↔ name ∈ layout.clauses ∧
      ∃ member, members.filter (fun member => member.1 == some name) = [member] ∧
        member.2.isVacant = true := by
  rw [leftOut, List.mem_filter]
  refine and_congr_right (fun _ => ⟨fun vacant => ?_, ?_⟩)
  · split at vacant
    case h_1 alone => exact ⟨_, alone, vacant⟩
    case h_2 => cases vacant
  · rintro ⟨member, alone, vacant⟩
    rw [alone]
    exact vacant

section Insertion

variable (layout : Layout) {clause : String} {before after : List (Option String × Phrase)}

/-- A vacant clause that no other member gives is left out. -/
theorem mem_leftOut_insert {value : Phrase} (clausal : clause ∈ layout.clauses)
    (vacant : value.isVacant = true) (alone : ∀ member ∈ before ++ after, member.1 ≠ some clause) :
    clause ∈ layout.leftOut (before ++ (some clause, value) :: after) := by
  have none_other : (before ++ after).filter (fun member => member.1 == some clause) = [] :=
    List.filter_eq_nil_iff.mpr (fun member listed => by simpa using alone member listed)
  rw [List.filter_append, List.append_eq_nil_iff] at none_other
  refine mem_leftOut.mpr ⟨clausal, (some clause, value), ?_, vacant⟩
  simp [none_other]

/-- Whether a name is left out does not depend on members of other names. -/
theorem contains_leftOut_insert (value : Phrase) {name : String} (other : name ≠ clause) :
    (layout.leftOut (before ++ (some clause, value) :: after)).contains name =
      (layout.leftOut (before ++ after)).contains name := by
  have named : (before ++ (some clause, value) :: after).filter
      (fun member => member.1 == some name) =
        (before ++ after).filter (fun member => member.1 == some name) := by
    simp [Ne.symm other]
  rw [Bool.eq_iff_iff, List.contains_iff_mem, List.contains_iff_mem, mem_leftOut, mem_leftOut,
    named]

end Insertion

end Layout

namespace Json.Phrase

mutual

/-- The phrase of a layout without its vacant clauses, nor those of the phrases within it. -/
def trimmed (layout : Layout) : Phrase → Phrase
  | .array elements =>
      .array (trimmedElements layout.clauses (layout.others ++ layout.clauses) elements)
  | .object members => .object (trimmedMembers (layout.leftOut members) members)
  | phrase => phrase

/-- The elements of an array for the fields of the given names. -/
def trimmedElements (clauses : List String) : List String → List Phrase → List Phrase
  | _, [] => []
  | names, element :: rest =>
      let others := trimmedElements clauses names.tail rest
      if element.isVacant && names.head?.any clauses.contains then
        if others.isEmpty then [] else .null :: others
      else
        trimmed {} element :: others

/-- The members of an object but for those that are left out. -/
def trimmedMembers (leftOut : List String) :
    List (Option String × Phrase) → List (Option String × Phrase)
  | [] => []
  | (name, value) :: rest =>
      let others := trimmedMembers leftOut rest
      if name.any leftOut.contains then others
      else (name, trimmed (.ofName name) value) :: others

end

/-! ### Parts of trimmed phrases -/

theorem trimmedElements_nil (clauses : List String) (elements : List Phrase) :
    trimmedElements clauses [] elements = elements.map (trimmed {}) := by
  induction elements with
  | nil => rfl
  | cons element rest ih =>
      simp only [trimmedElements, List.head?_nil, Option.any_none, Bool.and_false, List.tail_nil,
        Bool.false_eq_true, if_false, ih, List.map_cons]

theorem trimmedMembers_eq (leftOut : List String) (members : List (Option String × Phrase)) :
    trimmedMembers leftOut members =
      (members.filter (fun member => !member.1.any leftOut.contains)).map
        (fun member => (member.1, member.2.trimmed (.ofName member.1))) := by
  induction members with
  | nil => rfl
  | cons member rest ih =>
      obtain ⟨name, value⟩ := member
      cases gone : name.any leftOut.contains <;> simp [trimmedMembers, gone, ih]

section Members

variable {leftOut : List String} {name : String} {value : Phrase}
  {rest : List (Option String × Phrase)}

theorem trimmedMembers_gone (gone : name ∈ leftOut) :
    trimmedMembers leftOut ((some name, value) :: rest) = trimmedMembers leftOut rest := by
  simp [trimmedMembers, gone]

theorem trimmedMembers_stays (stays : name ∉ leftOut) :
    trimmedMembers leftOut ((some name, value) :: rest) =
      (some name, value.trimmed (.ofName (some name))) :: trimmedMembers leftOut rest := by
  simp [trimmedMembers, stays]

end Members

/-- An array whose elements are for no fields has no clauses. -/
theorem trimmed_array (elements : List Phrase) :
    (array elements).trimmed {} = .array (elements.map (trimmed {})) := by
  rw [trimmed, ← trimmedElements_nil []]
  rfl

theorem trimmed_object (members : List (Option String × Phrase)) :
    (object members).trimmed {} =
      .object (members.map (fun member => (member.1, member.2.trimmed (.ofName member.1)))) := by
  have all_stay : members.filter (fun member => !member.1.any (List.contains [])) = members :=
    List.filter_eq_self.mpr (fun member _ => by cases member.1 <;> rfl)
  rw [trimmed, trimmedMembers_eq]
  have none_left : Layout.leftOut {} members = [] := rfl
  rw [none_left, all_stay]

/-- A clause that a member gives as a vacant one may as well be left out. -/
theorem trimmed_object_clause {layout : Layout} {clause : String} {value : Phrase}
    {before after : List (Option String × Phrase)} (clausal : clause ∈ layout.clauses)
    (vacant : value.isVacant = true) (alone : ∀ member ∈ before ++ after, member.1 ≠ some clause) :
    (object (before ++ (some clause, value) :: after)).trimmed layout =
      (object (before ++ after)).trimmed layout := by
  let leftOut := layout.leftOut (before ++ (some clause, value) :: after)
  have gone : clause ∈ leftOut := layout.mem_leftOut_insert clausal vacant alone
  have dropped : (before ++ (some clause, value) :: after).filter
      (fun member => !member.1.any leftOut.contains) =
        (before ++ after).filter (fun member => !member.1.any leftOut.contains) := by
    rw [List.filter_append, List.filter_append, List.filter_cons_of_neg (by simp [gone])]
  have kept : (before ++ after).filter (fun member => !member.1.any leftOut.contains) =
      (before ++ after).filter
        (fun member => !member.1.any (layout.leftOut (before ++ after)).contains) := by
    refine List.filter_congr (fun member listed => ?_)
    cases named : member.1 with
    | none => rfl
    | some name =>
        have other : name ≠ clause := fun equal => alone member listed (equal ▸ named)
        rw [Option.any_some, Option.any_some, layout.contains_leftOut_insert value other]
  rw [trimmed, trimmed, trimmedMembers_eq, trimmedMembers_eq, dropped, kept]

/-- No two of the members have one of the names, and those that have one are vacant. -/
structure Dispensable (names : List String) (members : List (Option String × Phrase)) :
    Prop where
  once : ∀ name ∈ names, (members.filter (fun member => member.1 == some name)).length ≤ 1
  vacant : ∀ name ∈ names, ∀ value, (some name, value) ∈ members → value.isVacant = true

theorem dispensable_leftOut (layout : Layout) (members : List (Option String × Phrase)) :
    Dispensable (layout.leftOut members) members := by
  constructor
  · intro name gone
    obtain ⟨-, member, alone, -⟩ := Layout.mem_leftOut.mp gone
    simp [alone]
  · intro name gone value listed
    obtain ⟨-, member, alone, vacant⟩ := Layout.mem_leftOut.mp gone
    have among : (some name, value) ∈ members.filter (fun member => member.1 == some name) :=
      List.mem_filter.mpr ⟨listed, by simp⟩
    rw [alone] at among
    rwa [← List.mem_singleton.mp among] at vacant

namespace Dispensable

variable {names : List String} {member : Option String × Phrase}
  {rest : List (Option String × Phrase)}

theorem tail (dispensable : Dispensable names (member :: rest)) : Dispensable names rest where
  once name gone :=
    Nat.le_trans ((List.sublist_cons_self member rest).filter _).length_le
      (dispensable.once name gone)
  vacant name gone value listed := dispensable.vacant name gone value (List.mem_cons_of_mem _ listed)

/-- Behind a member of one of the names there is no other of that name. -/
theorem not_mem_tail {name : String} {value other : Phrase}
    (dispensable : Dispensable names ((some name, value) :: rest)) (gone : name ∈ names) :
    (some name, other) ∉ rest := by
  intro listed
  have among : (some name, other) ∈ rest.filter (fun member => member.1 == some name) :=
    List.mem_filter.mpr ⟨listed, by simp⟩
  have positive := List.length_pos_of_mem among
  have once := dispensable.once name gone
  simp only [List.filter_cons, beq_self_eq_true, if_true, List.length_cons] at once
  omega

end Dispensable

/-! ### Trimming keeps phrases legible -/

theorem mem_trimmedElements {clauses names : List String} {elements : List Phrase}
    {element : Phrase} (member : element ∈ trimmedElements clauses names elements) :
    element = .null ∨ ∃ origin ∈ elements, element = origin.trimmed {} := by
  induction elements generalizing names with
  | nil => cases member
  | cons first rest ih =>
      have later (member : element ∈ trimmedElements clauses names.tail rest) :
          element = .null ∨ ∃ origin ∈ first :: rest, element = origin.trimmed {} := by
        obtain vacated | ⟨origin, listed, equal⟩ := ih member
        · exact .inl vacated
        · exact .inr ⟨origin, List.mem_cons_of_mem _ listed, equal⟩
      simp only [trimmedElements] at member
      split at member
      · split at member
        · cases member
        · rcases List.mem_cons.mp member with vacated | member
          · exact .inl vacated
          · exact later member
      · rcases List.mem_cons.mp member with equal | member
        · exact .inr ⟨first, List.mem_cons_self, equal⟩
        · exact later member

/-- Trimming opens no further brackets. -/
theorem depth_trimmed_le (layout : Layout) (phrase : Phrase) :
    (phrase.trimmed layout).depth ≤ phrase.depth := by
  induction phrase using Phrase.induction generalizing layout with
  | array elements ih =>
      have shallow := elementDepths_le.mp (Nat.le_refl (elementDepths elements))
      refine Nat.succ_le_succ (elementDepths_le.mpr (fun element member => ?_))
      obtain rfl | ⟨origin, listed, rfl⟩ := mem_trimmedElements member
      · exact Nat.zero_le _
      · exact Nat.le_trans (ih origin listed {}) (shallow origin listed)
  | object members ih =>
      have shallow := memberDepths_le.mp (Nat.le_refl (memberDepths members))
      refine Nat.succ_le_succ (memberDepths_le.mpr (fun member listed => ?_))
      rw [trimmedMembers_eq] at listed
      obtain ⟨origin, stays, rfl⟩ := List.mem_map.mp listed
      have within := (List.mem_filter.mp stays).1
      exact Nat.le_trans (ih origin within _) (shallow origin within)
  | _ => exact Nat.le_refl _

/-- The phrase has a value. -/
def isLegible (phrase : Phrase) : Bool := phrase.json?.isSome

theorem isLegible_of_isVacant {phrase : Phrase} (vacant : phrase.isVacant = true) :
    phrase.isLegible = true := by
  obtain rfl | rfl := eq_of_isVacant vacant <;> rfl

theorem isLegible_array (elements : List Phrase) :
    (array elements).isLegible = elements.all isLegible := by
  rw [isLegible, json?, Option.isSome_map]
  induction elements with
  | nil => rfl
  | cons element rest ih =>
      rw [List.all_cons, ← ih, isLegible, elementJsons?]
      cases element.json? <;> cases elementJsons? rest <;> rfl

theorem isLegible_object (members : List (Option String × Phrase)) :
    (object members).isLegible =
      members.all (fun member => member.1.isSome && member.2.isLegible) := by
  rw [isLegible, json?, Option.isSome_map]
  induction members with
  | nil => rfl
  | cons member rest ih =>
      obtain ⟨name, value⟩ := member
      rw [List.all_cons, ← ih, isLegible, memberJsons?]
      cases name <;> cases value.json? <;> cases memberJsons? rest <;> rfl

theorem all_isLegible_trimmedElements {elements : List Phrase}
    (kept : ∀ element ∈ elements, (element.trimmed {}).isLegible = element.isLegible)
    (clauses names : List String) :
    (trimmedElements clauses names elements).all isLegible = elements.all isLegible := by
  induction elements generalizing names with
  | nil => rfl
  | cons element rest ih =>
      obtain ⟨here, later⟩ := List.forall_mem_cons.mp kept
      have further := ih later names.tail
      simp only [trimmedElements]
      split
      case isTrue gone =>
          have legible := isLegible_of_isVacant (Bool.and_eq_true_iff.mp gone).1
          rw [List.all_cons, legible, Bool.true_and, ← further]
          split
          case isTrue empty => rw [List.isEmpty_iff.mp empty]
          case isFalse => rfl
      case isFalse => rw [List.all_cons, List.all_cons, here, further]

/-- What is left out has a value, so trimming neither gives nor takes one. -/
theorem isLegible_trimmed (layout : Layout) (phrase : Phrase) :
    (phrase.trimmed layout).isLegible = phrase.isLegible := by
  induction phrase using Phrase.induction generalizing layout with
  | array elements ih =>
      rw [trimmed, isLegible_array, isLegible_array]
      exact all_isLegible_trimmedElements (fun element member => ih element member {}) _ _
  | object members ih =>
      have dispensable := dispensable_leftOut layout members
      rw [trimmed, isLegible_object, isLegible_object, trimmedMembers_eq, List.all_map,
        List.all_filter, Bool.eq_iff_iff, List.all_eq_true, List.all_eq_true]
      refine forall_congr' (fun member => imp_congr_right (fun listed => ?_))
      obtain ⟨name, value⟩ := member
      simp only [Function.comp_def, ih _ listed, Bool.not_not, Bool.or_eq_true]
      refine or_iff_right_of_imp (fun gone => ?_)
      cases name with
      | none => cases gone
      | some name =>
          have vacant := dispensable.vacant name (List.contains_iff_mem.mp gone) value listed
          simp [isLegible_of_isVacant vacant]
  | _ => rfl

end Json.Phrase

end SyntaxTree
