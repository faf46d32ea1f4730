import SyntaxTree.NodeConstruction
import SyntaxTree.Proofs.FormMaps

/-!
# Sound forms

A form is sound when its names are there, its level is no negative one, its cases link onward and
its optional clauses hold no sentinel. These are exactly the forms that building a node takes
as they are.
-/

namespace SyntaxTree

variable {α : Type}

/--
A case links, if at all, to the position after its own, and the last one only when the default
body is there.
-/
def Switch.Linked (choice : Switch α) : Prop :=
  ∀ position arm, choice.cases[position]? = some arm → ∀ next, arm.next = some next →
    next.toNat = position + 1 ∧ (next.toNat = choice.cases.length → choice.fallback.isSome)

namespace Form

/-- No sentinel stands in the clause. -/
def Unfeigned (isSentinel : α → Bool) (clause : Option α) : Prop :=
  ∀ child, clause = some child → isSentinel child = false

def Sound (isSentinel : α → Bool) : Form α → Prop
  | .var reference => reference.name ≠ ""
  | .imports name => name ≠ ""
  | .op operation => operation.tag ≠ ""
  | .branch jump => 0 ≤ jump.level
  | .loop repetition => Unfeigned isSentinel repetition.otherwise
  | .cond conditional =>
      Unfeigned isSentinel conditional.consequent ∧ Unfeigned isSentinel conditional.otherwise
  | .switch choice =>
      choice.Linked ∧ Unfeigned isSentinel choice.fallback ∧
        Unfeigned isSentinel choice.consequent ∧ Unfeigned isSentinel choice.otherwise
  | .forEach iteration =>
      Unfeigned isSentinel iteration.consequent ∧ Unfeigned isSentinel iteration.otherwise
  | _ => True

theorem kept_eq_iff {isSentinel : α → Bool} {clause : Option α} :
    dropSentinels.kept isSentinel clause = clause ↔ Unfeigned isSentinel clause := by
  cases clause with
  | none => simp [dropSentinels.kept, Unfeigned]
  | some child =>
      cases sentinel : isSentinel child <;> simp [dropSentinels.kept, Unfeigned, sentinel]

theorem kept_kept (isSentinel : α → Bool) (clause : Option α) :
    dropSentinels.kept isSentinel (dropSentinels.kept isSentinel clause) =
      dropSentinels.kept isSentinel clause := by
  simp [dropSentinels.kept, Option.filter_filter]

theorem dropSentinels_dropSentinels (isSentinel : α → Bool) (form : Form α) :
    (form.dropSentinels isSentinel).dropSentinels isSentinel = form.dropSentinels isSentinel := by
  cases form <;> simp only [dropSentinels, kept_kept]

/-- Dropping clauses adds no child. -/
theorem mem_children_of_dropSentinels {isSentinel : α → Bool} {form : Form α} {child : α}
    (member : child ∈ (form.dropSentinels isSentinel).children) : child ∈ form.children := by
  have kept_mem {clause : Option α} (kept : child ∈ (dropSentinels.kept isSentinel clause).toList) :
      child ∈ clause.toList := by
    cases clause with
    | none => exact kept
    | some other => cases sentinel : isSentinel other <;> simp_all [dropSentinels.kept]
  cases form <;> simp only [dropSentinels, children, List.mem_append, List.mem_cons] at member ⊢ <;>
    grind

/-- The links from a position on are those the check looks for. -/
theorem badLink?_eq_none_iff (hasFallback : Bool) (count position : Nat)
    (cases : List (SwitchCase α)) :
    badLink? hasFallback count position cases = none ↔
      ∀ offset arm, cases[offset]? = some arm → ∀ next, arm.next = some next →
        next.toNat = position + offset + 1 ∧ (next.toNat = count → hasFallback = true) := by
  induction cases generalizing position with
  | nil => simp [badLink?]
  | cons arm rest ih =>
      have later : (badLink? hasFallback count (position + 1) rest = none) ↔
          ∀ offset other, rest[offset]? = some other → ∀ next, other.next = some next →
            next.toNat = position + (offset + 1) + 1 ∧
              (next.toNat = count → hasFallback = true) := by
        rw [ih (position + 1)]
        simp only [Nat.add_assoc, Nat.add_comm 1]
      have split_first (holds : Nat → SwitchCase α → Prop) :
          (∀ offset other, (arm :: rest)[offset]? = some other → holds offset other) ↔
            holds 0 arm ∧ ∀ offset other, rest[offset]? = some other →
              holds (offset + 1) other := by
        constructor
        · exact fun all => ⟨all 0 arm rfl, fun offset other found => all (offset + 1) other found⟩
        · rintro ⟨first, others⟩ offset other found
          cases offset with
          | zero => cases found; exact first
          | succ offset => exact others offset other found
      rw [split_first (fun offset other => ∀ next, other.next = some next →
        next.toNat = position + offset + 1 ∧ (next.toNat = count → hasFallback = true)),
        ← later, badLink?]
      cases link : arm.next with
      | none => simp
      | some next =>
          by_cases places : next.toNat = position + 1
          · cases hasFallback <;> by_cases ends : next.toNat = count <;> simp_all
          · simp [places]

theorem linked_iff {choice : Switch α} :
    choice.Linked ↔ badLink? choice.fallback.isSome choice.cases.length 0 choice.cases = none := by
  rw [badLink?_eq_none_iff]
  simp only [Switch.Linked, Nat.zero_add]

/-- Sound forms are those from which nothing is dropped and in which nothing is wrong. -/
theorem sound_iff {isSentinel : α → Bool} {form : Form α} :
    form.Sound isSentinel ↔ form.dropSentinels isSentinel = form ∧ form.fault? = none := by
  cases form with
  | switch choice =>
      obtain ⟨scrutinee, cases, fallback, consequent, otherwise⟩ := choice
      simp only [Sound, linked_iff, ← kept_eq_iff, dropSentinels, fault?, switch.injEq,
        Switch.mk.injEq, true_and]
      exact and_comm
  | loop repetition =>
      simp only [Sound, ← kept_eq_iff, dropSentinels, fault?, loop.injEq, and_true]
      cases repetition; simp
  | cond conditional =>
      simp only [Sound, ← kept_eq_iff, dropSentinels, fault?, cond.injEq, and_true]
      cases conditional; simp
  | forEach iteration =>
      simp only [Sound, ← kept_eq_iff, dropSentinels, fault?, forEach.injEq, and_true]
      cases iteration; simp
  | branch jump =>
      simp [Sound, dropSentinels, fault?, Int64.not_lt]
  | _ => simp [Sound, dropSentinels, fault?, String.isEmpty_iff]

end Form

namespace Node

/-- A node whose flags are those of its form, whose form is sound, and that is no tokened program. -/
structure Regular (node : Node) : Prop where
  lvalue : node.isLValue = node.form.isLValue isLValue
  rvalue : node.isRValue = node.form.isRValue isRValue
  sound : node.form.Sound isSentinel
  program : node.kind = .prog → node.token? = none

/-- The property holds of every node of the tree. -/
def Throughout (property : Node → Prop) (node : Node) : Prop := ∀ inner ∈ node.walk, property inner

theorem throughout_iff {property : Node → Prop} {node : Node} :
    node.Throughout property ↔
      property node ∧ ∀ child ∈ node.children, child.Throughout property := by
  simp only [Throughout, walk_eq node, List.forall_mem_cons, List.mem_flatMap]
  grind

theorem Throughout.of_mem_walk {property : Node → Prop} {node inner : Node}
    (throughout : node.Throughout property) (visited : inner ∈ node.walk) :
    inner.Throughout property := by
  induction node using Node.induction with
  | step node ih =>
      rw [walk_eq, List.mem_cons, List.mem_flatMap] at visited
      rcases visited with rfl | ⟨child, member, within⟩
      · exact throughout
      · exact ih child member ((throughout_iff.mp throughout).2 child member) within

theorem form_of_ofForm {form : Form Node} {node : Node} (built : ofForm form = .ok node) :
    node = ofCheckedForm (form.dropSentinels isSentinel) ∧
      (form.dropSentinels isSentinel).fault? = none := by
  unfold ofForm at built
  dsimp only at built
  split at built
  · cases built
    exact ⟨rfl, ‹_›⟩
  · cases built

/-- A sound form is built as it is. -/
theorem ofForm_of_sound {form : Form Node} (sound : form.Sound isSentinel) :
    ofForm form = .ok (ofCheckedForm form) := by
  obtain ⟨unchanged, faultless⟩ := Form.sound_iff.mp sound
  simp only [ofForm, unchanged, faultless]

theorem regular_of_ofForm {form : Form Node} {node : Node} (built : ofForm form = .ok node) :
    node.Regular := by
  obtain ⟨rfl, faultless⟩ := form_of_ofForm built
  exact ⟨rfl, rfl, Form.sound_iff.mpr ⟨Form.dropSentinels_dropSentinels _ form, faultless⟩,
    fun _ => rfl⟩

@[simp] theorem form_withToken (token : Token) (node : Node) :
    (node.withToken token).form = node.form := by
  unfold Node.withToken
  split <;> rfl

@[simp] theorem children_withToken (token : Token) (node : Node) :
    (node.withToken token).children = node.children := by
  simp only [children, form_withToken]

theorem Regular.withToken {node : Node} (regular : node.Regular) (token : Token) :
    (node.withToken token).Regular := by
  unfold Node.withToken
  split
  · exact regular
  · exact ⟨regular.lvalue, regular.rvalue, regular.sound, fun program => absurd program ‹_›⟩

end Node
end SyntaxTree
