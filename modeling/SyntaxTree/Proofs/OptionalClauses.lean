import SyntaxTree.Proofs.Constructible
import SyntaxTree.Proofs.TreeEquality

/-!
# Optional clauses that hold a sentinel

The bodies that are run else, then or by default may be left out of a form. A sentinel in the place
of one of them counts as none, so forms that differ only in that are built alike. Everything else
in a form stays as it is, also a condition, a comparand or a parent that is a sentinel.
-/

namespace SyntaxTree

namespace Form

variable {α : Type} {isSentinel : α → Bool}

/-- The clause is absent or holds a sentinel. -/
def Vacant (isSentinel : α → Bool) (clause : Option α) : Prop :=
  ∀ child, clause = some child → isSentinel child = true

/-- The clauses are the same, or neither of them holds more than a sentinel. -/
def Interchangeable (isSentinel : α → Bool) (clause other : Option α) : Prop :=
  clause = other ∨ Vacant isSentinel clause ∧ Vacant isSentinel other

/-- The forms differ at most in optional clauses that are vacant in both. -/
inductive Alike (isSentinel : α → Bool) : Form α → Form α → Prop where
  | same (form : Form α) : Alike isSentinel form form
  | loop {first second : Loop α} (body : first.body = second.body)
      (otherwise : Interchangeable isSentinel first.otherwise second.otherwise) :
      Alike isSentinel (.loop first) (.loop second)
  | cond {first second : Conditional α} (condition : first.condition = second.condition)
      (consequent : Interchangeable isSentinel first.consequent second.consequent)
      (otherwise : Interchangeable isSentinel first.otherwise second.otherwise) :
      Alike isSentinel (.cond first) (.cond second)
  | switch {first second : Switch α} (scrutinee : first.scrutinee = second.scrutinee)
      (cases : first.cases = second.cases)
      (fallback : Interchangeable isSentinel first.fallback second.fallback)
      (consequent : Interchangeable isSentinel first.consequent second.consequent)
      (otherwise : Interchangeable isSentinel first.otherwise second.otherwise) :
      Alike isSentinel (.switch first) (.switch second)
  | forEach {first second : Iteration α} (target : first.target = second.target)
      (source : first.source = second.source) (body : first.body = second.body)
      (consequent : Interchangeable isSentinel first.consequent second.consequent)
      (otherwise : Interchangeable isSentinel first.otherwise second.otherwise) :
      Alike isSentinel (.forEach first) (.forEach second)

/-- The optional clauses of a form, in the order of its fields. -/
def clauses : Form α → List (Option α)
  | .loop repetition => [repetition.otherwise]
  | .cond conditional => [conditional.consequent, conditional.otherwise]
  | .switch choice => [choice.fallback, choice.consequent, choice.otherwise]
  | .forEach iteration => [iteration.consequent, iteration.otherwise]
  | _ => []

/-- The children of a form that are in no optional clause. -/
def fixedChildren : Form α → List α
  | .loop repetition => [repetition.body]
  | .cond conditional => conditional.condition.toList
  | .switch choice => choice.scrutinee :: choice.cases.flatMap SwitchCase.children
  | .forEach iteration => [iteration.target, iteration.source, iteration.body]
  | form => form.children

/-- Interchangeable clauses are those of which the same is kept. -/
theorem interchangeable_iff {clause other : Option α} :
    Interchangeable isSentinel clause other ↔
      dropSentinels.kept isSentinel clause = dropSentinels.kept isSentinel other := by
  have kept_none {clause : Option α} :
      dropSentinels.kept isSentinel clause = none ↔ Vacant isSentinel clause := by
    cases clause <;> simp [dropSentinels.kept, Vacant]
  have kept_some {clause : Option α} {child : α}
      (kept : dropSentinels.kept isSentinel clause = some child) : clause = some child :=
    (Option.filter_eq_some_iff.mp kept).1
  constructor
  · rintro (rfl | ⟨vacant, likewise⟩)
    · rfl
    · rw [kept_none.mpr vacant, kept_none.mpr likewise]
  · intro equal
    cases kept : dropSentinels.kept isSentinel other with
    | none => exact .inr ⟨kept_none.mp (equal.trans kept), kept_none.mp kept⟩
    | some child => exact .inl ((kept_some (equal.trans kept)).trans (kept_some kept).symm)

theorem Alike.dropSentinels_eq {first second : Form α} (alike : Alike isSentinel first second) :
    first.dropSentinels isSentinel = second.dropSentinels isSentinel := by
  cases alike <;> simp_all only [dropSentinels, interchangeable_iff]

theorem alike_dropSentinels (form : Form α) :
    Alike isSentinel form (form.dropSentinels isSentinel) := by
  have kept (clause : Option α) :
      Interchangeable isSentinel clause (dropSentinels.kept isSentinel clause) :=
    interchangeable_iff.mpr (kept_kept isSentinel clause).symm
  cases form with
  | loop _ => exact .loop rfl (kept _)
  | cond _ => exact .cond rfl (kept _) (kept _)
  | switch _ => exact .switch rfl rfl (kept _) (kept _) (kept _)
  | forEach _ => exact .forEach rfl rfl rfl (kept _) (kept _)
  | _ => exact .same _

theorem unfeigned_of_dropSentinels {form : Form α} {clause : Option α}
    (member : clause ∈ (form.dropSentinels isSentinel).clauses) : Unfeigned isSentinel clause := by
  have kept (clause : Option α) : Unfeigned isSentinel (dropSentinels.kept isSentinel clause) :=
    kept_eq_iff.mp (kept_kept isSentinel clause)
  cases form <;> simp only [dropSentinels, clauses, List.mem_cons, List.not_mem_nil] at member <;>
    grind

theorem fixedChildren_dropSentinels (isSentinel : α → Bool) (form : Form α) :
    (form.dropSentinels isSentinel).fixedChildren = form.fixedChildren := by
  cases form <;> rfl

theorem fixedChildren_sublist (form : Form α) : form.fixedChildren.Sublist form.children := by
  cases form with
  | loop _ => exact List.sublist_append_left [_] _
  | cond _ =>
      rw [children, List.append_assoc]
      exact List.sublist_append_left _ _
  | switch _ =>
      rw [children, List.append_assoc, List.append_assoc]
      exact (List.sublist_append_left _ _).cons_cons _
  | forEach _ => exact List.sublist_append_left [_, _, _] _
  | _ => exact .refl _

end Form

namespace Node

/-- Forms that differ in vacant clauses only are built as one node, or refused with one cause. -/
theorem ofForm_eq_of_alike {first second : Form Node} (alike : first.Alike isSentinel second) :
    ofForm first = ofForm second := by
  rw [ofForm, ofForm, alike.dropSentinels_eq]

/-- A node whose form is sound and whose flags are those of its form is built again as itself. -/
theorem exists_ofForm_form {node : Node} (regular : node.Regular) :
    ∃ again, ofForm node.form = .ok again ∧ (again == node) = true := by
  refine ⟨ofCheckedForm node.form, ofForm_of_sound regular.sound, beq_iff_erased_eq.mpr ?_⟩
  rw [erased_eq, erased_eq node, regular.lvalue, regular.rvalue]
  rfl

/-- Building a node changes vacant clauses alone, of which none is left that holds a sentinel. -/
theorem form_alike_of_ofForm {form : Form Node} {node : Node} (built : ofForm form = .ok node) :
    form.Alike isSentinel node.form ∧
      (∀ clause ∈ node.form.clauses, Form.Unfeigned isSentinel clause) ∧
      form.fixedChildren.Sublist node.children := by
  obtain ⟨rfl, -⟩ := form_of_ofForm built
  refine ⟨form.alike_dropSentinels, fun _ => Form.unfeigned_of_dropSentinels, ?_⟩
  rw [← form.fixedChildren_dropSentinels isSentinel]
  exact Form.fixedChildren_sublist _

end Node
end SyntaxTree
