import SyntaxTree.Proofs.Constructible

/-!
# Flags and the spine of a node

The flags that a node stores are computed from those of its children when it is made. In a tree
that can be constructed they are never stale: whether a node may be assigned to or read is told by
the leaves of its spine, where tuples are gone through, and spreads as well for assignments.
-/

namespace SyntaxTree

variable {α : Type}

namespace Form

/-- Tuples and spreads ask their children, and nodes of other kinds answer by their kind. -/
theorem isLValue_eq_kind (childIsLValue : α → Bool) (form : Form α) :
    form.isLValue childIsLValue =
      if form.kind ∈ [Kind.tuple, .spread] then form.children.all childIsLValue
      else decide (form.kind ∉ [Kind.value, .format, .object, .op, .block, .prog]) := by
  cases form <;> simp [isLValue, kind, children]

theorem isRValue_eq_kind (childIsRValue : α → Bool) (form : Form α) :
    form.isRValue childIsRValue =
      if form.kind ∈ [Kind.tuple] then form.children.all childIsRValue
      else decide (form.kind ∉ [Kind.spread, .block, .prog]) := by
  cases form <;> simp [isRValue, kind, children]

end Form

namespace Node

/-- The nodes at which going down ends that goes on from nodes of the given kinds only. -/
def spineLeaves (passed : List Kind) : Node → List Node :=
  fold (fun node leaves => if node.kind ∈ passed then leaves.children.flatten else [node])

theorem spineLeaves_eq (passed : List Kind) (node : Node) :
    node.spineLeaves passed =
      if node.kind ∈ passed then node.children.flatMap (spineLeaves passed) else [node] := by
  rw [spineLeaves, fold_eq, Form.children_map, List.flatMap_def]
  rfl

/-- What a node of some kinds asks its children and another one tells by its kind, the leaves tell. -/
theorem flag_iff_forall_spineLeaves {flag : Node → Bool} {passed barred : List Kind}
    {property : Node → Prop} {node : Node} (throughout : node.Throughout property)
    (asks : ∀ inner, property inner →
      flag inner = if inner.kind ∈ passed then inner.children.all flag
        else decide (inner.kind ∉ barred)) :
    flag node = true ↔ ∀ leaf ∈ node.spineLeaves passed, leaf.kind ∉ barred := by
  induction node using Node.induction with
  | step node ih =>
      obtain ⟨own, below⟩ := throughout_iff.mp throughout
      rw [asks node own, spineLeaves_eq]
      by_cases through : node.kind ∈ passed
      · rw [if_pos through, if_pos through, List.all_eq_true]
        constructor
        · intro answers leaf reached
          obtain ⟨child, member, inside⟩ := List.mem_flatMap.mp reached
          exact (ih child member (below child member)).mp (answers child member) leaf inside
        · intro leaves child member
          apply (ih child member (below child member)).mpr
          intro leaf inside
          exact leaves leaf (List.mem_flatMap.mpr ⟨child, member, inside⟩)
      · rw [if_neg through, if_neg through, decide_eq_true_eq]
        simp only [List.forall_mem_singleton]

/--
However a tree was made, each of its nodes is flagged as one that may be assigned to exactly when
this is so of every leaf below its tuples and spreads, and as one that may be read exactly when this
is so of every leaf below its tuples.
-/
theorem Constructible.flags_iff_spineLeaves {node : Node} (constructible : Constructible node) :
    ∀ inner ∈ node.walk,
      (inner.isLValue = true ↔ ∀ leaf ∈ inner.spineLeaves [.tuple, .spread],
        leaf.kind ∉ [Kind.value, .format, .object, .op, .block, .prog]) ∧
      (inner.isRValue = true ↔ ∀ leaf ∈ inner.spineLeaves [.tuple],
        leaf.kind ∉ [Kind.spread, .block, .prog]) := by
  intro inner visited
  have regular := constructible.regular_throughout.of_mem_walk visited
  constructor
  · apply flag_iff_forall_spineLeaves regular
    intro inner own
    exact own.lvalue.trans (Form.isLValue_eq_kind _ inner.form)
  · apply flag_iff_forall_spineLeaves regular
    intro inner own
    exact own.rvalue.trans (Form.isRValue_eq_kind _ inner.form)

/-- Below a tuple, a spread of a value may neither be assigned to nor read; without it, it may. -/
theorem flags_iff_spineLeaves_spread :
    let jump := mk none true true (.branch ⟨.leave, 0⟩)
    let node := tuple [tuple [], jump, spread (tuple [value (.int 1)])]
    node.Constructible ∧ node.spineLeaves [.tuple] = [jump, spread (tuple [value (.int 1)])] ∧
      node.isLValue = false ∧ node.isRValue = false ∧
      ∃ leaf ∈ node.spineLeaves [.tuple, .spread],
        leaf.kind ∈ [Kind.value, .format, .object, .op, .block, .prog] := by
  intro jump node
  have jump_made : jump.Constructible := .branch (rfl : branch "break" (.int 0) = .ok jump)
  have spread_made : (spread (tuple [value (.int 1)])).Constructible :=
    .spread (.tuple (List.forall_mem_singleton.mpr (.value _)))
  have made : node.Constructible :=
    .tuple (List.forall_mem_cons.mpr ⟨.tuple (List.forall_mem_nil _),
      List.forall_mem_cons.mpr ⟨jump_made, List.forall_mem_singleton.mpr spread_made⟩⟩)
  have root : node ∈ node.walk := by rw [walk_eq]; exact List.mem_cons_self
  obtain ⟨assigned, -⟩ := made.flags_iff_spineLeaves node root
  have stale : ¬∀ leaf ∈ node.spineLeaves [.tuple, .spread],
      leaf.kind ∉ [Kind.value, .format, .object, .op, .block, .prog] := by
    rw [← assigned]
    exact Bool.false_ne_true
  refine ⟨made, rfl, rfl, rfl, ?_⟩
  obtain ⟨leaf, barred⟩ := Classical.not_forall.mp stale
  obtain ⟨reached, barred⟩ := Classical.not_imp.mp barred
  exact ⟨leaf, reached, Classical.not_not.mp barred⟩

end Node

end SyntaxTree
