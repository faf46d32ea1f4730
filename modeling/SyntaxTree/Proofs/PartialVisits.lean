import SyntaxTree.NodeConstruction
import SyntaxTree.NodeWalk
import SyntaxTree.Proofs.FormMaps
import SyntaxTree.Visitor

/-!
# Visits that reach a node without a handler

A visitor that handles some kinds only, and visits the children of a node that it handles, goes
through a tree as the walk does. So it fails if and only if the walk meets a node that none of its
handlers is asked about, the first such node is the one that it reports, and its handlers have run
on the nodes before that one and on no others.
-/

namespace SyntaxTree.Visitor

variable {σ : Type} (handled : List Kind) (update : Kind → Node → σ → σ)

/-- A visit that keeps a state, also when it fails. -/
abbrev Stateful (σ : Type) := ExceptT UnsupportedKind (StateM σ)

/--
The visitor that handles the given kinds alike: it updates a state as the kind of the handler and
the node say, and then visits the children in order.
-/
def updating : Visitor (Stateful σ) Unit where
  handler? kind :=
    if handled.contains kind then
      some (fun node visits => do
        modify (update kind node)
        visits.children.forM id)
    else
      none

/-- A handler is asked about the node, its own or, for a program, the one for blocks. -/
def Covers (node : Node) : Prop :=
  node.kind ∈ handled ∨ node.kind = .prog ∧ .block ∈ handled

instance : DecidablePred (Covers handled) := fun node =>
  inferInstanceAs (Decidable (node.kind ∈ handled ∨ node.kind = .prog ∧ .block ∈ handled))

/-- The kind whose handler runs on a node that is covered. -/
def handlerKind (node : Node) : Kind := if node.kind ∈ handled then node.kind else .block

/-- The kind that is reported of a node that is not covered. -/
def reportedKind (node : Node) : Kind := if node.kind = .prog then .block else node.kind

/-- The state after the handlers ran on the nodes. -/
def updated (nodes : List Node) (state : σ) : σ :=
  nodes.foldl (fun state node => update (handlerKind handled node) node state) state

/-- How going through the nodes ends, up to the first one that is not covered. -/
def ending : List Node → σ → Except UnsupportedKind Unit × σ
  | [], state => (.ok (), state)
  | node :: rest, state =>
      if Covers handled node then
        ending rest (update (handlerKind handled node) node state)
      else
        (.error ⟨reportedKind node⟩, state)

/-- What a visit does next, which is nothing once it has failed. -/
def resume (next : σ → Except UnsupportedKind Unit × σ) :
    Except UnsupportedKind Unit × σ → Except UnsupportedKind Unit × σ
  | (.ok (), state) => next state
  | (.error error, state) => (.error error, state)

theorem ending_append (first second : List Node) (state : σ) :
    ending handled update (first ++ second) state =
      resume (ending handled update second) (ending handled update first state) := by
  induction first generalizing state with
  | nil => rfl
  | cons node rest ih =>
      simp only [List.cons_append, ending]
      split
      · exact ih _
      · rfl

/-- All nodes are covered, or the first one that is not ends the visit. -/
theorem ending_cases (nodes : List Node) (state : σ) :
    ((∀ node ∈ nodes, Covers handled node) ∧
        ending handled update nodes state = (.ok (), updated handled update nodes state)) ∨
      ∃ before node after, nodes = before ++ node :: after ∧
        (∀ earlier ∈ before, Covers handled earlier) ∧ ¬Covers handled node ∧
        ending handled update nodes state =
          (.error ⟨reportedKind node⟩, updated handled update before state) := by
  induction nodes generalizing state with
  | nil => exact .inl ⟨nofun, rfl⟩
  | cons node rest ih =>
      by_cases covered : Covers handled node
      · simp only [ending, if_pos covered]
        rcases ih (update (handlerKind handled node) node state) with ⟨all, ends⟩ | stopped
        · exact .inl ⟨List.forall_mem_cons.mpr ⟨covered, all⟩, ends⟩
        · obtain ⟨before, stop, after, rfl, earlier, uncovered, ends⟩ := stopped
          exact .inr ⟨node :: before, stop, after, rfl,
            List.forall_mem_cons.mpr ⟨covered, earlier⟩, uncovered, ends⟩
      · simp only [ending, if_neg covered]
        exact .inr ⟨[], node, rest, rfl, nofun, covered, rfl⟩

/-! ### Visits of trees -/

theorem accept_eq {m : Type → Type} {β : Type} [MonadExceptOf UnsupportedKind m]
    (visitor : Visitor m β) (node : Node) :
    visitor.accept node =
      match visitor.handler? (visitor.target node.kind) with
      | some handler => handler node (node.form.map visitor.accept)
      | none => throw (.mk (visitor.target node.kind)) := by
  rw [accept]
  exact Node.fold_eq _ node

theorem target_updating (kind : Kind) :
    (updating handled update).target kind =
      if kind = .prog ∧ .prog ∉ handled then .block else kind := by
  by_cases program : Kind.prog ∈ handled <;> simp [target, updating, program]

variable {handled} in
theorem target_of_covers {node : Node} (covered : Covers handled node) :
    (updating handled update).target node.kind = handlerKind handled node ∧
      handlerKind handled node ∈ handled := by
  rw [target_updating, handlerKind]
  by_cases own : node.kind ∈ handled
  · have asked : ¬(node.kind = .prog ∧ .prog ∉ handled) := fun ⟨program, lacking⟩ =>
      lacking (program ▸ own)
    rw [if_neg asked, if_pos own]
    exact ⟨rfl, own⟩
  · obtain ⟨program, lent⟩ := covered.resolve_left own
    rw [if_pos ⟨program, program ▸ own⟩, if_neg own]
    exact ⟨rfl, lent⟩

variable {handled} in
theorem target_of_not_covers {node : Node} (uncovered : ¬Covers handled node) :
    (updating handled update).target node.kind = reportedKind node ∧
      reportedKind node ∉ handled := by
  obtain ⟨foreign, unlent⟩ := not_or.mp uncovered
  rw [target_updating, reportedKind]
  by_cases program : node.kind = .prog
  · rw [if_pos ⟨program, program ▸ foreign⟩, if_pos program]
    exact ⟨rfl, fun lent => unlent ⟨program, lent⟩⟩
  · rw [if_neg (fun asked => program asked.1), if_neg program]
    exact ⟨rfl, foreign⟩

/-- A node that is covered is handled and its children are visited; another one is reported. -/
theorem accept_run (node : Node) (state : σ) :
    ((updating handled update).accept node).run.run state =
      if Covers handled node then
        ((node.children.map (updating handled update).accept).forM id).run.run
          (update (handlerKind handled node) node state)
      else
        (.error ⟨reportedKind node⟩, state) := by
  rw [accept_eq]
  by_cases covered : Covers handled node
  · obtain ⟨asked, present⟩ := target_of_covers update covered
    have found : handled.contains (handlerKind handled node) = true :=
      List.contains_iff_mem.mpr present
    rw [if_pos covered, asked, Node.children, ← Form.children_map]
    simp only [updating, found, if_true]
    rfl
  · obtain ⟨asked, lacking⟩ := target_of_not_covers update covered
    have missing : handled.contains (reportedKind node) = false := by simpa using lacking
    rw [if_neg covered, asked]
    simp only [updating, missing, Bool.false_eq_true, if_false]
    rfl

/-- Visits one after another go through the walks one after another. -/
theorem forM_run {nodes : List Node}
    (visits : ∀ node ∈ nodes, ∀ state,
      ((updating handled update).accept node).run.run state =
        ending handled update node.walk state) (state : σ) :
    ((nodes.map (updating handled update).accept).forM id).run.run state =
      ending handled update (nodes.flatMap Node.walk) state := by
  induction nodes generalizing state with
  | nil => rfl
  | cons node rest ih =>
      obtain ⟨first, others⟩ := List.forall_mem_cons.mp visits
      rw [List.flatMap_cons, ending_append, ← first]
      have next : ending handled update (rest.flatMap Node.walk) = fun state =>
          ((rest.map (updating handled update).accept).forM id).run.run state :=
        funext fun state => (ih others state).symm
      rw [next]
      simp only [List.map_cons, List.forM, ExceptT.run_bind, StateT.run_bind, id]
      cases ended : ((updating handled update).accept node).run.run state with
      | mk result state =>
      cases result <;> rfl

/-- A visit goes through the walk, up to the first node that is not covered. -/
theorem accept_eq_ending (node : Node) (state : σ) :
    ((updating handled update).accept node).run.run state =
      ending handled update node.walk state := by
  induction node using Node.induction generalizing state with
  | step node ih =>
      rw [accept_run, Node.walk_eq, ending]
      split
      · exact forM_run handled update ih _
      · rfl

/--
Whatever its handlers do to their state, a visit succeeds if and only if the walk meets covered
nodes only, and its handlers have then run on all of them in the order of the walk. Otherwise it
fails with the kind of the first node that is not covered, or blocks if that is a program, and its
handlers have run on just the nodes before that one, in the order of the walk.
-/
theorem accept_reports_first_uncovered (node : Node) (state : σ) :
    let visit := ((updating handled update).accept node).run.run state
    (visit.1 = .ok () ↔ ∀ inner ∈ node.walk, Covers handled inner) ∧
      (visit = (.ok (), updated handled update node.walk state) ∨
        ∃ before inner after, node.walk = before ++ inner :: after ∧
          (∀ earlier ∈ before, Covers handled earlier) ∧ ¬Covers handled inner ∧
          visit = (.error ⟨reportedKind inner⟩, updated handled update before state)) := by
  intro visit
  have visited : visit = ending handled update node.walk state :=
    accept_eq_ending handled update node state
  rw [visited]
  rcases ending_cases handled update node.walk state with ⟨all, ends⟩ | stopped
  · rw [ends]
    exact ⟨iff_of_true rfl all, .inl rfl⟩
  · obtain ⟨before, inner, after, walked, earlier, uncovered, ends⟩ := stopped
    have some_uncovered : ¬∀ inner ∈ node.walk, Covers handled inner := fun all =>
      uncovered (all inner (by simp [walked]))
    rw [ends]
    exact ⟨iff_of_false nofun some_uncovered,
      .inr ⟨before, inner, after, walked, earlier, uncovered, rfl⟩⟩

/-! ### Traces -/

/-- The trace of a visit is a state that its handlers update. -/
theorem tracing_eq_updating :
    tracing handled = updating handled (fun kind node calls => calls ++ [(kind, node.kind)]) :=
  rfl

theorem updated_calls (nodes : List Node) (calls : List (Kind × Kind)) :
    updated handled (fun kind node calls => calls ++ [(kind, node.kind)]) nodes calls =
      calls ++ nodes.map (fun node => (handlerKind handled node, node.kind)) := by
  induction nodes generalizing calls with
  | nil => simp [updated]
  | cons node rest ih =>
      have further := ih (calls ++ [(handlerKind handled node, node.kind)])
      rw [List.append_assoc] at further
      exact further

/-- The calls in a trace are made on the nodes of the walk, up to the first one not covered. -/
theorem trace_cases (node : Node) :
    let calls (nodes : List Node) := nodes.map (fun inner => (handlerKind handled inner, inner.kind))
    ((∀ inner ∈ node.walk, Covers handled inner) ∧ trace handled node = (calls node.walk, .ok ())) ∨
      ∃ before inner after, node.walk = before ++ inner :: after ∧
        (∀ earlier ∈ before, Covers handled earlier) ∧ ¬Covers handled inner ∧
        trace handled node = (calls before, .error ⟨reportedKind inner⟩) := by
  intro calls
  have traced : trace handled node = (ending handled
      (fun kind node calls => calls ++ [(kind, node.kind)]) node.walk []).swap := by
    rw [← accept_eq_ending, ← tracing_eq_updating]
    rfl
  rw [traced]
  rcases ending_cases handled _ node.walk [] with ⟨all, ends⟩ | stopped
  · rw [ends, updated_calls]
    exact .inl ⟨all, rfl⟩
  · obtain ⟨before, inner, after, walked, earlier, uncovered, ends⟩ := stopped
    rw [ends, updated_calls]
    exact .inr ⟨before, inner, after, walked, earlier, uncovered, rfl⟩

/-- A program is handled as a block, and the value within it is reported. -/
example : trace [.block] (.prog [.sentinel] []) = ([(.block, .prog)], .error ⟨.value⟩) := rfl

end SyntaxTree.Visitor
