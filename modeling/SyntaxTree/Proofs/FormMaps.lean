import SyntaxTree.NodeWalk

/-!
# Maps of forms

A map of a form depends only on the images of its children, and maps compose. A map with effects
runs them on the children in the order of the fields. Trees inherit an induction principle: what
holds of a node as soon as it holds of its children holds of every tree.
-/

namespace SyntaxTree

variable {α β γ : Type}

theorem SwitchCase.map_congr {f g : α → β} {arm : SwitchCase α}
    (agree : ∀ child ∈ arm.children, f child = g child) : arm.map f = arm.map g := by
  obtain ⟨token, operator, comparand, body, next⟩ := arm
  cases comparand <;> simp_all [map, children]

namespace Form

section Congruence

variable {f g : α → β}

theorem map_clause_congr (clause : Option α)
    (agree : ∀ child ∈ clause.toList, f child = g child) : clause.map f = clause.map g := by
  cases clause <;> simp_all

theorem map_cases_congr (cases : List (SwitchCase α))
    (agree : ∀ child ∈ cases.flatMap SwitchCase.children, f child = g child) :
    cases.map (·.map f) = cases.map (·.map g) := by
  refine List.map_congr_left (fun arm member => SwitchCase.map_congr (fun child inside => ?_))
  exact agree child (List.mem_flatMap.mpr ⟨arm, member, inside⟩)

theorem map_pairs_congr (pairs : List (α × α))
    (agree : ∀ child ∈ pairs.flatMap (fun pair => [pair.1, pair.2]), f child = g child) :
    pairs.map (fun pair => (f pair.1, f pair.2)) =
      pairs.map (fun pair => (g pair.1, g pair.2)) := by
  refine List.map_congr_left (fun pair member => ?_)
  rw [agree pair.1 (List.mem_flatMap.mpr ⟨pair, member, by simp⟩),
    agree pair.2 (List.mem_flatMap.mpr ⟨pair, member, by simp⟩)]

theorem map_congr {form : Form α} (agree : ∀ child ∈ form.children, f child = g child) :
    form.map f = form.map g := by
  have list_congr (elements : List α) (agree : ∀ child ∈ elements, f child = g child) :
      elements.map f = elements.map g := List.map_congr_left agree
  have clause_congr := map_clause_congr (f := f) (g := g)
  have cases_congr := map_cases_congr (f := f) (g := g)
  have pairs_congr := map_pairs_congr (f := f) (g := g)
  cases form <;>
    simp only [children, List.forall_mem_append, List.forall_mem_cons] at agree <;>
    simp only [map] <;>
    grind

end Congruence

theorem map_map (f : α → β) (g : β → γ) (form : Form α) :
    (form.map f).map g = form.map (fun child => g (f child)) := by
  cases form <;> simp [map, SwitchCase.map, Function.comp_def]

theorem map_id (form : Form α) : form.map (fun child => child) = form := by
  cases form <;> simp [map, SwitchCase.map]

/-- Where the images of children under one map tell those under another, so do the whole forms. -/
theorem map_eq_map_of_imp [Nonempty γ] {f : α → β} {g : α → γ} {first second : Form α}
    (agree : ∀ one ∈ first.children, ∀ other ∈ second.children, f one = f other → g one = g other)
    (same : first.map f = second.map f) : first.map g = second.map g := by
  classical
  have images : first.children.map f = second.children.map f := by
    rw [← children_map, same, children_map]
  have counterpart {child : α} (member : child ∈ first.children) :
      ∃ other ∈ second.children, f other = f child :=
    List.mem_map.mp (images ▸ List.mem_map_of_mem member)
  have origin {child : α} (member : child ∈ second.children) :
      ∃ one ∈ first.children, f one = f child :=
    List.mem_map.mp (images ▸ List.mem_map_of_mem member)
  -- The second map factors through the first one on the children.
  let image (value : β) : γ :=
    if found : ∃ one ∈ first.children, f one = value then g found.choose
    else Classical.choice inferInstance
  have image_first : ∀ child ∈ first.children, g child = image (f child) := by
    intro child member
    obtain ⟨other, within, equal⟩ := counterpart member
    have found : ∃ one ∈ first.children, f one = f child := ⟨child, member, rfl⟩
    simp only [image, dif_pos found]
    rw [agree child member other within equal.symm,
      agree _ found.choose_spec.1 other within (found.choose_spec.2.trans equal.symm)]
  have image_second : ∀ child ∈ second.children, g child = image (f child) := by
    intro child member
    have found := origin member
    simp only [image, dif_pos found]
    exact (agree _ found.choose_spec.1 child member found.choose_spec.2).symm
  calc first.map g = (first.map f).map image := by rw [map_map, map_congr image_first]
    _ = (second.map f).map image := by rw [same]
    _ = second.map g := by rw [map_map, map_congr image_second]

end Form

/-! ### Maps with effects -/

section Effects

variable {m : Type → Type} [Monad m]

/-- Both components of a pair, the first one first. -/
def pairMapM (f : α → m β) (pair : α × α) : m (β × β) := return (← f pair.1, ← f pair.2)

def SwitchCase.mapM (f : α → m β) (arm : SwitchCase α) : m (SwitchCase β) :=
  return ⟨arm.token, arm.operator, ← arm.comparand.mapM f, ← f arm.body, arm.next⟩

/-- Puts what an effect yields for the children in their places, one after another. -/
def Form.mapM (f : α → m β) : Form α → m (Form β)
  | .value literal => return .value literal
  | .var reference => return .var reference
  | .spread inner => return .spread (← f inner)
  | .assign ⟨target, source, operator⟩ => return .assign ⟨← f target, ← f source, operator⟩
  | .tuple elements => return .tuple (← elements.mapM f)
  | .call ⟨function, arguments⟩ => return .call ⟨← f function, ← arguments.mapM f⟩
  | .index ⟨container, keys⟩ => return .index ⟨← f container, ← keys.mapM f⟩
  | .loop ⟨body, otherwise⟩ => return .loop ⟨← f body, ← otherwise.mapM f⟩
  | .cond ⟨condition, consequent, otherwise⟩ =>
      return .cond ⟨← condition.mapM f, ← consequent.mapM f, ← otherwise.mapM f⟩
  | .branch jump => return .branch jump
  | .op ⟨tag, operands⟩ => return .op ⟨tag, ← operands.mapM f⟩
  | .imports name => return .imports name
  | .proto ⟨name, parent, publics, privates, statics⟩ =>
      return .proto ⟨name, ← parent.mapM f, ← publics.mapM f, ← privates.mapM f,
        ← statics.mapM f⟩
  | .returns inner => return .returns (← f inner)
  | .switch ⟨scrutinee, cases, fallback, consequent, otherwise⟩ =>
      return .switch ⟨← f scrutinee, ← cases.mapM (SwitchCase.mapM f), ← fallback.mapM f,
        ← consequent.mapM f, ← otherwise.mapM f⟩
  | .block ⟨elements, declared⟩ => return .block ⟨← elements.mapM f, declared⟩
  | .prog ⟨elements, declared⟩ => return .prog ⟨← elements.mapM f, declared⟩
  | .func ⟨name, parameters, body⟩ => return .func ⟨name, ← parameters.mapM f, ← f body⟩
  | .format parts => return .format (← parts.mapM f)
  | .object pairs => return .object (← pairs.mapM (pairMapM f))
  | .forEach ⟨target, source, body, consequent, otherwise⟩ =>
      return .forEach ⟨← f target, ← f source, ← f body, ← consequent.mapM f,
        ← otherwise.mapM f⟩

theorem mapM_clause_map (f : α → β) (g : β → m γ) (clause : Option α) :
    (clause.map f).mapM g = clause.mapM (fun child => g (f child)) := by
  cases clause <;> rfl

theorem SwitchCase.mapM_map (f : α → β) (g : β → m γ) (arm : SwitchCase α) :
    (arm.map f).mapM g = arm.mapM (fun child => g (f child)) := by
  simp [mapM, map, mapM_clause_map]

variable [LawfulMonad m]

theorem Form.mapM_map (f : α → β) (g : β → m γ) (form : Form α) :
    (form.map f).mapM g = form.mapM (fun child => g (f child)) := by
  have cases_map (cases : List (SwitchCase α)) :
      (cases.map (·.map f)).mapM (SwitchCase.mapM g) =
        cases.mapM (SwitchCase.mapM (fun child => g (f child))) := by
    simp [Function.comp_def, SwitchCase.mapM_map]
  have pairs_map (pairs : List (α × α)) :
      (pairs.map (fun pair => (f pair.1, f pair.2))).mapM (pairMapM g) =
        pairs.mapM (pairMapM (fun child => g (f child))) :=
    List.mapM_map
  cases form <;>
    simp only [map, mapM, List.mapM_map, Function.comp_def, mapM_clause_map, cases_map, pairs_map]

theorem mapM_list_mapped (f : α → m β) (g : β → γ) (elements : List α) :
    elements.mapM (fun child => g <$> f child) = (List.map g ·) <$> elements.mapM f := by
  induction elements with
  | nil => simp
  | cons element rest ih => simp [ih]

theorem mapM_clause_mapped (f : α → m β) (g : β → γ) (clause : Option α) :
    clause.mapM (fun child => g <$> f child) = (Option.map g ·) <$> clause.mapM f := by
  cases clause <;> simp

theorem SwitchCase.mapM_mapped (f : α → m β) (g : β → γ) (arm : SwitchCase α) :
    arm.mapM (fun child => g <$> f child) = (SwitchCase.map g ·) <$> arm.mapM f := by
  simp [mapM, mapM_clause_mapped, map]

/-- A pure step after the effect on each child is a map of the whole. -/
theorem Form.mapM_mapped (f : α → m β) (g : β → γ) (form : Form α) :
    form.mapM (fun child => g <$> f child) = (Form.map g ·) <$> form.mapM f := by
  have cases_mapped (cases : List (SwitchCase α)) :
      cases.mapM (SwitchCase.mapM (fun child => g <$> f child)) =
        (List.map (SwitchCase.map g) ·) <$> cases.mapM (SwitchCase.mapM f) := by
    rw [← mapM_list_mapped]
    exact congrArg (cases.mapM ·) (funext (SwitchCase.mapM_mapped f g))
  have pairs_mapped (pairs : List (α × α)) :
      pairs.mapM (pairMapM (fun child => g <$> f child)) =
        (List.map (fun pair => (g pair.1, g pair.2)) ·) <$> pairs.mapM (pairMapM f) := by
    rw [← mapM_list_mapped]
    exact congrArg (pairs.mapM ·) (funext (fun pair => by simp [pairMapM]))
  cases form <;>
    simp [mapM, map, mapM_list_mapped, mapM_clause_mapped, cases_mapped, pairs_mapped]

theorem Form.mapM_congr {f g : α → m β}
    {form : Form α} (agree : ∀ child ∈ form.children, f child = g child) :
    form.mapM f = form.mapM g := by
  have mapped := congrArg (Form.mapM (fun outcome => outcome)) (map_congr agree)
  rwa [mapM_map, mapM_map] at mapped

/-- Effects that all succeed give the map of what they give. -/
theorem Form.mapM_pure (f : α → β) (form : Form α) :
    form.mapM (fun child => (pure (f child) : m β)) = pure (form.map f) := by
  have clause_pure (clause : Option α) :
      clause.mapM (fun child => (pure (f child) : m β)) = pure (clause.map f) := by
    cases clause <;> simp
  have cases_pure (cases : List (SwitchCase α)) :
      cases.mapM (SwitchCase.mapM (fun child => (pure (f child) : m β))) =
        pure (cases.map (·.map f)) := by
    rw [← List.mapM_pure]
    refine congrArg (cases.mapM ·) (funext (fun arm => ?_))
    simp [SwitchCase.mapM, SwitchCase.map, clause_pure]
  have pairs_pure (pairs : List (α × α)) :
      pairs.mapM (pairMapM (fun child => (pure (f child) : m β))) =
        pure (pairs.map (fun pair => (f pair.1, f pair.2))) := by
    rw [← List.mapM_pure]
    exact congrArg (pairs.mapM ·) (funext (fun pair => by simp [pairMapM]))
  cases form <;> simp [mapM, map, clause_pure, cases_pure, pairs_pure]

end Effects

/-! ### Induction over trees -/

namespace Node

/-- The number of nodes on the longest path from the root down. -/
def height : Node → Nat := fold (fun _ heights => heights.children.foldr max 0 + 1)

theorem height_child_lt {node child : Node} (member : child ∈ node.children) :
    child.height < node.height := by
  have bound (heights : List Nat) (least : Nat) (member : least ∈ heights) :
      least ≤ heights.foldr max 0 := by
    induction heights with
    | nil => simp at member
    | cons first rest ih =>
        rcases List.mem_cons.mp member with equal | later
        · simp only [equal, List.foldr_cons]
          exact Nat.le_max_left ..
        · exact Nat.le_trans (ih later) (Nat.le_max_right ..)
  have height_eq : node.height = (node.children.map height).foldr max 0 + 1 := by
    rw [height, fold_eq, Form.children_map]
    rfl
  rw [height_eq]
  exact Nat.lt_succ_of_le (bound _ _ (List.mem_map_of_mem member))

/-- What holds of a node when it holds of its children holds of every tree. -/
theorem induction {motive : Node → Prop}
    (step : ∀ node, (∀ child ∈ node.children, motive child) → motive node) (node : Node) :
    motive node := by
  induction equal : node.height using Nat.strongRecOn generalizing node with
  | ind bound ih =>
      refine step node (fun child member => ih child.height ?_ child rfl)
      exact equal ▸ height_child_lt member

end Node

end SyntaxTree
