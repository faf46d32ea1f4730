import SyntaxTree.Proofs.FormMaps

/-!
# Numbered children

The children of a form can be numbered in their places, one after another. The numbering is that of
the outline, the form without its children, so a form is its outline with the listed children put
where their numbers are: every place of a form is in the list of its children exactly once.
-/

namespace SyntaxTree

variable {α : Type}

/-- Gives a child the next number. -/
def number (child : α) : StateM Nat (α × Nat) := fun next => ((child, next), next + 1)

theorem pure_apply {β : Type} (value : β) (next : Nat) :
    (pure value : StateM Nat β) next = (value, next) := rfl

theorem number_list (elements : List α) (start : Nat) :
    elements.mapM number start = (elements.zipIdx start, start + elements.length) := by
  induction elements generalizing start with
  | nil => rfl
  | cons element rest ih =>
      simp only [List.mapM_cons, bind, StateT.bind, pure_apply, number, ih,
        List.zipIdx_cons, List.length_cons, Nat.add_assoc, Nat.add_comm 1]

theorem number_clause (clause : Option α) (start : Nat) :
    clause.mapM number start = (clause.map (·, start), start + clause.toList.length) := by
  cases clause <;> rfl

theorem toList_numbered (clause : Option α) (start : Nat) :
    (clause.map (·, start)).toList = clause.toList.zipIdx start := by
  cases clause <;> rfl

theorem number_pairs (pairs : List (α × α)) (start : Nat) :
    let children := pairs.flatMap (fun pair => [pair.1, pair.2])
    ∃ numbered, pairs.mapM (pairMapM number) start = (numbered, start + children.length) ∧
      numbered.map (fun pair => (pair.1.1, pair.2.1)) = pairs ∧
      numbered.flatMap (fun pair => [pair.1, pair.2]) = children.zipIdx start := by
  induction pairs generalizing start with
  | nil => exact ⟨[], rfl, rfl, rfl⟩
  | cons pair rest ih =>
      obtain ⟨others, run, whole, listed⟩ := ih (start + 2)
      refine ⟨((pair.1, start), (pair.2, start + 1)) :: others, ?_, ?_, ?_⟩
      · simp only [List.mapM_cons, bind, StateT.bind, pure_apply, pairMapM, number, run]
        refine Prod.ext rfl ?_
        simp only [List.flatMap_cons, List.length_append, List.length_cons, List.length_nil]
        omega
      · simp only [List.map_cons, whole]
      · simp only [List.flatMap_cons, listed, List.zipIdx_append, List.zipIdx_cons,
          List.zipIdx_nil, List.length_cons, List.length_nil]

theorem number_case (arm : SwitchCase α) (start : Nat) :
    ∃ numbered, arm.mapM number start = (numbered, start + arm.children.length) ∧
      numbered.map Prod.fst = arm ∧ numbered.children = arm.children.zipIdx start := by
  obtain ⟨token, operator, comparand, body, next⟩ := arm
  cases comparand <;> exact ⟨_, rfl, rfl, rfl⟩

theorem number_cases (cases : List (SwitchCase α)) (start : Nat) :
    let children := cases.flatMap SwitchCase.children
    ∃ numbered, cases.mapM (SwitchCase.mapM number) start = (numbered, start + children.length) ∧
      numbered.map (SwitchCase.map Prod.fst) = cases ∧
      numbered.flatMap SwitchCase.children = children.zipIdx start := by
  induction cases generalizing start with
  | nil => exact ⟨[], rfl, rfl, rfl⟩
  | cons arm rest ih =>
      obtain ⟨first, firstRun, firstWhole, firstListed⟩ := number_case arm start
      obtain ⟨others, run, whole, listed⟩ := ih (start + arm.children.length)
      refine ⟨first :: others, ?_, ?_, ?_⟩
      · simp only [List.mapM_cons, bind, StateT.bind, pure_apply, firstRun, run,
          List.flatMap_cons, List.length_append, Nat.add_assoc]
      · simp only [List.map_cons, firstWhole, whole]
      · simp only [List.flatMap_cons, firstListed, listed, List.zipIdx_append]

namespace Form

/-- Numbering goes through the places of a form in the order of the list of its children. -/
theorem number_children (form : Form α) (start : Nat) :
    ∃ numbered, form.mapM number start = (numbered, start + form.children.length) ∧
      numbered.map Prod.fst = form ∧ numbered.children = form.children.zipIdx start := by
  cases form with
  | switch choice =>
      obtain ⟨scrutinee, cases, fallback, consequent, otherwise⟩ := choice
      obtain ⟨numbered, run, whole, listed⟩ := number_cases cases (start + 1)
      simp only [mapM, bind, StateT.bind, pure_apply, number, run, number_clause]
      refine ⟨_, Prod.ext rfl ?_, ?_, ?_⟩
      · simp only [children, List.length_cons, List.length_append]
        omega
      · simp [map, whole, Function.comp_def]
      · simp [children, toList_numbered, listed, List.zipIdx_append, Nat.add_assoc]
  | object pairs =>
      obtain ⟨numbered, run, whole, listed⟩ := number_pairs pairs start
      simp only [mapM, bind, StateT.bind, pure_apply, run]
      exact ⟨_, rfl, congrArg object whole, listed⟩
  | _ =>
      simp only [mapM, bind, StateT.bind, pure_apply, number, number_list, number_clause]
      refine ⟨_, Prod.ext rfl ?_, ?_, ?_⟩
      · simp only [children, List.length_cons, List.length_append, List.length_nil] <;> omega
      · simp [map, Function.comp_def]
      · simp [children, toList_numbered, List.zipIdx_append, Nat.add_assoc]

/-- The form without its children: its kind, and the names, options and lengths of its own. -/
def outline (form : Form α) : Form Unit := form.map (fun _ => ())

@[simp] theorem outline_map {β : Type} (f : α → β) (form : Form α) :
    (form.map f).outline = form.outline := map_map f _ form

theorem length_children_outline (form : Form α) :
    form.outline.children.length = form.children.length := by
  rw [outline, children_map, List.length_map]

/-- The outline with the numbers of its places in them. -/
def numbering (outline : Form Unit) : Form Nat := (outline.mapM number 0).1.map Prod.snd

theorem children_numbering (outline : Form Unit) :
    outline.numbering.children = List.range outline.children.length := by
  obtain ⟨numbered, run, -, listed⟩ := outline.number_children 0
  rw [numbering, run, children_map, listed, List.zipIdx_map_snd, List.range_eq_range']

theorem outline_numbering (outline : Form Unit) : outline.numbering.outline = outline := by
  obtain ⟨numbered, run, whole, -⟩ := outline.number_children 0
  have erased : numbered.outline = outline.outline := by
    rw [← whole, outline_map]
  rw [numbering, run, outline_map, erased]
  exact map_id outline

/-- A form is made of its outline, with each listed child in the place of its number. -/
theorem numbering_outline_map (form : Form α) :
    form.outline.numbering.map (form.children[·]?) = form.map some := by
  obtain ⟨numbered, run, whole, listed⟩ := form.number_children 0
  have numbers : form.outline.numbering = numbered.map Prod.snd := by
    have unlabelled : form.outline.mapM number =
        (map (fun entry => ((), entry.2)) ·) <$> form.mapM number := by
      rw [outline, mapM_map, ← mapM_mapped]
      rfl
    have runs : (form.outline.mapM number 0).1 = numbered.map (fun entry => ((), entry.2)) := by
      rw [unlabelled]
      exact congrArg (fun outcome => outcome.1.map (fun entry => ((), entry.2))) run
    rw [numbering, runs, map_map]
  have found : ∀ entry ∈ numbered.children, form.children[entry.2]? = some entry.1 := by
    intro entry member
    rw [listed] at member
    exact List.mem_zipIdx_iff_getElem?.mp member
  calc form.outline.numbering.map (form.children[·]?)
      = numbered.map (fun entry => form.children[entry.2]?) := by rw [numbers, map_map]
    _ = numbered.map (fun entry => some entry.1) := map_congr found
    _ = form.map some := by rw [← map_map Prod.fst, whole]

/-- Every list of as many children as there are places is that of one form only. -/
theorem exists_unique_form [Nonempty α] (outline : Form Unit) (children : List α)
    (count : children.length = outline.children.length) :
    ∃ form : Form α, (form.outline = outline ∧ form.children = children) ∧
      ∀ other : Form α, other.outline = outline → other.children = children → other = form := by
  obtain ⟨spare⟩ := ‹Nonempty α›
  refine ⟨outline.numbering.map (fun place => children.getD place spare), ⟨?_, ?_⟩, ?_⟩
  · rw [outline_map, outline_numbering]
  · rw [children_map, children_numbering, ← count]
    apply List.ext_getElem
    · simp
    · intro place within bound
      simp [bound]
  · intro other same listed
    have images := numbering_outline_map other
    rw [same, listed] at images
    have unwrapped := congrArg (map (fun child => child.getD spare)) images
    rw [map_map, map_map] at unwrapped
    have whole : other.map (fun child => (some child).getD spare) = other := map_id other
    rw [whole] at unwrapped
    simp only [List.getD_eq_getElem?_getD]
    exact unwrapped.symm

end Form

end SyntaxTree
