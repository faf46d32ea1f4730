import SyntaxTree.NodeEquality
import SyntaxTree.Proofs.Erasure

/-!
# Equality of trees is equality after erasing

The comparison of forms asks one question for each place of a child. Comparing by the equality of
the children leaves only tokens and payloads out of sight, and so does the comparison of whole
trees: two trees are equal exactly when erasing makes them identical.
-/

namespace SyntaxTree

variable {α β γ δ : Type}

section Questions

variable (f : α → γ) (g : β → δ) (same : γ → δ → Bool)

theorem pairwiseSame_map (firsts : List α) (seconds : List β) :
    pairwiseSame same (firsts.map f) (seconds.map g) =
      pairwiseSame (fun first second => same (f first) (g second)) firsts seconds := by
  induction firsts generalizing seconds with
  | nil => cases seconds <;> rfl
  | cons first firsts ih =>
      cases seconds with
      | nil => rfl
      | cons second seconds => simp only [List.map_cons, pairwiseSame, ih]

theorem clauseSame_map (first : Option α) (second : Option β) :
    clauseSame same (first.map f) (second.map g) =
      clauseSame (fun first second => same (f first) (g second)) first second := by
  cases first <;> cases second <;> rfl

theorem SwitchCase.sameWith_map (first : SwitchCase α) (second : SwitchCase β) :
    (first.map f).sameWith same (second.map g) =
      first.sameWith (fun one other => same (f one) (g other)) second := by
  simp only [sameWith, map, clauseSame_map]

theorem Form.sameWith_map (first : Form α) (second : Form β) :
    (first.map f).sameWith same (second.map g) =
      first.sameWith (fun one other => same (f one) (g other)) second := by
  have cases_map (firsts : List (SwitchCase α)) (seconds : List (SwitchCase β)) :
      pairwiseSame (SwitchCase.sameWith same) (firsts.map (·.map f)) (seconds.map (·.map g)) =
        pairwiseSame (SwitchCase.sameWith (fun one other => same (f one) (g other)))
          firsts seconds := by
    rw [pairwiseSame_map]
    exact congrArg (pairwiseSame · firsts seconds)
      (funext (fun first => funext (SwitchCase.sameWith_map f g same first)))
  have pairs_map (firsts : List (α × α)) (seconds : List (β × β)) :=
    pairwiseSame_map (fun pair : α × α => (f pair.1, f pair.2))
      (fun pair : β × β => (g pair.1, g pair.2))
      (fun one other => same one.1 other.1 && same one.2 other.2) firsts seconds
  cases first <;> cases second <;>
    first
    | rfl
    | simp only [map, sameWith, pairwiseSame_map, clauseSame_map, cases_map, pairs_map]

end Questions

theorem Form.kind_eq_of_sameWith {same : α → β → Bool} {first : Form α} {second : Form β}
    (related : first.sameWith same second = true) : first.kind = second.kind := by
  cases first <;> cases second <;> first | rfl | cases related

attribute [ext] Assignment Call Indexing Loop Conditional Operation Prototype Switch Block
  FunctionLiteral Iteration

section Equality

variable [DecidableEq α]

theorem pairwiseSame_iff_eq {firsts seconds : List α} :
    pairwiseSame (fun first second => decide (first = second)) firsts seconds = true ↔
      firsts = seconds := by
  induction firsts generalizing seconds with
  | nil => cases seconds <;> simp [pairwiseSame]
  | cons first firsts ih => cases seconds <;> simp [pairwiseSame, ih]

theorem clauseSame_iff_eq {first second : Option α} :
    clauseSame (fun first second => decide (first = second)) first second = true ↔
      first = second := by
  cases first <;> cases second <;> simp [clauseSame]

theorem SwitchCase.sameWith_iff_plain_eq {first second : SwitchCase α} :
    first.sameWith (fun one other => decide (one = other)) second = true ↔
      first.plain = second.plain := by
  simp [sameWith, plain, clauseSame_iff_eq, and_assoc]

theorem casesSame_iff_plain_eq {firsts seconds : List (SwitchCase α)} :
    pairwiseSame (SwitchCase.sameWith (fun one other => decide (one = other)))
        firsts seconds = true ↔
      firsts.map SwitchCase.plain = seconds.map SwitchCase.plain := by
  induction firsts generalizing seconds with
  | nil => cases seconds <;> simp [pairwiseSame]
  | cons first firsts ih =>
      cases seconds with
      | nil => simp [pairwiseSame]
      | cons second seconds =>
          simp only [pairwiseSame, Bool.and_eq_true, SwitchCase.sameWith_iff_plain_eq, ih,
            List.map_cons, List.cons.injEq]

theorem pairsSame_iff_eq {firsts seconds : List (α × α)} :
    pairwiseSame (fun one other => decide (one.1 = other.1) && decide (one.2 = other.2))
        firsts seconds = true ↔
      firsts = seconds := by
  rw [← pairwiseSame_iff_eq]
  simp [Prod.ext_iff]

/-- Forms over equal children are the same when they are equal but for tokens and payloads. -/
theorem Form.sameWith_iff_plain_eq {first second : Form α} :
    first.sameWith (fun one other => decide (one = other)) second = true ↔
      first.plain = second.plain := by
  by_cases kinds : first.kind = second.kind
  · cases first <;> cases second <;> cases kinds
    all_goals
      simp only [sameWith, plain, Bool.and_eq_true, beq_iff_eq, decide_eq_true_eq,
        pairwiseSame_iff_eq, clauseSame_iff_eq, casesSame_iff_plain_eq, pairsSame_iff_eq,
        Literal.same_iff_plain_eq]
      simp [Assignment.ext_iff, Call.ext_iff, Indexing.ext_iff, Loop.ext_iff,
        Conditional.ext_iff, Operation.ext_iff, Prototype.ext_iff, Block.ext_iff,
        FunctionLiteral.ext_iff, Iteration.ext_iff, and_assoc]
  · refine iff_of_false (fun related => kinds (kind_eq_of_sameWith related))
      (fun equal => kinds ?_)
    simpa [kind_plain] using congrArg kind equal

end Equality

namespace Node

theorem same_eq (first second : Node) :
    first.same second =
      (first.isLValue == second.isLValue && first.isRValue == second.isRValue &&
        first.form.sameWith same second.form) := by
  have questions := Form.sameWith_map same (fun child => child)
    (fun question child => question child) first.form second.form
  rw [Form.map_id] at questions
  rw [same, fold_eq]
  exact congrArg _ questions

theorem same_iff_erased_eq {first second : Node} :
    first.same second = true ↔ first.erased = second.erased := by
  classical
  induction first using induction generalizing second with
  | step first ih =>
      have asked : first.form.map same =
          first.form.map (fun child other => decide (child.erased = other.erased)) := by
        refine Form.map_congr (fun child member => funext (fun other => ?_))
        rw [Bool.eq_iff_iff, ih child member, decide_eq_true_eq]
      have forms : first.form.sameWith same second.form = true ↔
          first.erased.form = second.erased.form := by
        rw [form_erased, form_erased, ← Form.sameWith_iff_plain_eq, Form.sameWith_map]
        have questions (ask : Node → Node → Bool) :=
          Form.sameWith_map ask (fun child => child) (fun question child => question child)
            first.form second.form
        simp only [Form.map_id] at questions
        rw [← questions, asked, questions]
      rw [same_eq, Bool.and_eq_true, Bool.and_eq_true, forms, beq_iff_eq, beq_iff_eq,
        erased_eq first, erased_eq second]
      simp [Node.form, and_assoc]

theorem beq_iff_erased_eq {first second : Node} :
    (first == second) = true ↔ first.erased = second.erased := same_iff_erased_eq

end Node

end SyntaxTree
