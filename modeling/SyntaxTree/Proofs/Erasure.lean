import SyntaxTree.NodeConstruction
import SyntaxTree.Proofs.FormMaps

/-!
# Erasing what equality does not see

Erasing a tree removes every token and the payload of every nan, and nothing else. It commutes
with building a node from a form, so trees that are equal after erasing can stand for each other
wherever nodes are built.
-/

namespace SyntaxTree

variable {α β γ : Type}

/-- The literal with the nan that has no payload for any other. -/
def Literal.plain : Literal → Literal
  | .real value => .real (if value.isNaN then Binary64.nan else value)
  | literal => literal

theorem Literal.same_iff_plain_eq {first second : Literal} :
    first.same second = true ↔ first.plain = second.plain := by
  cases first <;> cases second <;> simp [Literal.same, Literal.plain]
  rename_i first second
  have nan_isNaN : Binary64.nan.isNaN = true := by decide
  simp only [Binary64.same, Bool.or_eq_true, beq_iff_eq, Bool.and_eq_true]
  split <;> split <;> grind

theorem Literal.plain_plain (literal : Literal) : literal.plain.plain = literal.plain := by
  cases literal <;> simp only [plain]
  split <;> simp_all [show Binary64.nan.isNaN = true by decide]

namespace SwitchCase

def plain (arm : SwitchCase α) : SwitchCase α := { arm with token := none }

@[simp] theorem next_map (f : α → β) (arm : SwitchCase α) : (arm.map f).next = arm.next := rfl

@[simp] theorem next_plain (arm : SwitchCase α) : arm.plain.next = arm.next := rfl

@[simp] theorem children_plain (arm : SwitchCase α) : arm.plain.children = arm.children := rfl

end SwitchCase

/-- The form without the tokens of its cases and without the payload of a nan. -/
def Form.plain : Form α → Form α
  | .value literal => .value literal.plain
  | .switch choice => .switch { choice with cases := choice.cases.map SwitchCase.plain }
  | form => form

namespace Form

theorem plain_plain (form : Form α) : form.plain.plain = form.plain := by
  cases form <;> simp [plain, Literal.plain_plain, SwitchCase.plain]

theorem plain_map (f : α → β) (form : Form α) : (form.map f).plain = form.plain.map f := by
  cases form <;> simp [map, plain, SwitchCase.map, SwitchCase.plain]

theorem kind_plain (form : Form α) : form.plain.kind = form.kind := by
  cases form <;> rfl

theorem children_plain (form : Form α) : form.plain.children = form.children := by
  cases form with
  | switch choice => simp [plain, children, List.flatMap_map]
  | _ => rfl

theorem isLValue_map (f : α → β) (childIsLValue : β → Bool) (form : Form α) :
    (form.map f).isLValue childIsLValue = form.isLValue (fun child => childIsLValue (f child)) := by
  cases form <;> simp [map, isLValue, Function.comp_def]

theorem isRValue_map (f : α → β) (childIsRValue : β → Bool) (form : Form α) :
    (form.map f).isRValue childIsRValue = form.isRValue (fun child => childIsRValue (f child)) := by
  cases form <;> simp [map, isRValue, Function.comp_def]

theorem isLValue_plain (childIsLValue : α → Bool) (form : Form α) :
    form.plain.isLValue childIsLValue = form.isLValue childIsLValue := by
  cases form <;> rfl

theorem isRValue_plain (childIsRValue : α → Bool) (form : Form α) :
    form.plain.isRValue childIsRValue = form.isRValue childIsRValue := by
  cases form <;> rfl

theorem kept_map (f : α → β) (isSentinel : β → Bool) (clause : Option α) :
    dropSentinels.kept isSentinel (clause.map f) =
      (dropSentinels.kept (fun child => isSentinel (f child)) clause).map f := by
  cases clause with
  | none => rfl
  | some child =>
      cases sentinel : isSentinel (f child) <;> simp [dropSentinels.kept, Option.filter, sentinel]

theorem dropSentinels_map (f : α → β) (isSentinel : β → Bool) (form : Form α) :
    (form.map f).dropSentinels isSentinel =
      (form.dropSentinels (fun child => isSentinel (f child))).map f := by
  cases form <;> simp [map, dropSentinels, kept_map]

theorem dropSentinels_plain (isSentinel : α → Bool) (form : Form α) :
    form.plain.dropSentinels isSentinel = (form.dropSentinels isSentinel).plain := by
  cases form <;> rfl

theorem badLink?_map (f : α → β) (hasFallback : Bool) (count position : Nat)
    (cases : List (SwitchCase α)) :
    badLink? hasFallback count position (cases.map (·.map f)) =
      badLink? hasFallback count position cases := by
  induction cases generalizing position with
  | nil => rfl
  | cons arm rest ih => simp only [List.map_cons, badLink?, SwitchCase.next_map, ih]

theorem badLink?_plain (hasFallback : Bool) (count position : Nat)
    (cases : List (SwitchCase α)) :
    badLink? hasFallback count position (cases.map SwitchCase.plain) =
      badLink? hasFallback count position cases := by
  induction cases generalizing position with
  | nil => rfl
  | cons arm rest ih => simp only [List.map_cons, badLink?, SwitchCase.next_plain, ih]

theorem fault?_map (f : α → β) (form : Form α) : (form.map f).fault? = form.fault? := by
  cases form <;> simp [map, fault?, badLink?_map]

theorem fault?_plain (form : Form α) : form.plain.fault? = form.fault? := by
  cases form <;> simp [plain, fault?, badLink?_plain]

end Form

namespace Node

/-- The tree without tokens and without the payloads of its nans. -/
def erased : Node → Node :=
  fold (fun node form => .mk none node.isLValue node.isRValue form.plain)

theorem erased_eq (node : Node) :
    node.erased = .mk none node.isLValue node.isRValue (node.form.map erased).plain := by
  rw [erased, fold_eq]

@[simp] theorem isLValue_erased (node : Node) : node.erased.isLValue = node.isLValue := by
  rw [erased_eq]; rfl

@[simp] theorem isRValue_erased (node : Node) : node.erased.isRValue = node.isRValue := by
  rw [erased_eq]; rfl

theorem form_erased (node : Node) : node.erased.form = (node.form.map erased).plain := by
  rw [erased_eq]; rfl

@[simp] theorem isSentinel_erased (node : Node) : node.erased.isSentinel = node.isSentinel := by
  have plain_sentinel (literal : Literal) : literal.plain.isSentinel = literal.isSentinel := by
    cases literal <;> rfl
  rw [isSentinel, form_erased, isSentinel]
  cases node.form <;> simp [Form.map, Form.plain, plain_sentinel]

theorem erased_erased (node : Node) : node.erased.erased = node.erased := by
  induction node using Node.induction with
  | step node ih =>
      rw [erased_eq node.erased, form_erased, isLValue_erased, isRValue_erased, ← Form.plain_map,
        Form.plain_plain, Form.map_map, Form.map_congr ih, ← erased_eq]

theorem ofCheckedForm_erased (form : Form Node) :
    (ofCheckedForm form).erased = ofCheckedForm (form.map erased).plain := by
  rw [erased_eq]
  change mk none (form.isLValue isLValue) (form.isRValue isRValue) (form.map erased).plain = _
  rw [ofCheckedForm, Form.isLValue_plain, Form.isRValue_plain, Form.isLValue_map,
    Form.isRValue_map]
  simp only [isLValue_erased, isRValue_erased]

/-- Building a node from a form commutes with forgetting tokens and payloads. -/
theorem ofForm_erased (form : Form Node) :
    ofForm (form.map erased).plain = erased <$> ofForm form := by
  simp only [ofForm, Form.dropSentinels_plain, Form.dropSentinels_map, isSentinel_erased,
    Form.fault?_plain, Form.fault?_map]
  cases (form.dropSentinels isSentinel).fault? with
  | none => exact congrArg Except.ok (ofCheckedForm_erased _).symm
  | some cause => rfl

end Node
end SyntaxTree
