import SyntaxTree.Proofs.FormReading
import SyntaxTree.Proofs.Json.CutRecords
import SyntaxTree.Proofs.LiteralGrammar

/-!
# Forms that are cut

The data of a form that is cut ends too early for its reader. Nothing else is wrong with it, as long
as that holds of the children: neither a member that is not there yet nor the type of what is there
is asked for before the end is met.
-/

namespace SyntaxTree

open Json (Codec Numeral Reader)
open Json.Reader (Follows Stops Streams)

variable {α : Type} {bound : Nat}

/-! ### Literals -/

namespace Literal

/-- A number with fewer digits is a literal too. -/
theorem breaks_numeral {numeral : Numeral} (valued : numeral.value?.isSome = true) :
    read.Breaks bound [.numeral numeral] 0 := by
  intro levels fewer enough left cut
  cases cut with
  | before => rfl
  | within remnant =>
      cases remnant with
      | numeral => rfl
      | @shorter _ shorter shortened =>
          obtain ⟨json, value⟩ := Option.isSome_iff_exists.mp (shortened.valued valued)
          obtain ⟨literal, spells, -⟩ := ofJson_numeral_spelled shortened.unscaled value
          simp only [read, Bind.bind, Reader.any, Reader.anyUpTo, value, spells, Reader.ofExcept,
            pure]
          rfl
  | behind _ cut => cases cut

/-- The object is read as any value, so every lexeme of it that is missing is asked for. -/
theorem stops_realName (name : String) :
    read.Stops bound [.openBrace, .text (some "real"), .colon, .text (some name), .closeBrace]
      1 := by
  intro levels fewer enough left cut
  obtain ⟨levels, rfl⟩ := Nat.exists_eq_succ_of_ne_zero (Nat.ne_of_gt enough)
  cases cut with
  | before => rfl
  | within remnant => cases remnant
  | behind _ cut =>
      cases cut with
      | before => rfl
      | within remnant =>
          cases remnant
          rfl
      | behind _ cut =>
          cases cut with
          | before => rfl
          | within remnant => cases remnant
          | behind _ cut =>
              cases cut with
              | before => rfl
              | within remnant =>
                  cases remnant
                  rfl
              | behind _ cut =>
                  cases cut with
                  | before => rfl
                  | within remnant => cases remnant
                  | behind _ cut => cases cut

theorem breaks (literal : Literal) :
    read.Breaks bound literal.toJson.spelling literal.toJson.depth := by
  cases literal with
  | sentinel =>
      intro levels fewer enough left cut
      match left, cut with
      | _, .before _ _ => rfl
      | _, .within .null _ => rfl
  | bool value =>
      intro levels fewer enough left cut
      match left, cut with
      | _, .before _ _ => rfl
      | _, .within (.bool _) _ => rfl
  | text value => exact (Stops.ofText value (fun _ => rfl) (fun _ => rfl)).breaks
  | int value =>
      have least := value.le_toInt
      have below := value.toInt_lt
      exact breaks_numeral (Option.isSome_of_eq_some (Numeral.value?_ofInt least (by omega)))
  | real value =>
      cases finite : value.isFinite with
      | true =>
          simp only [toJson, finite, if_true]
          exact breaks_numeral
            (Option.isSome_of_eq_some (Numeral.value?_ofReal (by decide) finite))
      | false =>
          simp only [toJson, finite, Bool.false_eq_true, if_false]
          exact (stops_realName value.nonFiniteName).breaks

theorem follows (literal : Literal) : read.Follows bound literal.toJson :=
  ⟨⟨_, literal.reads⟩, literal.breaks⟩

end Literal

/-! ### Own data of forms -/

theorem Variable.follows (reference : Variable) :
    Variable.record.read.Follows bound (Variable.record.write reference) :=
  Variable.record.follows reference
    (.required (Streams.text reference.name) (.defaulting (Streams.bool reference.isMutable) .nil))
    Variable.names_nodup

theorem BranchKind.follows (kind : BranchKind) :
    BranchKind.codec.read.Follows bound (BranchKind.codec.write kind) :=
  ⟨⟨_, kind.reads⟩, (Stops.ofText kind.name (fun _ => rfl) (fun _ => rfl)).breaks⟩

theorem Branch.follows (jump : Branch) :
    Branch.record.read.Follows bound (Branch.record.write jump) :=
  Branch.record.follows jump
    (.required jump.kind.follows (.defaulting (Streams.int64 jump.level) .nil))
    Branch.names_nodup

/-! ### Forms -/

section Children

variable {child : Codec α}

theorem SwitchCase.follows (solid : ∀ value, child.write value ≠ .null) (arm : SwitchCase α)
    (follows : ∀ inner ∈ arm.children, child.read.Follows bound (child.write inner)) :
    (SwitchCase.record child).read.Follows bound ((SwitchCase.record child).write arm) := by
  obtain ⟨token, operator, comparand, body, next⟩ := arm
  simp only [children, List.forall_mem_append, Option.mem_toList,
    List.forall_mem_singleton] at follows
  exact (SwitchCase.record child).follows ⟨token, operator, comparand, body, next⟩
    (.required (Streams.text operator) (.optional follows.1 solid (.required follows.2
      (.optional (fun value _ => Streams.index value) (fun _ => Json.integer_ne_null _) .nil))))
    (SwitchCase.names_nodup child)

namespace Form

/-- The data of a form is followed where the children are. -/
theorem follows (solid : ∀ value, child.write value ≠ .null) (form : Form α)
    (follows : ∀ inner ∈ form.children, child.read.Follows bound (child.write inner)) :
    (Form.read child form.kind).Follows bound (form.write child) := by
  cases form with
  | value literal => exact Streams.map Form.value literal.follows
  | var reference => exact Streams.map Form.var reference.follows
  | branch jump => exact Streams.map Form.branch jump.follows
  | imports name => exact Streams.map Form.imports (Streams.text name)
  | spread inner => exact Streams.map Form.spread (follows inner (by simp [children]))
  | returns inner => exact Streams.map Form.returns (follows inner (by simp [children]))
  | tuple elements =>
      exact Streams.map Form.tuple (Follows.list follows (fun inner _ => solid inner))
  | format parts =>
      exact Streams.map Form.format (Follows.list follows (fun inner _ => solid inner))
  | object pairs =>
      have pairFollows : ∀ pair ∈ pairs, (Reader.pair child.read child.read).Follows bound
          (.array [child.write pair.1, child.write pair.2]) := by
        intro pair member
        refine Follows.pair (follows pair.1 ?_) (solid pair.1) (follows pair.2 ?_) <;>
          exact List.mem_flatMap.mpr ⟨pair, member, by simp⟩
      exact Streams.map Form.object (Follows.list pairFollows (fun _ _ => Json.array_ne_null _))
  | assign assignment =>
      obtain ⟨target, source, operator⟩ := assignment
      simp only [children, List.forall_mem_cons] at follows
      exact Streams.map Form.assign ((Assignment.record child).follows ⟨target, source, operator⟩
        (.required follows.1 (.required follows.2.1
          (.optional (fun name _ => Streams.text name) Json.text_ne_null .nil)))
        (names_nodup child .assign))
  | call application =>
      obtain ⟨function, arguments⟩ := application
      simp only [children, List.forall_mem_cons] at follows
      exact Streams.map Form.call ((Call.record child).follows ⟨function, arguments⟩
        (.required follows.1 (.list follows.2 solid .nil)) (names_nodup child .call))
  | index indexing =>
      obtain ⟨container, keys⟩ := indexing
      simp only [children, List.forall_mem_cons] at follows
      exact Streams.map Form.index ((Indexing.record child).follows ⟨container, keys⟩
        (.required follows.1 (.list follows.2 solid .nil)) (names_nodup child .index))
  | loop repetition =>
      obtain ⟨body, otherwise⟩ := repetition
      simp only [children, List.forall_mem_cons, Option.mem_toList] at follows
      exact Streams.map Form.loop ((Loop.record child).follows ⟨body, otherwise⟩
        (.required follows.1 (.optional follows.2 solid .nil))
        (names_nodup child .loop))
  | cond conditional =>
      obtain ⟨condition, consequent, otherwise⟩ := conditional
      simp only [children, List.forall_mem_append, Option.mem_toList] at follows
      exact Streams.map Form.cond ((Conditional.record child).follows
        ⟨condition, consequent, otherwise⟩
        (.optional follows.1.1 solid (.optional follows.1.2 solid (.optional follows.2 solid .nil)))
        (names_nodup child .cond))
  | op operation =>
      obtain ⟨tag, operands⟩ := operation
      simp only [children] at follows
      exact Streams.map Form.op ((Operation.record child).follows ⟨tag, operands⟩
        (.required (Streams.text tag) (.list follows solid .nil))
        (names_nodup child .op))
  | proto prototype =>
      obtain ⟨name, parent, publics, privates, statics⟩ := prototype
      simp only [children, List.forall_mem_append, Option.mem_toList] at follows
      exact Streams.map Form.proto ((Prototype.record child).follows
        ⟨name, parent, publics, privates, statics⟩
        (.optional (fun name _ => Streams.text name) Json.text_ne_null
          (.optional follows.1.1.1 solid (.nonemptyList follows.1.1.2 solid
            (.nonemptyList follows.1.2 solid (.nonemptyList follows.2 solid .nil)))))
        (names_nodup child .proto))
  | switch choice =>
      obtain ⟨scrutinee, cases, fallback, consequent, otherwise⟩ := choice
      simp only [children, List.forall_mem_cons, List.forall_mem_append, Option.mem_toList]
        at follows
      obtain ⟨inScrutinee, ⟨⟨inCases, inFallback⟩, inConsequent⟩, inOtherwise⟩ := follows
      have armFollows : ∀ arm ∈ cases, (SwitchCase.record child).read.Follows bound
          ((SwitchCase.record child).write arm) := fun arm member =>
        SwitchCase.follows solid arm
          (fun inner inside => inCases inner (List.mem_flatMap.mpr ⟨arm, member, inside⟩))
      exact Streams.map Form.switch ((Switch.record child).follows
        ⟨scrutinee, cases, fallback, consequent, otherwise⟩
        (.required inScrutinee (.list armFollows (fun _ => Json.object_ne_null _)
          (.optional inFallback solid (.optional inConsequent solid
            (.optional inOtherwise solid .nil)))))
        (names_nodup child .switch))
  | block sequence =>
      obtain ⟨elements, declared⟩ := sequence
      simp only [children] at follows
      exact Streams.map Form.block ((Block.record child).follows ⟨elements, declared⟩
        (.list follows solid (.nonemptyList (fun reference _ => reference.follows)
          (fun _ => Json.object_ne_null _) .nil))
        (names_nodup child .block))
  | prog sequence =>
      obtain ⟨elements, declared⟩ := sequence
      simp only [children] at follows
      exact Streams.map Form.prog ((Block.record child).follows ⟨elements, declared⟩
        (.list follows solid (.nonemptyList (fun reference _ => reference.follows)
          (fun _ => Json.object_ne_null _) .nil))
        (names_nodup child .prog))
  | func function =>
      obtain ⟨name, parameters, body⟩ := function
      simp only [children, List.forall_mem_append, List.forall_mem_singleton] at follows
      exact Streams.map Form.func ((FunctionLiteral.record child).follows ⟨name, parameters, body⟩
        (.optional (fun name _ => Streams.text name) Json.text_ne_null
          (.list follows.1 solid (.required follows.2 .nil)))
        (names_nodup child .func))
  | forEach iteration =>
      obtain ⟨target, source, body, consequent, otherwise⟩ := iteration
      simp only [children, List.forall_mem_cons, List.forall_mem_append, Option.mem_toList]
        at follows
      exact Streams.map Form.forEach ((Iteration.record child).follows
        ⟨target, source, body, consequent, otherwise⟩
        (.required follows.1 (.required follows.2.1 (.required follows.2.2.1
          (.optional follows.2.2.2.1 solid (.optional follows.2.2.2.2 solid .nil)))))
        (names_nodup child .forEach))

end Form

end Children

end SyntaxTree
