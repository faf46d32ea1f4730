import SyntaxTree.Interchange
import SyntaxTree.Proofs.Erasure
import SyntaxTree.Proofs.Json.TakesRecords

/-!
# Forms read what they write

Reading the data of a form back comes to the form with the outcomes of its children in their
places, the children in the order of the fields. Only tokens of cases and payloads of nans are
lost.
-/

namespace SyntaxTree

open Json (Codec Field Lexeme Reader Record Values Writes)
open Json.Reader (Reads Takes)

variable {α : Type} {bound : Nat}

/-! ### Literals -/

theorem Binary64.eq_infinity {real : Binary64} (unbounded : real.isFinite = false)
    (number : real.isNaN = false) : real = infinity real.negative := by
  obtain ⟨negative, magnitude⟩ := real
  simp only [isFinite, isNaN, decide_eq_false_iff_not] at unbounded number
  have edge : magnitude.val = infiniteMagnitude := by omega
  simp only [infinity, mk.injEq, true_and]
  exact Fin.ext edge

theorem Binary64.isNaN_of_isFinite {real : Binary64} (finite : real.isFinite = true) :
    real.isNaN = false := by
  simp only [isFinite, isNaN, decide_eq_true_eq, decide_eq_false_iff_not] at finite ⊢
  omega

theorem Literal.ofRealName_nonFiniteName {real : Binary64} (unbounded : real.isFinite = false) :
    ofRealName real.nonFiniteName = .ok (Literal.real real).plain := by
  cases number : real.isNaN with
  | true => simp [Binary64.nonFiniteName, number, plain, ofRealName, Binary64.ofNonFiniteName?]
  | false =>
      have infinite := Binary64.eq_infinity unbounded number
      cases sign : real.negative <;> rw [sign] at infinite <;> rw [infinite] <;> rfl

theorem Literal.ofJson_integer (value : Int64) :
    ofJson (.integer value.toInt) = .ok (.int value) := by
  have least := value.le_toInt
  have below := value.toInt_lt
  simp only [ofJson]
  rw [if_pos (by simp; omega), Int64.ofInt_toInt]

/-- Whatever any value is, its numeral is taken with the value it has. -/
theorem takes_numeral {numeral : Json.Numeral} {value : Json} {literal : Literal}
    (valued : numeral.value? = some value) (spells : Literal.ofJson value = .ok literal) :
    Literal.read.Takes bound [.numeral numeral] 0 (.ok literal) := by
  refine Takes.flat (fun levels rest => ?_)
  simp [Literal.read, Bind.bind, Reader.any, Reader.anyUpTo, valued, spells, Reader.ofExcept,
    Reader.deliver, pure]

/-- The object that names a number that is not finite is read in full before it is looked at. -/
theorem takes_realName {name : String} {literal : Literal}
    (named : Literal.ofRealName name = .ok literal) :
    Literal.read.Takes bound
      [.openBrace, .text (some "real"), .colon, .text (some name), .closeBrace] 1
      (.ok literal) := by
  constructor
  · intro levels fewer enough rest
    obtain ⟨levels, rfl⟩ := Nat.exists_eq_succ_of_ne_zero (Nat.ne_of_gt enough)
    have read : Reader.any (levels + 1)
        ([.openBrace, .text (some "real"), .colon, .text (some name), .closeBrace] ++ rest) =
        .ok (.object [("real", .text name)], rest) := rfl
    have spells : Literal.ofJson (.object [("real", .text name)]) = .ok literal := named
    simp only [Literal.read, Bind.bind, read, spells]
    rfl
  · intro levels fewer short value succeeds rest
    obtain rfl : levels = 0 := by omega
    rfl

theorem Literal.reads (literal : Literal) :
    Literal.read.Reads bound literal.toJson (.ok literal.plain) := by
  cases literal with
  | sentinel => exact Takes.flat (fun _ _ => rfl)
  | bool value => exact Takes.flat (fun _ _ => rfl)
  | text value => exact Takes.flat (fun _ _ => rfl)
  | int value =>
      have least := value.le_toInt
      have below := value.toInt_lt
      exact takes_numeral (Json.Numeral.value?_ofInt least (by omega)) (ofJson_integer value)
  | real value =>
      cases finite : value.isFinite with
      | true =>
          simp only [toJson, finite, if_true, plain, Binary64.isNaN_of_isFinite finite,
            Bool.false_eq_true, if_false]
          exact takes_numeral (Json.Numeral.value?_ofReal (by decide) finite) rfl
      | false =>
          simp only [toJson, finite, Bool.false_eq_true, if_false]
          exact takes_realName (ofRealName_nonFiniteName finite)

/-! ### Names of fields -/

theorem Variable.names_nodup : (Variable.record.fields.map Field.name).Nodup := by decide

theorem Branch.names_nodup : (Branch.record.fields.map Field.name).Nodup := by decide

section Names

variable (child : Codec α)

theorem SwitchCase.names_nodup : ((SwitchCase.record child).fields.map Field.name).Nodup := by
  simp [record, Field.required, Field.optional]

/-- The fields of the record of a form, none where the data of the form is no record. -/
def Form.fields : Kind → List Field
  | .var => Variable.record.fields
  | .assign => (Assignment.record child).fields
  | .call => (Call.record child).fields
  | .index => (Indexing.record child).fields
  | .loop => (Loop.record child).fields
  | .cond => (Conditional.record child).fields
  | .branch => Branch.record.fields
  | .op => (Operation.record child).fields
  | .proto => (Prototype.record child).fields
  | .switch => (Switch.record child).fields
  | .block | .prog => (Block.record child).fields
  | .func => (FunctionLiteral.record child).fields
  | .forEach => (Iteration.record child).fields
  | .value | .spread | .tuple | .imports | .returns | .format | .object => []

theorem Form.names_nodup (kind : Kind) : ((fields child kind).map Field.name).Nodup := by
  cases kind with
  | value | spread | tuple | imports | returns | format | object => exact List.nodup_nil
  | var => exact Variable.names_nodup
  | branch => exact Branch.names_nodup
  | _ =>
      simp [fields, Assignment.record, Call.record, Indexing.record, Loop.record,
        Conditional.record, Operation.record, Prototype.record, Switch.record, Block.record,
        FunctionLiteral.record, Iteration.record, Field.required, Field.defaulting,
        Field.optional, Field.list, Field.nonemptyList]

end Names

/-! ### Own data of forms -/

theorem Variable.reads (reference : Variable) :
    Variable.record.read.Reads bound (Variable.record.write reference) (.ok reference) :=
  Variable.record.reads reference (.required (Takes.text reference.name)
    (.defaulting (Takes.bool reference.isMutable) .nil)) Variable.names_nodup

theorem BranchKind.reads (kind : BranchKind) :
    BranchKind.codec.read.Reads bound (BranchKind.codec.write kind) (.ok kind) :=
  Takes.flat (fun _ _ => by cases kind <;> rfl)

theorem Branch.reads (jump : Branch) :
    Branch.record.read.Reads bound (Branch.record.write jump) (.ok jump) :=
  Branch.record.reads jump (.required (BranchKind.reads jump.kind)
    (.defaulting (Takes.int64 jump.level) .nil)) Branch.names_nodup

/-! ### Forms -/

section Children

variable {child : Codec α} {outcome : α → Except Malformation α}

/-- The members of a case are read without its token. -/
theorem SwitchCase.reads (solid : ∀ value, child.write value ≠ .null) (arm : SwitchCase α)
    (reads : ∀ inner ∈ arm.children, child.read.Reads bound (child.write inner) (outcome inner)) :
    (SwitchCase.record child).read.Reads bound ((SwitchCase.record child).write arm)
      (SwitchCase.plain <$> arm.mapM outcome) := by
  obtain ⟨token, operator, comparand, body, next⟩ := arm
  simp only [children, List.forall_mem_append, Option.mem_toList,
    List.forall_mem_singleton] at reads
  refine ((SwitchCase.record child).reads ⟨token, operator, comparand, body, next⟩
    (.required (Takes.text operator) (.optional reads.1 solid (.required reads.2
      (.ownOptional Takes.index (fun _ => Json.integer_ne_null _) .nil))))
    (SwitchCase.names_nodup child)).cast rfl rfl ?_
  simp only [mapM]
  cases comparand.mapM outcome <;> cases outcome body <;> rfl

namespace Form

variable (child) in
/-- Reading the data of a form comes to the form of the outcomes of its children. -/
theorem reads (solid : ∀ value, child.write value ≠ .null) (form : Form α)
    (reads : ∀ inner ∈ form.children, child.read.Reads bound (child.write inner) (outcome inner)) :
    (Form.read child form.kind).Reads bound (form.write child)
      (Form.plain <$> form.mapM outcome) := by
  cases form with
  | value literal => exact Takes.map Form.value literal.reads
  | var reference => exact Takes.map Form.var reference.reads
  | branch jump => exact Takes.map Form.branch jump.reads
  | imports name => exact Takes.map Form.imports (Takes.text name)
  | spread inner =>
      refine (Takes.map Form.spread (reads inner (by simp [children]))).cast rfl rfl ?_
      simp only [mapM]
      cases outcome inner <;> rfl
  | returns inner =>
      refine (Takes.map Form.returns (reads inner (by simp [children]))).cast rfl rfl ?_
      simp only [mapM]
      cases outcome inner <;> rfl
  | tuple elements =>
      refine (Takes.map Form.tuple (Reads.list reads (fun inner _ => solid inner))).cast rfl rfl ?_
      simp only [mapM, children]
      cases elements.mapM outcome <;> rfl
  | format parts =>
      refine (Takes.map Form.format (Reads.list reads (fun inner _ => solid inner))).cast rfl rfl ?_
      simp only [mapM, children]
      cases parts.mapM outcome <;> rfl
  | object pairs =>
      have pairReads : ∀ pair ∈ pairs, (Reader.pair child.read child.read).Reads bound
          (.array [child.write pair.1, child.write pair.2]) (pairMapM outcome pair) := by
        intro pair member
        refine Reads.pair (reads pair.1 ?_) (solid pair.1) (reads pair.2 ?_) <;>
          exact List.mem_flatMap.mpr ⟨pair, member, by simp⟩
      have listed := Reads.list pairReads (fun _ _ => Json.array_ne_null _)
      refine (Takes.map Form.object listed).cast rfl rfl ?_
      simp only [mapM]
      cases pairs.mapM (pairMapM outcome) <;> rfl
  | assign assignment =>
      obtain ⟨target, source, operator⟩ := assignment
      simp only [children, List.forall_mem_cons] at reads
      refine (Takes.map Form.assign ((Assignment.record child).reads ⟨target, source, operator⟩
        (.required reads.1 (.required reads.2.1 (.ownOptional Takes.text Json.text_ne_null .nil)))
        (names_nodup child .assign))).cast rfl rfl ?_
      simp only [mapM]
      cases outcome target <;> cases outcome source <;> rfl
  | call application =>
      obtain ⟨function, arguments⟩ := application
      simp only [children, List.forall_mem_cons] at reads
      refine (Takes.map Form.call ((Call.record child).reads ⟨function, arguments⟩
        (.required reads.1 (.list reads.2 solid .nil))
        (names_nodup child .call))).cast rfl rfl ?_
      simp only [mapM]
      cases outcome function <;> cases arguments.mapM outcome <;> rfl
  | index indexing =>
      obtain ⟨container, keys⟩ := indexing
      simp only [children, List.forall_mem_cons] at reads
      refine (Takes.map Form.index ((Indexing.record child).reads ⟨container, keys⟩
        (.required reads.1 (.list reads.2 solid .nil))
        (names_nodup child .index))).cast rfl rfl ?_
      simp only [mapM]
      cases outcome container <;> cases keys.mapM outcome <;> rfl
  | loop repetition =>
      obtain ⟨body, otherwise⟩ := repetition
      simp only [children, List.forall_mem_cons, Option.mem_toList] at reads
      refine (Takes.map Form.loop ((Loop.record child).reads ⟨body, otherwise⟩
        (.required reads.1 (.optional reads.2 solid .nil))
        (names_nodup child .loop))).cast rfl rfl ?_
      simp only [mapM]
      cases outcome body <;> cases otherwise.mapM outcome <;> rfl
  | cond conditional =>
      obtain ⟨condition, consequent, otherwise⟩ := conditional
      simp only [children, List.forall_mem_append, Option.mem_toList] at reads
      refine (Takes.map Form.cond ((Conditional.record child).reads
        ⟨condition, consequent, otherwise⟩
        (.optional reads.1.1 solid (.optional reads.1.2 solid (.optional reads.2 solid .nil)))
        (names_nodup child .cond))).cast rfl rfl ?_
      simp only [mapM]
      cases condition.mapM outcome <;> cases consequent.mapM outcome <;>
        cases otherwise.mapM outcome <;> rfl
  | op operation =>
      obtain ⟨tag, operands⟩ := operation
      simp only [children] at reads
      refine (Takes.map Form.op ((Operation.record child).reads ⟨tag, operands⟩
        (.required (Takes.text tag) (.list reads solid .nil))
        (names_nodup child .op))).cast rfl rfl ?_
      simp only [mapM]
      cases operands.mapM outcome <;> rfl
  | proto prototype =>
      obtain ⟨name, parent, publics, privates, statics⟩ := prototype
      simp only [children, List.forall_mem_append, Option.mem_toList] at reads
      refine (Takes.map Form.proto ((Prototype.record child).reads
        ⟨name, parent, publics, privates, statics⟩
        (.ownOptional Takes.text Json.text_ne_null (.optional reads.1.1.1 solid
          (.nonemptyList reads.1.1.2 solid (.nonemptyList reads.1.2 solid
            (.nonemptyList reads.2 solid .nil)))))
        (names_nodup child .proto))).cast rfl rfl ?_
      simp only [mapM]
      cases parent.mapM outcome <;> cases publics.mapM outcome <;>
        cases privates.mapM outcome <;> cases statics.mapM outcome <;> rfl
  | switch choice =>
      obtain ⟨scrutinee, cases, fallback, consequent, otherwise⟩ := choice
      simp only [children, List.forall_mem_cons, List.forall_mem_append, Option.mem_toList]
        at reads
      obtain ⟨inScrutinee, ⟨⟨inCases, inFallback⟩, inConsequent⟩, inOtherwise⟩ := reads
      have armReads : ∀ arm ∈ cases, (SwitchCase.record child).read.Reads bound
          ((SwitchCase.record child).write arm) (SwitchCase.plain <$> arm.mapM outcome) :=
        fun arm member => SwitchCase.reads solid arm
          (fun inner inside => inCases inner (List.mem_flatMap.mpr ⟨arm, member, inside⟩))
      refine (Takes.map Form.switch ((Switch.record child).reads
        ⟨scrutinee, cases, fallback, consequent, otherwise⟩
        (.required inScrutinee (.list armReads (fun _ => Json.object_ne_null _)
          (.optional inFallback solid (.optional inConsequent solid
            (.optional inOtherwise solid .nil)))))
        (names_nodup child .switch))).cast rfl rfl ?_
      simp only [mapM, mapM_list_mapped]
      cases outcome scrutinee <;> cases cases.mapM (SwitchCase.mapM outcome) <;>
        cases fallback.mapM outcome <;> cases consequent.mapM outcome <;>
        cases otherwise.mapM outcome <;> rfl
  | block sequence =>
      obtain ⟨elements, declared⟩ := sequence
      simp only [children] at reads
      refine (Takes.map Form.block ((Block.record child).reads ⟨elements, declared⟩
        (.list reads solid (.ownNonemptyList Variable.reads (fun _ => Json.object_ne_null _) .nil))
        (names_nodup child .block))).cast rfl rfl ?_
      simp only [mapM]
      cases elements.mapM outcome <;> rfl
  | prog sequence =>
      obtain ⟨elements, declared⟩ := sequence
      simp only [children] at reads
      refine (Takes.map Form.prog ((Block.record child).reads ⟨elements, declared⟩
        (.list reads solid (.ownNonemptyList Variable.reads (fun _ => Json.object_ne_null _) .nil))
        (names_nodup child .prog))).cast rfl rfl ?_
      simp only [mapM]
      cases elements.mapM outcome <;> rfl
  | func function =>
      obtain ⟨name, parameters, body⟩ := function
      simp only [children, List.forall_mem_append, List.forall_mem_singleton] at reads
      refine (Takes.map Form.func ((FunctionLiteral.record child).reads ⟨name, parameters, body⟩
        (.ownOptional Takes.text Json.text_ne_null (.list reads.1 solid (.required reads.2 .nil)))
        (names_nodup child .func))).cast rfl rfl ?_
      simp only [mapM]
      cases parameters.mapM outcome <;> cases outcome body <;> rfl
  | forEach iteration =>
      obtain ⟨target, source, body, consequent, otherwise⟩ := iteration
      simp only [children, List.forall_mem_cons, List.forall_mem_append, Option.mem_toList] at reads
      refine (Takes.map Form.forEach ((Iteration.record child).reads
        ⟨target, source, body, consequent, otherwise⟩
        (.required reads.1 (.required reads.2.1 (.required reads.2.2.1
          (.optional reads.2.2.2.1 solid (.optional reads.2.2.2.2 solid .nil)))))
        (names_nodup child .forEach))).cast rfl rfl ?_
      simp only [mapM]
      cases outcome target <;> cases outcome source <;> cases outcome body <;>
        cases consequent.mapM outcome <;> cases otherwise.mapM outcome <;> rfl

end Form

end Children

end SyntaxTree
