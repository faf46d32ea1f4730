import SyntaxTree.Proofs.FormReading
import SyntaxTree.Proofs.Json.RecordPassages

/-!
# How forms are spelled

The data of a form are spelled as a record of fields, as a list, or as those of its only child, and
each child in the ways in which it may be spelled. Fields that hold what they hold when left out
are those of a variable that can be assigned again, of a jump over no block, of clauses that are
absent and of empty lists.
-/

namespace SyntaxTree

open Json (Codec Manner Passage Record Slot Spellings)
open Json.Reader (Meets Takes)

variable {α : Type} {bound : Nat}

/-! ### Spellings -/

section Spellings

variable (manner : Manner)

def Variable.spellings (reference : Variable) : Spellings :=
  .record manner [.required "name" (.json (.text reference.name)),
    .defaulting "mutable" (.json (.bool reference.isMutable)) reference.isMutable]

def Branch.spellings (jump : Branch) : Spellings :=
  .record manner [.required "kind" (.json (.text jump.kind.name)),
    .defaulting "level" (.json (.integer jump.level.toInt)) (jump.level == 0)]

def SwitchCase.spellings (arm : SwitchCase Spellings) : Spellings :=
  .record manner [.required "op" (.json (.text arm.operator)), .optional "value" arm.comparand,
    .required "body" arm.body,
    .optional "next" (arm.next.map (fun next => .json (.integer next.toNat)))]

namespace Form

/-- The ways in which the data of a form may be spelled, given those of its children. -/
def spellings : Form Spellings → Spellings
  | .value literal => .json literal.toJson
  | .var reference => reference.spellings manner
  | .spread inner | .returns inner => inner
  | .assign ⟨target, source, operator⟩ =>
      .record manner [.required "target" target, .required "value" source,
        .optional "op" (operator.map (fun name => .json (.text name)))]
  | .tuple elements | .format elements => .list elements
  | .call ⟨function, arguments⟩ =>
      .record manner [.required "func" function, .list "args" arguments]
  | .index ⟨container, keys⟩ => .record manner [.required "obj" container, .list "keys" keys]
  | .loop ⟨body, otherwise⟩ =>
      .record manner [.required "body" body, .optional "else" otherwise]
  | .cond ⟨condition, consequent, otherwise⟩ =>
      .record manner [.optional "cond" condition, .optional "then" consequent,
        .optional "else" otherwise]
  | .branch jump => jump.spellings manner
  | .op ⟨tag, operands⟩ =>
      .record manner [.required "op" (.json (.text tag)), .list "args" operands]
  | .imports name => .json (.text name)
  | .proto ⟨name, parent, publics, privates, statics⟩ =>
      .record manner [.optional "name" (name.map (fun name => .json (.text name))),
        .optional "parent" parent, .list "public" publics, .list "private" privates,
        .list "static" statics]
  | .switch ⟨scrutinee, cases, fallback, consequent, otherwise⟩ =>
      .record manner [.required "scrutinee" scrutinee,
        .list "cases" (cases.map (SwitchCase.spellings manner)), .optional "default" fallback,
        .optional "then" consequent, .optional "else" otherwise]
  | .block ⟨elements, declared⟩ | .prog ⟨elements, declared⟩ =>
      .record manner [.list "elems" elements,
        .list "vars" (declared.map (Variable.spellings manner))]
  | .func ⟨name, parameters, body⟩ =>
      .record manner [.optional "name" (name.map (fun name => .json (.text name))),
        .list "params" parameters, .required "body" body]
  | .object pairs => .list (pairs.map (fun pair => .list [pair.1, pair.2]))
  | .forEach ⟨target, source, body, consequent, otherwise⟩ =>
      .record manner [.required "target" target, .required "iter" source, .required "body" body,
        .optional "then" consequent, .optional "else" otherwise]

end Form

end Spellings

/-! ### Own data of forms -/

open Json.Spellings (isFirm_json isFirm_list isFirm_member isFirm_record)

theorem fits_text (name value : String) :
    (Slot.required name (.json (.text value))).Fits bound (.required name .text) value value :=
  .required (isFirm_json (Json.text_ne_null value)) (.ofReads (Takes.text value))

theorem fits_name (name : String) (value : Option String) :
    (Slot.optional name (value.map (fun value => .json (.text value)))).Fits bound
      (.optional name .text) value value := by
  have solid (value : String) : Codec.text.write value ≠ .null := Json.text_ne_null value
  exact .ownOptional solid Takes.text

theorem Variable.meets (manner : Manner) (reference : Variable) :
    Variable.record.read.Meets bound (reference.spellings manner)
      (Variable.record.write reference) reference := by
  have marked : (Slot.defaulting "mutable" (.json (.bool reference.isMutable))
      reference.isMutable).Fits bound (.defaulting "mutable" .bool true) reference.isMutable
        reference.isMutable :=
    .defaulting (isFirm_json nofun) (.ofReads (Takes.bool reference.isMutable)) Eq.symm
  exact Variable.record.meets reference
    (.cons (fits_text "name" reference.name) (.cons marked .nil))
    Variable.names_nodup

theorem Branch.meets (manner : Manner) (jump : Branch) :
    Branch.record.read.Meets bound (jump.spellings manner) (Branch.record.write jump) jump := by
  have kind : (Slot.required "kind" (.json (.text jump.kind.name))).Fits bound
      (.required "kind" BranchKind.codec) jump.kind jump.kind :=
    .required (isFirm_json (Json.text_ne_null _)) (.ofReads (BranchKind.reads jump.kind))
  have level : (Slot.defaulting "level" (.json (.integer jump.level.toInt))
      (jump.level == 0)).Fits bound (.defaulting "level" .int64 0) jump.level jump.level :=
    .defaulting (isFirm_json (Json.integer_ne_null _)) (.ofReads (Takes.int64 jump.level))
      (fun zero => (eq_of_beq zero).symm)
  exact Branch.record.meets jump (.cons kind (.cons level .nil))
    Branch.names_nodup

theorem fits_declared (manner : Manner) (declared : List Variable) :
    (Slot.list "vars" (declared.map (Variable.spellings manner))).Fits bound
      (.nonemptyList "vars" Variable.record.codec) declared declared :=
  .ownNonemptyList (fun _ => isFirm_record _ _) (fun reference => reference.meets manner)

/-! ### Forms -/

section Children

variable {child : Codec α} {spell : α → Spellings} {outcome : α → α}
  (firm : ∀ value, (spell value).IsFirm)

include firm

/-- A case is read without its token. -/
theorem SwitchCase.meets (manner : Manner) (arm : SwitchCase α)
    (meets : ∀ inner ∈ arm.children, child.read.Meets bound (spell inner) (child.write inner)
      (outcome inner)) :
    (SwitchCase.record child).read.Meets bound ((arm.map spell).spellings manner)
      ((SwitchCase.record child).write arm) (arm.map outcome).plain := by
  obtain ⟨token, operator, comparand, body, next⟩ := arm
  simp only [children, List.forall_mem_append, Option.mem_toList,
    List.forall_mem_singleton] at meets
  have link : (Slot.optional "next" (next.map (fun next => .json (.integer next.toNat)))).Fits
      bound (.optional "next" .index) next next := by
    have solid (value : UInt64) : Codec.index.write value ≠ .null := Json.integer_ne_null _
    exact .ownOptional solid Takes.index
  exact (SwitchCase.record child).meets ⟨token, operator, comparand, body, next⟩
    (.cons (fits_text "op" operator) (.cons (.optional firm meets.1)
      (.cons (.required (firm body) meets.2) (.cons link .nil))))
    (SwitchCase.names_nodup child)

namespace Form

/-- However the data of a form are spelled, they are read as the form of its children's outcomes. -/
theorem meets (manner : Manner) (form : Form α)
    (meets : ∀ inner ∈ form.children, child.read.Meets bound (spell inner) (child.write inner)
      (outcome inner)) :
    (Form.read child form.kind).Meets bound ((form.map spell).spellings manner)
      (form.write child) (form.map outcome).plain := by
  cases form with
  | value literal => exact .map Form.value (.ofReads literal.reads)
  | var reference => exact .map Form.var (reference.meets manner)
  | branch jump => exact .map Form.branch (jump.meets manner)
  | imports name => exact .map Form.imports (.ofReads (Takes.text name))
  | spread inner => exact .map Form.spread (meets inner (.head _))
  | returns inner => exact .map Form.returns (meets inner (.head _))
  | tuple elements => exact .map Form.tuple (.list (fun value _ => firm value) meets)
  | format parts => exact .map Form.format (.list (fun value _ => firm value) meets)
  | object pairs =>
      have pairMeets : ∀ pair ∈ pairs, (Json.Reader.pair child.read child.read).Meets bound
          (.list [spell pair.1, spell pair.2]) (.array [child.write pair.1, child.write pair.2])
          (outcome pair.1, outcome pair.2) := by
        intro pair member
        refine .pair (firm pair.1) (meets pair.1 ?_) (meets pair.2 ?_) <;>
          exact List.mem_flatMap.mpr ⟨pair, member, by simp⟩
      have same : (Form.map spell (.object pairs)).spellings manner =
          .list (pairs.map (fun pair => .list [spell pair.1, spell pair.2])) := by
        simp only [Form.map, spellings, List.map_map]
        rfl
      rw [same]
      exact (Meets.list (fun pair _ => isFirm_list _) pairMeets).map Form.object
  | assign assignment =>
      obtain ⟨target, source, operator⟩ := assignment
      simp only [children, List.forall_mem_cons] at meets
      exact .map Form.assign ((Assignment.record child).meets ⟨target, source, operator⟩
        (.cons (.required (firm target) meets.1) (.cons (.required (firm source) meets.2.1)
          (.cons (fits_name "op" operator) .nil))) (names_nodup child .assign))
  | call application =>
      obtain ⟨function, arguments⟩ := application
      simp only [children, List.forall_mem_cons] at meets
      exact .map Form.call ((Call.record child).meets ⟨function, arguments⟩
        (.cons (.required (firm function) meets.1) (.cons (.list firm meets.2) .nil))
        (names_nodup child .call))
  | index indexing =>
      obtain ⟨container, keys⟩ := indexing
      simp only [children, List.forall_mem_cons] at meets
      exact .map Form.index ((Indexing.record child).meets ⟨container, keys⟩
        (.cons (.required (firm container) meets.1) (.cons (.list firm meets.2) .nil))
        (names_nodup child .index))
  | loop repetition =>
      obtain ⟨body, otherwise⟩ := repetition
      simp only [children, List.forall_mem_cons, Option.mem_toList] at meets
      exact .map Form.loop ((Loop.record child).meets ⟨body, otherwise⟩
        (.cons (.required (firm body) meets.1) (.cons (.optional firm meets.2) .nil))
        (names_nodup child .loop))
  | cond conditional =>
      obtain ⟨condition, consequent, otherwise⟩ := conditional
      simp only [children, List.forall_mem_append, Option.mem_toList] at meets
      exact .map Form.cond ((Conditional.record child).meets ⟨condition, consequent, otherwise⟩
        (.cons (.optional firm meets.1.1) (.cons (.optional firm meets.1.2)
          (.cons (.optional firm meets.2) .nil))) (names_nodup child .cond))
  | op operation =>
      obtain ⟨tag, operands⟩ := operation
      exact .map Form.op ((Operation.record child).meets ⟨tag, operands⟩
        (.cons (fits_text "op" tag) (.cons (.list firm meets) .nil))
        (names_nodup child .op))
  | proto prototype =>
      obtain ⟨name, parent, publics, privates, statics⟩ := prototype
      simp only [children, List.forall_mem_append, Option.mem_toList] at meets
      obtain ⟨⟨⟨inParent, inPublics⟩, inPrivates⟩, inStatics⟩ := meets
      exact .map Form.proto ((Prototype.record child).meets
        ⟨name, parent, publics, privates, statics⟩
        (.cons (fits_name "name" name) (.cons (.optional firm inParent)
          (.cons (.nonemptyList firm inPublics) (.cons (.nonemptyList firm inPrivates)
            (.cons (.nonemptyList firm inStatics) .nil)))))
        (names_nodup child .proto))
  | switch choice =>
      obtain ⟨scrutinee, cases, fallback, consequent, otherwise⟩ := choice
      simp only [children, List.forall_mem_cons, List.forall_mem_append, Option.mem_toList]
        at meets
      obtain ⟨inScrutinee, ⟨⟨inCases, inFallback⟩, inConsequent⟩, inOtherwise⟩ := meets
      have arms : ∀ arm ∈ cases, (SwitchCase.record child).read.Meets bound
          ((arm.map spell).spellings manner) ((SwitchCase.record child).write arm)
          (arm.map outcome).plain := fun arm member =>
        SwitchCase.meets firm manner arm
          (fun inner inside => inCases inner (List.mem_flatMap.mpr ⟨arm, member, inside⟩))
      have listed : (Slot.list "cases" ((cases.map (·.map spell)).map
          (SwitchCase.spellings manner))).Fits bound (.list "cases" (SwitchCase.record child).codec)
          cases ((cases.map (·.map outcome)).map SwitchCase.plain) := by
        rw [List.map_map, List.map_map]
        exact .list (fun _ => isFirm_record _ _) arms
      exact .map Form.switch ((Switch.record child).meets
        ⟨scrutinee, cases, fallback, consequent, otherwise⟩
        (.cons (.required (firm scrutinee) inScrutinee) (.cons listed
          (.cons (.optional firm inFallback) (.cons (.optional firm inConsequent)
            (.cons (.optional firm inOtherwise) .nil)))))
        (names_nodup child .switch))
  | block sequence =>
      obtain ⟨elements, declared⟩ := sequence
      exact .map Form.block ((Block.record child).meets ⟨elements, declared⟩
        (.cons (.list firm meets) (.cons (fits_declared manner declared) .nil))
        (names_nodup child .block))
  | prog sequence =>
      obtain ⟨elements, declared⟩ := sequence
      exact .map Form.prog ((Block.record child).meets ⟨elements, declared⟩
        (.cons (.list firm meets) (.cons (fits_declared manner declared) .nil))
        (names_nodup child .prog))
  | func function =>
      obtain ⟨name, parameters, body⟩ := function
      simp only [children, List.forall_mem_append, List.forall_mem_singleton] at meets
      exact .map Form.func ((FunctionLiteral.record child).meets ⟨name, parameters, body⟩
        (.cons (fits_name "name" name) (.cons (.list firm meets.1)
          (.cons (.required (firm body) meets.2) .nil)))
        (names_nodup child .func))
  | forEach iteration =>
      obtain ⟨target, source, body, consequent, otherwise⟩ := iteration
      simp only [children, List.forall_mem_cons, List.forall_mem_append, Option.mem_toList]
        at meets
      obtain ⟨inTarget, inSource, inBody, inConsequent, inOtherwise⟩ := meets
      exact .map Form.forEach ((Iteration.record child).meets
        ⟨target, source, body, consequent, otherwise⟩
        (.cons (.required (firm target) inTarget) (.cons (.required (firm source) inSource)
          (.cons (.required (firm body) inBody) (.cons (.optional firm inConsequent)
            (.cons (.optional firm inOtherwise) .nil)))))
        (names_nodup child .forEach))

end Form

end Children

end SyntaxTree
