import SyntaxTree.Interchange
import SyntaxTree.Proofs.Json.Yields

/-!
# What reading a tree can yield

A form that is read has only children that were read. So a property that building a node from a
form hands on from the children to the node is a property of every tree that is read.
-/

namespace SyntaxTree

open Json (Codec Guaranteed Reader Record)
open Json.Field (any_yields list_yields nonemptyList_yields optional_yields required_yields)

variable {α : Type} {child : Codec α} {property : α → Prop} {levels : Nat}

theorem SwitchCase.record_yields (yields : ∀ levels, child.read.Yields levels property) :
    (SwitchCase.record child).read.Yields levels
      (fun arm => ∀ child ∈ arm.children, property child) := by
  refine (SwitchCase.record child).read_yields (fun _ _ => .cons (any_yields _)
    (.cons (optional_yields (yields _)) (.cons (required_yields (yields _))
      (.cons (any_yields _) .nil)))) ?_
  rintro ⟨operator, comparand, body, next⟩ ⟨-, holdsComparand, holdsBody, -⟩ child member
  rcases List.mem_append.mp member with inComparand | inBody
  · exact holdsComparand child (Option.mem_toList.mp inComparand)
  · exact List.mem_singleton.mp inBody ▸ holdsBody

namespace Form

/-- A form that is read has only children that the reader of children yields. -/
theorem read_yields (yields : ∀ levels, child.read.Yields levels property) (kind : Kind) :
    (Form.read child kind).Yields levels (fun form => ∀ child ∈ form.children, property child) := by
  have leaf {σ : Type} (reader : Reader σ) (make : σ → Form α)
      (childless : ∀ data, (make data).children = []) :
      (make <$> reader).Yields levels (fun form => ∀ child ∈ form.children, property child) :=
    (Reader.Yields.anything reader).map (by simp [childless])
  have record {σ : Type} (record : Record σ) (make : σ → Form α)
      {properties : Json.Values record.fields → Prop}
      (guaranteed : ∀ inner, Guaranteed inner record.fields properties)
      (assembled : ∀ values, properties values →
        ∀ child ∈ (make (record.assemble values)).children, property child) :
      (make <$> record.read).Yields levels (fun form => ∀ child ∈ form.children, property child) :=
    (record.read_yields (fun inner _ => guaranteed inner) assembled).map (fun _ holds => holds)
  cases kind with
  | value => exact leaf _ _ (fun _ => rfl)
  | var => exact leaf _ _ (fun _ => rfl)
  | branch => exact leaf _ _ (fun _ => rfl)
  | imports => exact leaf _ _ (fun _ => rfl)
  | spread => exact (yields levels).map (by simp [children])
  | returns => exact (yields levels).map (by simp [children])
  | tuple => exact (Reader.Yields.list (fun _ _ => yields _)).map (fun _ holds => holds)
  | format => exact (Reader.Yields.list (fun _ _ => yields _)).map (fun _ holds => holds)
  | object =>
      refine (Reader.Yields.list (fun _ _ => .pair (fun _ _ => yields _) (fun _ _ => yields _))).map
        (fun pairs holds child member => ?_)
      obtain ⟨pair, inPairs, inPair⟩ := List.mem_flatMap.mp member
      have both := holds pair inPairs
      simp only [List.mem_cons, List.not_mem_nil, or_false] at inPair
      rcases inPair with rfl | rfl
      · exact both.1
      · exact both.2
  | assign =>
      refine record _ _ (fun _ => .cons (required_yields (yields _))
        (.cons (required_yields (yields _)) (.cons (any_yields _) .nil))) ?_
      simp +contextual [Assignment.record, children]
  | call =>
      refine record _ _ (fun _ => .cons (required_yields (yields _))
        (.cons (list_yields (fun _ _ => yields _)) .nil)) ?_
      simp +contextual [Call.record, children]
  | index =>
      refine record _ _ (fun _ => .cons (required_yields (yields _))
        (.cons (list_yields (fun _ _ => yields _)) .nil)) ?_
      simp +contextual [Indexing.record, children]
  | loop =>
      refine record _ _ (fun _ => .cons (required_yields (yields _))
        (.cons (optional_yields (yields _)) .nil)) ?_
      simp +contextual [Loop.record, children]
  | cond =>
      refine record _ _ (fun _ => .cons (optional_yields (yields _))
        (.cons (optional_yields (yields _)) (.cons (optional_yields (yields _)) .nil))) ?_
      rintro values ⟨inCondition, inConsequent, inOtherwise, -⟩ child member
      simp only [Conditional.record, children, List.mem_append, Option.mem_toList] at member
      rcases member with (member | member) | member
      · exact inCondition _ member
      · exact inConsequent _ member
      · exact inOtherwise _ member
  | op =>
      refine record _ _ (fun _ => .cons (any_yields _)
        (.cons (list_yields (fun _ _ => yields _)) .nil)) ?_
      simp +contextual [Operation.record, children]
  | proto =>
      refine record _ _ (fun _ => .cons (any_yields _) (.cons (optional_yields (yields _))
        (.cons (nonemptyList_yields (fun _ _ => yields _))
          (.cons (nonemptyList_yields (fun _ _ => yields _))
            (.cons (nonemptyList_yields (fun _ _ => yields _)) .nil))))) ?_
      rintro values ⟨-, inParent, inPublics, inPrivates, inStatics, -⟩ child member
      simp only [Prototype.record, children, List.mem_append, Option.mem_toList] at member
      rcases member with ((member | member) | member) | member
      · exact inParent _ member
      · exact inPublics _ member
      · exact inPrivates _ member
      · exact inStatics _ member
  | switch =>
      refine record _ _ (fun _ => .cons (required_yields (yields _))
        (.cons (list_yields (fun _ _ => SwitchCase.record_yields yields))
          (.cons (optional_yields (yields _)) (.cons (optional_yields (yields _))
            (.cons (optional_yields (yields _)) .nil))))) ?_
      rintro values ⟨inScrutinee, inCases, inFallback, inConsequent, inOtherwise, -⟩ child member
      simp only [Switch.record, children, List.mem_cons, List.mem_append, List.mem_flatMap,
        Option.mem_toList] at member
      rcases member with rfl | ((⟨arm, inList, member⟩ | member) | member) | member
      · exact inScrutinee
      · exact inCases arm inList _ member
      · exact inFallback _ member
      · exact inConsequent _ member
      · exact inOtherwise _ member
  | block =>
      refine record _ _ (fun _ => .cons (list_yields (fun _ _ => yields _))
        (.cons (any_yields _) .nil)) ?_
      simp +contextual [Block.record, children]
  | prog =>
      refine record _ _ (fun _ => .cons (list_yields (fun _ _ => yields _))
        (.cons (any_yields _) .nil)) ?_
      simp +contextual [Block.record, children]
  | func =>
      refine record _ _ (fun _ => .cons (any_yields _) (.cons (list_yields (fun _ _ => yields _))
        (.cons (required_yields (yields _)) .nil))) ?_
      rintro values ⟨-, inParameters, inBody, -⟩ child member
      simp only [FunctionLiteral.record, children, List.mem_append, List.mem_singleton] at member
      rcases member with member | rfl
      · exact inParameters _ member
      · exact inBody
  | forEach =>
      refine record _ _ (fun _ => .cons (required_yields (yields _))
        (.cons (required_yields (yields _)) (.cons (required_yields (yields _))
          (.cons (optional_yields (yields _)) (.cons (optional_yields (yields _)) .nil))))) ?_
      rintro values ⟨inTarget, inSource, inBody, inConsequent, inOtherwise, -⟩ child member
      simp only [Iteration.record, children, List.mem_cons, List.mem_append,
        Option.mem_toList] at member
      rcases member with rfl | rfl | rfl | member | member
      · exact inTarget
      · exact inSource
      · exact inBody
      · exact inConsequent _ member
      · exact inOtherwise _ member

end Form

namespace Node

/-- What building hands on from the children to the node, reading a tree yields. -/
theorem readUpTo_yields {property : Node → Prop}
    (builds : ∀ form node, (∀ child ∈ form.children, property child) → ofForm form = .ok node →
      property node) (height levels : Nat) :
    (readUpTo height).Yields levels property := by
  induction height generalizing levels with
  | zero => exact Reader.Yields.failing _
  | succ height ih =>
      have data : (Reader.variant (Kind.all.map Kind.name) Kind.ofName?
          (fun _ => .error (.invalidType .bareName "newtype variant"))
          (Form.read ⟨readUpTo height, toJson⟩)).Yields levels
            (fun form => ∀ child ∈ form.children, property child) :=
        Reader.Yields.variant nofun (fun _ _ kind => Form.read_yields ih kind)
      refine data.andThen (fun form holds => ?_)
      cases built : ofForm form with
      | ok node => exact Reader.Yields.done (builds form node holds built)
      | error cause => exact Reader.Yields.failing _

theorem read_yields {property : Node → Prop}
    (builds : ∀ form node, (∀ child ∈ form.children, property child) → ofForm form = .ok node →
      property node) (levels : Nat) :
    read.Yields levels property :=
  fun _ _ _ taken => readUpTo_yields builds (levels + 1) levels taken

end Node
end SyntaxTree
