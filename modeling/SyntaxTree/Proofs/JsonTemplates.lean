import SyntaxTree.Interchange
import SyntaxTree.Proofs.Json.Spelling
import SyntaxTree.Proofs.Templates

/-!
# Templates of JSON texts

The compact JSON text of a form is a template with the texts of its children in the places, in the
order of the list of children. This is shown of values part by part, and of the data of a form from
the members that its record writes.
-/

namespace SyntaxTree

open Json (Codec Field Record compactElements compactMembers)
open Template (contents contents_append contents_intercalate contents_ofText fill fill_append
  fill_intercalate fill_ofText ofText)

variable {α β : Type}

/-- The text is a template of these children, for any way to write them. -/
def Around (children : List α) (text : Codec α → List Char) : Prop :=
  ∃ template : List (Letter α), contents template = children ∧
    ∀ child : Codec α, text child = fill (fun inner => (child.write inner).compact) template

/-- The texts are templates of these children, one after another. -/
def AllAround (children : List α) (texts : Codec α → List (List Char)) : Prop :=
  ∃ templates : List (List (Letter α)), templates.flatMap contents = children ∧
    ∀ child : Codec α,
      texts child = templates.map (fill (fun inner => (child.write inner).compact))

namespace Around

theorem constant (text : List Char) : Around ([] : List α) (fun _ => text) :=
  ⟨ofText text, contents_ofText text, fun _ => (fill_ofText _ text).symm⟩

theorem child {inner : α} : Around [inner] (fun child => (child.write inner).compact) :=
  ⟨[.place inner], rfl, fun _ => (List.append_nil _).symm⟩

theorem append {first second : List α} {text rest : Codec α → List Char}
    (before : Around first text) (after : Around second rest) :
    Around (first ++ second) (fun child => text child ++ rest child) := by
  obtain ⟨template, listed, filled⟩ := before
  obtain ⟨others, othersListed, othersFilled⟩ := after
  refine ⟨template ++ others, ?_, ?_⟩
  · rw [contents_append, listed, othersListed]
  · intro child
    dsimp only
    rw [fill_append, filled, othersFilled]

theorem enclosed {children : List α} {texts : Codec α → List (List Char)} (opening closing : Char)
    (around : AllAround children texts) :
    Around children
      (fun child => opening :: (List.intercalate [','] (texts child) ++ [closing])) := by
  obtain ⟨templates, listed, filled⟩ := around
  refine ⟨.char opening :: (List.intercalate [.char ','] templates ++ [.char closing]), ?_, ?_⟩
  · simp [contents, contents_intercalate, listed]
  · intro child
    simp [fill, fill_intercalate, filled]

theorem array {children : List α} {elements : Codec α → List Json}
    (around : AllAround children (fun child => compactElements (elements child))) :
    Around children (fun child => (Json.array (elements child)).compact) :=
  enclosed '[' ']' around

theorem object {children : List α} {members : Codec α → List (String × Json)}
    (around : AllAround children (fun child => compactMembers (members child))) :
    Around children (fun child => (Json.object (members child)).compact) :=
  enclosed '\x7b' '\x7d' around

end Around

namespace AllAround

theorem nil : AllAround ([] : List α) (fun _ => []) := ⟨[], rfl, fun _ => rfl⟩

theorem single {children : List α} {text : Codec α → List Char} (around : Around children text) :
    AllAround children (fun child => [text child]) := by
  obtain ⟨template, listed, filled⟩ := around
  exact ⟨[template], by simp [listed], fun child => by simp [filled]⟩

theorem append {first second : List α} {texts rest : Codec α → List (List Char)}
    (before : AllAround first texts) (after : AllAround second rest) :
    AllAround (first ++ second) (fun child => texts child ++ rest child) := by
  obtain ⟨templates, listed, filled⟩ := before
  obtain ⟨others, othersListed, othersFilled⟩ := after
  refine ⟨templates ++ others, ?_, ?_⟩
  · rw [List.flatMap_append, listed, othersListed]
  · intro child
    dsimp only
    rw [List.map_append, filled, othersFilled]

theorem map {listed : β → List α} {text : Codec α → β → List Char}
    (each : ∀ element, Around (listed element) (fun child => text child element))
    (elements : List β) :
    AllAround (elements.flatMap listed) (fun child => elements.map (text child)) := by
  induction elements with
  | nil => exact nil
  | cons element rest ih => exact (single (each element)).append ih

theorem of_eq {here children : List α} {texts : Codec α → List (List Char)}
    (around : AllAround here texts) (same : here = children) : AllAround children texts :=
  same ▸ around

/-! ### Members -/

theorem cons {first second : List α}
    {members rest : Codec α → List (String × Json)}
    (before : AllAround first (fun child => compactMembers (members child)))
    (after : AllAround second (fun child => compactMembers (rest child))) :
    AllAround (first ++ second) (fun child => compactMembers (members child ++ rest child)) := by
  have both := before.append after
  simp only [Json.compactMembers_eq_map, ← List.map_append] at both ⊢
  exact both

theorem member {children : List α} {name : String} {value : Codec α → Json}
    (around : Around children (fun child => (value child).compact)) :
    AllAround children (fun child => compactMembers [(name, value child)]) := by
  have named := (Around.constant (Json.textLiteral name ++ [':'])).append around
  simp only [List.append_assoc] at named
  exact single named

/-- Members that do not depend on the children. -/
theorem own {members : List (String × Json)} :
    AllAround ([] : List α) (fun _ => compactMembers members) := by
  induction members with
  | nil => exact nil
  | cons first rest ih => exact (single (Around.constant _)).append ih

theorem optional {name : String} {clause : Option α} :
    AllAround clause.toList
      (fun child => compactMembers ((clause.map child.write).toList.map (name, ·))) := by
  cases clause with
  | none => exact nil
  | some inner => exact member .child

end AllAround

namespace Around

theorem listOf {listed : β → List α} {write : Codec α → β → Json}
    (each : ∀ element, Around (listed element) (fun child => (write child element).compact))
    {elements : List β} :
    Around (elements.flatMap listed)
      (fun child => (Json.array (elements.map (write child))).compact) := by
  apply array
  simp only [Json.compactElements_eq_map, List.map_map]
  exact AllAround.map each elements

theorem list {elements : List α} :
    Around elements (fun child => ((Codec.list child).write elements).compact) := by
  have each : Around (elements.flatMap (fun element => [element]))
      (fun child => (Json.array (elements.map child.write)).compact) := listOf (fun _ => child)
  rwa [List.flatMap_singleton'] at each

theorem pair (pair : α × α) :
    Around [pair.1, pair.2] (fun child => ((Codec.pair child child).write pair).compact) :=
  array ((AllAround.single child).append (AllAround.single child))

end Around

theorem AllAround.nonemptyList {name : String} {elements : List α} :
    AllAround elements (fun child => compactMembers
      (((Field.nonemptyList name child).write elements).toList.map (name, ·))) := by
  cases elements with
  | nil => exact nil
  | cons first rest => exact member .list

theorem SwitchCase.write_around (arm : SwitchCase α) :
    Around arm.children (fun child => ((SwitchCase.record child).write arm).compact) := by
  refine .object (.of_eq (.cons .own (.cons .optional (.cons (.member .child) .own))) ?_)
  simp [children]

namespace Form

/-- The data of a form is written around its children, in their order. -/
theorem write_around (form : Form α) :
    Around form.children (fun child => (form.write child).compact) := by
  cases form with
  | value literal => exact .constant literal.toJson.compact
  | var reference => exact .constant _
  | branch jump => exact .constant _
  | imports name => exact .constant _
  | spread inner => exact .child
  | returns inner => exact .child
  | tuple elements => exact .list
  | format parts => exact .list
  | object pairs => exact .listOf Around.pair
  | assign assignment =>
      exact .object (.of_eq (.cons (.member .child) (.cons (.member .child) .own)) rfl)
  | call call =>
      refine .object (.of_eq (.cons (.member .child) (.cons (.member .list) .nil)) ?_)
      simp [children]
  | index indexing =>
      refine .object (.of_eq (.cons (.member .child) (.cons (.member .list) .nil)) ?_)
      simp [children]
  | loop repetition =>
      refine .object (.of_eq (.cons (.member .child) (.cons .optional .nil)) ?_)
      simp [children]
  | cond conditional =>
      refine .object (.of_eq (.cons .optional (.cons .optional (.cons .optional .nil))) ?_)
      simp [children]
  | op operation =>
      refine .object (.of_eq (.cons .own (.cons (.member .list) .nil)) ?_)
      simp [children]
  | proto prototype =>
      refine .object (.of_eq (.cons .own (.cons .optional
        (.cons .nonemptyList (.cons .nonemptyList (.cons .nonemptyList .nil))))) ?_)
      simp [children]
  | switch choice =>
      refine .object (.of_eq (.cons (.member .child)
        (.cons (.member (.listOf SwitchCase.write_around))
          (.cons .optional (.cons .optional (.cons .optional .nil))))) ?_)
      simp [children]
  | block sequence =>
      refine .object (.of_eq (.cons (.member .list) .own) ?_)
      simp [children]
  | prog sequence =>
      refine .object (.of_eq (.cons (.member .list) .own) ?_)
      simp [children]
  | func function =>
      refine .object (.of_eq (.cons .own (.cons (.member .list) (.cons (.member .child) .nil))) ?_)
      simp [children]
  | forEach iteration =>
      refine .object (.of_eq (.cons (.member .child) (.cons (.member .child)
        (.cons (.member .child) (.cons .optional (.cons .optional .nil))))) ?_)
      simp [children]

theorem toJson_around (form : Form α) :
    Around form.children (fun child => (form.toJson child).compact) :=
  .object (.member form.write_around)

end Form

end SyntaxTree
