import SyntaxTree.Proofs.Json.Spelling
import SyntaxTree.Proofs.Json.Yields

/-!
# How deep values are written

A value is written with an empty array where it was read with nothing, so it may nest one level
deeper than the text it was read from, but no deeper than that: once empty arrays are not counted,
what is written of a value nests within the levels that its reader had. This is shown of codecs
part by part, and of a record when it holds of its fields.
-/

namespace SyntaxTree.Json

mutual

/-- How many arrays and objects are open at once at most, where empty arrays do not count. -/
def filledDepth : Json → Nat
  | .array elements => if elements.isEmpty then 0 else filledDepths elements + 1
  | .object members => filledMemberDepths members + 1
  | _ => 0

def filledDepths : List Json → Nat
  | [] => 0
  | element :: rest => max (filledDepth element) (filledDepths rest)

def filledMemberDepths : List (String × Json) → Nat
  | [] => 0
  | (_, value) :: rest => max (filledDepth value) (filledMemberDepths rest)

end

mutual

/-- Counting empty arrays adds one level at most, since nothing stands in them. -/
theorem depth_le_filledDepth : (json : Json) → json.depth ≤ json.filledDepth + 1
  | .array [] => Nat.le_refl 1
  | .array (element :: rest) => by
      have deepest := depths_le_filledDepths (element :: rest)
      simp only [depth, filledDepth, List.isEmpty_cons, Bool.false_eq_true, if_false]
      omega
  | .object members => by
      have deepest := memberDepths_le_filledMemberDepths members
      simp only [depth, filledDepth]
      omega
  | .null | .bool _ | .integer _ | .real _ | .text _ => Nat.zero_le _

theorem depths_le_filledDepths :
    (elements : List Json) → depths elements ≤ filledDepths elements + 1
  | [] => Nat.zero_le _
  | element :: rest => by
      have first := depth_le_filledDepth element
      have others := depths_le_filledDepths rest
      simp only [depths, filledDepths]
      omega

theorem memberDepths_le_filledMemberDepths :
    (members : List (String × Json)) → memberDepths members ≤ filledMemberDepths members + 1
  | [] => Nat.zero_le _
  | (_, value) :: rest => by
      have first := depth_le_filledDepth value
      have others := memberDepths_le_filledMemberDepths rest
      simp only [memberDepths, filledMemberDepths]
      omega

end

theorem filledDepths_le_iff {elements : List Json} {levels : Nat} :
    filledDepths elements ≤ levels ↔ ∀ element ∈ elements, element.filledDepth ≤ levels := by
  induction elements with
  | nil => simp [filledDepths]
  | cons element rest ih => rw [filledDepths, Nat.max_le, ih, List.forall_mem_cons]

theorem filledMemberDepths_le_iff {members : List (String × Json)} {levels : Nat} :
    filledMemberDepths members ≤ levels ↔ ∀ member ∈ members, member.2.filledDepth ≤ levels := by
  induction members with
  | nil => simp [filledMemberDepths]
  | cons member rest ih => rw [filledMemberDepths, Nat.max_le, ih, List.forall_mem_cons]

theorem filledDepth_array_le {elements : List Json} {levels : Nat}
    (within : ∀ element ∈ elements, element.filledDepth < levels) :
    (array elements).filledDepth ≤ levels := by
  cases elements with
  | nil => exact Nat.zero_le _
  | cons element rest =>
      have some_level := within element List.mem_cons_self
      have deepest : filledDepths (element :: rest) ≤ levels - 1 := by
        apply filledDepths_le_iff.mpr
        intro inner member
        have := within inner member
        omega
      simp only [filledDepth, List.isEmpty_cons, Bool.false_eq_true, if_false]
      omega

theorem filledDepth_object_le_iff {members : List (String × Json)} {levels : Nat} :
    (object members).filledDepth ≤ levels + 1 ↔
      ∀ member ∈ members, member.2.filledDepth ≤ levels := by
  rw [← filledMemberDepths_le_iff, filledDepth]
  omega

/-- An object with fewer members is no deeper. -/
theorem filledDepth_object_mono {fewer members : List (String × Json)}
    (among : ∀ member ∈ fewer, member ∈ members) :
    (object fewer).filledDepth ≤ (object members).filledDepth := by
  have whole : filledMemberDepths members ≤ filledMemberDepths members := Nat.le_refl _
  rw [filledMemberDepths_le_iff] at whole
  apply filledDepth_object_le_iff.mpr
  intro member inside
  exact whole member (among member inside)

/-! ### Codecs -/

variable {α β : Type}

/-- What is read is written within the levels it was read in, but for empty arrays. -/
def Codec.Contained (codec : Codec α) : Prop :=
  ∀ levels, codec.read.Yields levels (fun value => (codec.write value).filledDepth ≤ levels)

/-- What the field takes, or stands for when it is left out, is written within the levels. -/
def Field.Contained (field : Field) : Prop :=
  ∀ levels, field.Yields levels (fun value => ∀ json ∈ field.write value, json.filledDepth ≤ levels)

namespace Codec.Contained

variable {codec : Codec α}

theorem of_flat (flat : ∀ value, (codec.write value).filledDepth = 0) : codec.Contained := by
  intro levels
  refine (Reader.Yields.anything _).mono (fun value _ => ?_)
  rw [flat value]
  exact Nat.zero_le levels

theorem list (element : codec.Contained) : (Codec.list codec).Contained := by
  intro levels
  have elements : (Reader.list codec.read).Yields levels
      (fun values => ∀ value ∈ values, (codec.write value).filledDepth < levels) := by
    refine Reader.Yields.list (fun inner fewer => (element inner).mono (fun value within => ?_))
    omega
  refine elements.mono (fun values within => ?_)
  apply filledDepth_array_le
  intro json member
  obtain ⟨value, inside, rfl⟩ := List.mem_map.mp member
  exact within value inside

theorem pair {other : Codec β} (first : codec.Contained) (second : other.Contained) :
    (Codec.pair codec other).Contained := by
  intro levels
  have below {γ : Type} {part : Codec γ} (contained : part.Contained) (inner : Nat)
      (fewer : levels = inner + 1) :
      part.read.Yields inner (fun value => (part.write value).filledDepth < levels) := by
    refine (contained inner).mono (fun value within => ?_)
    omega
  refine (Reader.Yields.pair (below first) (below second)).mono (fun both within => ?_)
  apply filledDepth_array_le
  simpa using within

end Codec.Contained

namespace Field

variable {name : String} {codec : Codec α}

theorem required_contained (contained : codec.Contained) : (required name codec).Contained := by
  intro levels
  constructor
  · exact (contained levels).mono (fun value within => by simpa [required] using within)
  · exact nofun

theorem defaulting_contained (contained : codec.Contained) {default : α}
    (flat : (codec.write default).filledDepth = 0) :
    (defaulting name codec default).Contained := by
  intro levels
  constructor
  · exact (contained levels).mono (fun value within => by simpa [defaulting] using within)
  · intro value equal
    cases equal
    simp [defaulting, flat]

theorem optional_contained (contained : codec.Contained) : (optional name codec).Contained := by
  intro levels
  constructor
  · refine (contained levels).option.mono (fun clause within json written => ?_)
    obtain ⟨value, given, rfl⟩ := Option.map_eq_some_iff.mp written
    exact within value given
  · intro clause equal
    cases equal
    exact nofun

theorem list_contained (contained : codec.Contained) : (list name codec).Contained :=
  defaulting_contained contained.list rfl

theorem nonemptyList_contained (contained : codec.Contained) :
    (nonemptyList name codec).Contained := by
  intro levels
  constructor
  · refine (contained.list levels).mono (fun values within json written => ?_)
    simp only [nonemptyList] at written
    split at written
    · cases written
    · cases written
      exact within
  · intro values equal
    cases equal
    exact nofun

end Field

/-- What is read of contained fields is written within the levels. -/
theorem Guaranteed.contained {fields : List Field}
    (contained : ∀ field ∈ fields, field.Contained) (levels : Nat) :
    ∃ properties, Guaranteed levels fields properties ∧
      ∀ values, properties values →
        ∀ member ∈ Record.members fields values, member.2.filledDepth ≤ levels := by
  induction fields with
  | nil => exact ⟨_, .nil, nofun⟩
  | cons field fields ih =>
      obtain ⟨first, others⟩ := List.forall_mem_cons.mp contained
      obtain ⟨properties, guaranteed, covers⟩ := ih others
      refine ⟨_, .cons (first levels) guaranteed, ?_⟩
      rintro ⟨value, values⟩ ⟨within, holds⟩ member inside
      rcases List.mem_append.mp inside with here | later
      · obtain ⟨json, written, rfl⟩ := List.mem_map.mp here
        exact within json (Option.mem_toList.mp written)
      · exact covers values holds member later

/-- A record that keeps the values of its fields is contained when its fields are. -/
theorem Record.contained {σ : Type} (record : Record σ)
    (keeps : ∀ values, record.parts (record.assemble values) = values)
    (contained : ∀ field ∈ record.fields, field.Contained) : record.codec.Contained := by
  intro levels
  cases levels with
  | zero =>
      intro lexemes value rest taken
      simp only [codec, read] at taken
      split at taken <;> cases taken
  | succ levels =>
      obtain ⟨properties, guaranteed, covers⟩ := Guaranteed.contained contained levels
      have inside : ∀ inner, levels + 1 = inner + 1 →
          Guaranteed inner record.fields properties := by
        intro inner fewer
        cases fewer
        exact guaranteed
      refine record.read_yields inside (fun values holds => ?_)
      apply filledDepth_object_le_iff.mpr
      rw [keeps]
      exact covers values holds

end SyntaxTree.Json
