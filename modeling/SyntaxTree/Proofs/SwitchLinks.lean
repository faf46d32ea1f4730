import SyntaxTree.Proofs.Soundness

/-!
# Links of a switch

The check of a switch goes through its cases and stops at the first link that does not lead on. In
a switch that passes, links are followed from any case to one without a link or to the default
body, past each case at most once.
-/

namespace SyntaxTree

variable {α : Type}

/-! ### The first link that does not lead on -/

namespace Form

variable {hasFallback : Bool} {count : Nat}

theorem badLink?_append (position : Nat) (firsts rest : List (SwitchCase α)) :
    badLink? hasFallback count position (firsts ++ rest) =
      (badLink? hasFallback count position firsts).or
        (badLink? hasFallback count (position + firsts.length) rest) := by
  induction firsts generalizing position with
  | nil => rfl
  | cons arm firsts ih =>
      have places : position + (arm :: firsts).length = position + 1 + firsts.length := by
        rw [List.length_cons]
        omega
      rw [places]
      simp only [List.cons_append, badLink?, ih]
      split
      · rfl
      · split
        · rfl
        · split <;> rfl

/-- The case that is found bad has only good ones before it. -/
theorem exists_of_badLink? {position : Nat} {cases : List (SwitchCase α)} {cause : Malformation}
    (found : badLink? hasFallback count position cases = some cause) :
    ∃ before arm after, cases = before ++ arm :: after ∧
      badLink? hasFallback count position before = none ∧
      badLink? hasFallback count (position + before.length) [arm] = some cause := by
  induction cases generalizing position with
  | nil => cases found
  | cons arm rest ih =>
      have split_first := @badLink?_append α hasFallback count position [arm] rest
      rw [List.singleton_append, found] at split_first
      cases first : badLink? hasFallback count position [arm] with
      | some fault =>
          rw [first, Option.some_or] at split_first
          exact ⟨[], arm, rest, rfl, rfl, first.trans split_first.symm⟩
      | none =>
          rw [first, Option.none_or] at split_first
          obtain ⟨before, other, after, rfl, good, bad⟩ := ih split_first.symm
          refine ⟨arm :: before, other, after, rfl, ?_, ?_⟩
          · rw [← List.singleton_append, badLink?_append, first, Option.none_or]
            exact good
          · have places : position + (arm :: before).length =
                position + [arm].length + before.length := by
              simp only [List.length_cons, List.length_nil]
              omega
            rw [places]
            exact bad

/-- What is wrong with a single case: its link goes elsewhere, or to nothing. -/
theorem badLink?_singleton_eq_some {position : Nat} {arm : SwitchCase α} {cause : Malformation}
    (found : badLink? hasFallback count position [arm] = some cause) :
    ∃ next, arm.next = some next ∧
      cause = if next.toNat = position + 1 then .danglingLink position
        else .wrongLink position next := by
  simp only [badLink?] at found
  split at found
  · cases found
  · rename_i next linked
    refine ⟨next, linked, ?_⟩
    split at found
    · rename_i elsewhere
      rw [if_neg elsewhere]
      exact (Option.some.inj found).symm
    · rename_i onward
      split at found
      · rw [if_pos (Decidable.not_not.mp onward)]
        exact (Option.some.inj found).symm
      · cases found

end Form

/-! ### Links that lead on -/

namespace Switch

variable {choice : Switch α}

/--
The case at the position has no link, or one to the next case, or is the last one and links to a
default body that is no sentinel.
-/
def LeadsOn (isSentinel : α → Bool) (choice : Switch α) (position : Nat) : Prop :=
  ∀ arm next, choice.cases[position]? = some arm → arm.next = some next →
    next.toNat = position + 1 ∧
      (position + 1 < choice.cases.length ∨
        ∃ body, choice.fallback = some body ∧ isSentinel body = false)

theorem isSome_kept_iff {isSentinel : α → Bool} {clause : Option α} :
    (Form.dropSentinels.kept isSentinel clause).isSome = true ↔
      ∃ body, clause = some body ∧ isSentinel body = false := by
  cases clause with
  | none => simp [Form.dropSentinels.kept]
  | some body => cases sentinel : isSentinel body <;> simp [Form.dropSentinels.kept, sentinel]

/-- The check of the first cases looks at each of them for a link that leads on. -/
theorem badLink?_take_eq_none_iff (isSentinel : α → Bool) (choice : Switch α) (length : Nat) :
    Form.badLink? (Form.dropSentinels.kept isSentinel choice.fallback).isSome
        choice.cases.length 0 (choice.cases.take length) = none ↔
      ∀ position < length, choice.LeadsOn isSentinel position := by
  rw [Form.badLink?_eq_none_iff]
  simp only [Nat.zero_add, isSome_kept_iff, LeadsOn]
  constructor
  · intro good position within arm next found linked
    have listed : (choice.cases.take length)[position]? = some arm := by
      rw [List.getElem?_take_of_lt within, found]
    obtain ⟨onward, filled⟩ := good position arm listed next linked
    refine ⟨onward, ?_⟩
    have bound := (List.getElem?_eq_some_iff.mp found).1
    rcases Nat.lt_or_ge (position + 1) choice.cases.length with inside | past
    · exact .inl inside
    · exact .inr (filled (by omega))
  · intro good position arm listed next linked
    have within : position < length := by
      have bound := (List.getElem?_eq_some_iff.mp listed).1
      rw [List.length_take] at bound
      omega
    rw [List.getElem?_take_of_lt within] at listed
    obtain ⟨onward, follows⟩ := good position within arm next listed linked
    refine ⟨onward, fun past => follows.resolve_left ?_⟩
    omega

/-- Behind the last case there is nothing that could fail to lead on. -/
theorem badLink?_eq_none_iff_leadsOn (isSentinel : α → Bool) (choice : Switch α) :
    Form.badLink? (Form.dropSentinels.kept isSentinel choice.fallback).isSome
        choice.cases.length 0 choice.cases = none ↔
      ∀ position, choice.LeadsOn isSentinel position := by
  have all := badLink?_take_eq_none_iff isSentinel choice choice.cases.length
  rw [List.take_length] at all
  refine all.trans ⟨fun good position => ?_, fun good position _ => good position⟩
  rcases Nat.lt_or_ge position choice.cases.length with inside | past
  · exact good position inside
  · intro arm next found
    rw [List.getElem?_eq_none past] at found
    cases found

/-- The fault that is found is that of the first case that does not lead on. -/
theorem exists_first_of_badLink? {isSentinel : α → Bool} {choice : Switch α}
    {cause : Malformation}
    (found : Form.badLink? (Form.dropSentinels.kept isSentinel choice.fallback).isSome
      choice.cases.length 0 choice.cases = some cause) :
    ∃ position arm next, choice.cases[position]? = some arm ∧ arm.next = some next ∧
      ¬choice.LeadsOn isSentinel position ∧
      (∀ earlier < position, choice.LeadsOn isSentinel earlier) ∧
      cause = if next.toNat = position + 1 then .danglingLink position
        else .wrongLink position next := by
  have checks (length : Nat) := badLink?_take_eq_none_iff isSentinel choice length
  obtain ⟨before, arm, after, split, good, bad⟩ := Form.exists_of_badLink? found
  rw [Nat.zero_add] at bad
  obtain ⟨next, linked, named⟩ := Form.badLink?_singleton_eq_some bad
  have place : choice.cases[before.length]? = some arm := by simp [split]
  have firsts : choice.cases.take before.length = before := by simp [split]
  have earlier := (checks before.length).mp (firsts.symm ▸ good)
  refine ⟨before.length, arm, next, place, linked, fun leads => ?_, earlier, named⟩
  -- If the case led on as well, the check would not stop behind it.
  have passed := (checks (before.length + 1)).mpr (fun position within => by
    rcases Nat.lt_or_eq_of_le (Nat.le_of_lt_succ within) with here | rfl
    · exact earlier position here
    · exact leads)
  rw [List.take_add_one, firsts, place, Option.toList_some, Form.badLink?_append, good,
    Option.none_or, Nat.zero_add, bad] at passed
  cases passed

/-! ### Following links -/

/--
Following links from a position visits the cases at the listed positions, and ends at the last of
them, which has no link, or behind it at the default body.
-/
inductive Route (choice : Switch α) : Nat → List Nat → Option α → Prop
  | rests {position : Nat} {arm : SwitchCase α} (found : choice.cases[position]? = some arm)
      (unlinked : arm.next = none) : Route choice position [position] none
  | falls {position : Nat} {arm : SwitchCase α} {next : UInt64} {body : α}
      (found : choice.cases[position]? = some arm) (linked : arm.next = some next)
      (behind : next.toNat = choice.cases.length) (there : choice.fallback = some body) :
      Route choice position [position] (some body)
  | goes {position : Nat} {arm : SwitchCase α} {next : UInt64} {visited : List Nat}
      {ending : Option α} (found : choice.cases[position]? = some arm)
      (linked : arm.next = some next) (further : Route choice next.toNat visited ending) :
      Route choice position (position :: visited) ending

namespace Linked

/-- From every case there is a way to an end, by induction on the cases behind it. -/
theorem exists_route (linked : choice.Linked) {position : Nat}
    (within : position < choice.cases.length) :
    ∃ visited ending, choice.Route position visited ending := by
  induction left : choice.cases.length - position generalizing position with
  | zero => omega
  | succ left ih =>
      have found : choice.cases[position]? = some choice.cases[position] :=
        List.getElem?_eq_getElem within
      cases link : choice.cases[position].next with
      | none => exact ⟨_, _, .rests found link⟩
      | some next =>
          obtain ⟨onward, filled⟩ := linked position _ found next link
          rcases Nat.lt_or_ge (position + 1) choice.cases.length with inside | past
          · have further := ih inside (by omega)
            rw [← onward] at further
            obtain ⟨visited, ending, route⟩ := further
            exact ⟨_, _, .goes found link route⟩
          · have behind : next.toNat = choice.cases.length := by omega
            obtain ⟨body, there⟩ := Option.isSome_iff_exists.mp (filled behind)
            exact ⟨_, _, .falls found link behind there⟩

/-- A way starts where it says and goes up, and there is room for it behind its start. -/
theorem route_ascends (linked : choice.Linked) {position : Nat} {visited : List Nat}
    {ending : Option α} (route : choice.Route position visited ending) :
    (∀ place ∈ visited, position ≤ place) ∧ visited.Pairwise (· < ·) ∧
      visited.length + position ≤ choice.cases.length := by
  induction route with
  | rests found _ | falls found _ _ _ =>
      have bound := (List.getElem?_eq_some_iff.mp found).1
      refine ⟨by simp, by simp, ?_⟩
      rw [List.length_singleton]
      omega
  | goes found link _ ih =>
      obtain ⟨onward, -⟩ := linked _ _ found _ link
      rw [onward] at ih
      obtain ⟨behind, ascends, room⟩ := ih
      refine ⟨?_, ?_, ?_⟩
      · rw [List.forall_mem_cons]
        exact ⟨Nat.le_refl _, fun place member => Nat.le_of_succ_le (behind place member)⟩
      · exact List.pairwise_cons.mpr ⟨behind, ascends⟩
      · rw [List.length_cons]
        omega

end Linked

end Switch

namespace Node

theorem exists_ofForm_eq_ok_iff {form : Form Node} :
    (∃ node, ofForm form = .ok node) ↔ (form.dropSentinels isSentinel).fault? = none := by
  constructor
  · rintro ⟨node, built⟩
    exact (form_of_ofForm built).2
  · intro faultless
    simp only [ofForm, faultless]
    exact ⟨_, rfl⟩

theorem ofForm_eq_error_iff {form : Form Node} {cause : Malformation} :
    ofForm form = .error cause ↔ (form.dropSentinels isSentinel).fault? = some cause := by
  simp only [ofForm]
  cases (form.dropSentinels isSentinel).fault? with
  | none => simp only [reduceCtorEq]
  | some reported => rw [Except.error.injEq, Option.some.injEq]

/--
A switch is built exactly when every case leads on. Otherwise the first case that does not is
reported, with the place that its link names or, where that is the right one, with what is missing
there. In a switch that is built, following links goes up from any case and comes to an end.
-/
theorem ofForm_switch (choice : Switch Node) :
    ((∃ node, ofForm (.switch choice) = .ok node) ↔
        ∀ position, choice.LeadsOn isSentinel position) ∧
      (∀ cause, ofForm (.switch choice) = .error cause →
        cause.kind = .switch ∧ ∃ position arm next, choice.cases[position]? = some arm ∧
          arm.next = some next ∧ ¬choice.LeadsOn isSentinel position ∧
          (∀ earlier < position, choice.LeadsOn isSentinel earlier) ∧
          cause = if next.toNat = position + 1 then .danglingLink position
            else .wrongLink position next) ∧
      ∀ node, ofForm (.switch choice) = .ok node →
        ∃ accepted, node.form = .switch accepted ∧ accepted.cases = choice.cases ∧
          ∀ start < accepted.cases.length,
            (∃ visited ending, accepted.Route start visited ending) ∧
            ∀ visited ending, accepted.Route start visited ending →
              visited.Pairwise (· < ·) ∧ visited.length ≤ accepted.cases.length := by
  have fault : ((Form.switch choice).dropSentinels isSentinel).fault? =
      Form.badLink? (Form.dropSentinels.kept isSentinel choice.fallback).isSome
        choice.cases.length 0 choice.cases := rfl
  refine ⟨?_, ?_, ?_⟩
  · rw [← choice.badLink?_eq_none_iff_leadsOn, ← fault]
    exact exists_ofForm_eq_ok_iff
  · intro cause refused
    rw [ofForm_eq_error_iff, fault] at refused
    obtain ⟨position, arm, next, place, linked, stray, earlier, named⟩ :=
      Switch.exists_first_of_badLink? refused
    refine ⟨?_, position, arm, next, place, linked, stray, earlier, named⟩
    rw [named]
    split <;> rfl
  · intro node built
    obtain ⟨rfl, faultless⟩ := form_of_ofForm built
    refine ⟨_, rfl, rfl, fun start within => ?_⟩
    have linked := Form.linked_iff.mpr faultless
    refine ⟨linked.exists_route within, fun visited ending route => ?_⟩
    obtain ⟨-, ascends, room⟩ := linked.route_ascends route
    exact ⟨ascends, Nat.le_of_add_right_le room⟩

/--
Two cases that fall through, to the next one and to the default body. Without the default body the
second of them is reported, although both link to the position behind them.
-/
theorem ofForm_switch_falling :
    let arm (next : UInt64) : SwitchCase Node := ⟨none, "==", none, sentinel, some next⟩
    let choice : Switch Node := ⟨sentinel, [arm 1, arm 2], some (prog [] []), none, none⟩
    let bare : Switch Node := { choice with fallback := some sentinel }
    choice.LeadsOn isSentinel 1 ∧ ¬bare.LeadsOn isSentinel 1 ∧
      ofForm (.switch bare) = .error (.danglingLink 1) ∧
      ∃ node accepted, ofForm (.switch choice) = .ok node ∧ node.form = .switch accepted ∧
        ∃ visited ending, accepted.Route 0 visited ending ∧ visited.Pairwise (· < ·) := by
  intro arm choice bare
  obtain ⟨succeeds, -, routes⟩ := ofForm_switch choice
  have built : ofForm (.switch choice) = .ok (ofCheckedForm (.switch choice)) := rfl
  have refused : ofForm (.switch bare) = .error (.danglingLink 1) := rfl
  have leads := succeeds.mp ⟨_, built⟩ 1
  obtain ⟨-, position, _, next, place, linked, stray, -, named⟩ :=
    (ofForm_switch bare).2.1 _ refused
  have here : position = 1 := by
    split at named
    · exact (Malformation.danglingLink.inj named).symm
    · cases named
  obtain ⟨accepted, form, same, along⟩ := routes _ built
  have within : 0 < accepted.cases.length := by rw [same]; decide
  obtain ⟨⟨visited, ending, route⟩, ascends⟩ := along 0 within
  exact ⟨leads, here ▸ stray, refused, _, accepted, built, form, visited, ending, route,
    (ascends visited ending route).1⟩

end Node

end SyntaxTree
