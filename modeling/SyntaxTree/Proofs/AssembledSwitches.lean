import SyntaxTree.Proofs.AssemblyRuns
import SyntaxTree.Proofs.SwitchLinks

/-!
# Switches that are assembled

What finishing an assembly gives depends on the steps alone: on the cases in the order in which
they were added, and on the last token, default body and clauses that were given. Cases are linked
by their positions, so only the last one can lead nowhere.
-/

namespace SyntaxTree

namespace SwitchStep

variable {β : Type}

/-- The case that a step adds, and whether it falls through. -/
def added? : SwitchStep → Option (SwitchCase Node × Bool)
  | .push arm fallsThrough => some (arm, fallsThrough)
  | .endingCase operator comparand body => some (.ending operator comparand body, false)
  | .fallingCase operator comparand body => some (.ending operator comparand body, true)
  | _ => none

def token? : SwitchStep → Option Token
  | .withToken token => some token
  | _ => none

def fallback? : SwitchStep → Option Node
  | .withFallback body => some body
  | _ => none

def consequent? : SwitchStep → Option Node
  | .withConsequent body => some body
  | _ => none

def otherwise? : SwitchStep → Option Node
  | .withOtherwise body => some body
  | _ => none

/-- The cases that the steps add, in order. -/
def added (steps : List SwitchStep) : List (SwitchCase Node × Bool) := steps.filterMap added?

/-- What was given last, if it was given at all. -/
def last (given? : SwitchStep → Option β) (steps : List SwitchStep) : Option β :=
  (steps.filterMap given?).getLast?

theorem last_cons (given? : SwitchStep → Option β) (step : SwitchStep) (rest : List SwitchStep) :
    last given? (step :: rest) = (last given? rest).or (given? step) := by
  unfold last
  cases given : given? step with
  | none => rw [List.filterMap_cons_none given, Option.or_none]
  | some value =>
      rw [List.filterMap_cons_some given, List.getLast?_cons]
      cases (rest.filterMap given?).getLast? <;> rfl

end SwitchStep

namespace SwitchAssembly

open SwitchStep (added added? last last_cons)

variable {β : Type}

/-! ### Runs -/

theorem run_cons (assembly : SwitchAssembly) (step : SwitchStep) (rest : List SwitchStep) :
    assembly.run (step :: rest) = (step.apply assembly).run rest :=
  rfl

/-- A part that every step replaces or leaves alone holds at the end what was given last. -/
theorem part_run (part : SwitchAssembly → Option β) (given? : SwitchStep → Option β)
    (applied : ∀ assembly step, part (step.apply assembly) = (given? step).or (part assembly))
    (assembly : SwitchAssembly) (steps : List SwitchStep) :
    part (assembly.run steps) = (last given? steps).or (part assembly) := by
  induction steps generalizing assembly with
  | nil => rfl
  | cons step rest ih => rw [run_cons, ih, applied, last_cons, Option.or_assoc]

theorem token_run (assembly : SwitchAssembly) (steps : List SwitchStep) :
    (assembly.run steps).token = (last SwitchStep.token? steps).or assembly.token :=
  part_run token _ (fun _ step => by cases step <;> rfl) assembly steps

theorem fallback_run (assembly : SwitchAssembly) (steps : List SwitchStep) :
    (assembly.run steps).fallback = (last SwitchStep.fallback? steps).or assembly.fallback :=
  part_run fallback _ (fun _ step => by cases step <;> rfl) assembly steps

theorem consequent_run (assembly : SwitchAssembly) (steps : List SwitchStep) :
    (assembly.run steps).consequent = (last SwitchStep.consequent? steps).or assembly.consequent :=
  part_run consequent _ (fun _ step => by cases step <;> rfl) assembly steps

theorem otherwise_run (assembly : SwitchAssembly) (steps : List SwitchStep) :
    (assembly.run steps).otherwise = (last SwitchStep.otherwise? steps).or assembly.otherwise :=
  part_run otherwise _ (fun _ step => by cases step <;> rfl) assembly steps

theorem scrutinee_run (assembly : SwitchAssembly) (steps : List SwitchStep) :
    (assembly.run steps).scrutinee = assembly.scrutinee := by
  induction steps generalizing assembly with
  | nil => rfl
  | cons step rest ih =>
      rw [run_cons, ih]
      cases step <;> rfl

/-- The case as an assembly keeps it, without the link that it came with. -/
def unlinked (entry : SwitchCase Node × Bool) : SwitchCase Node × Bool :=
  ({ entry.1 with next := none }, entry.2)

theorem cases_run (assembly : SwitchAssembly) (steps : List SwitchStep) :
    (assembly.run steps).cases = assembly.cases ++ (added steps).map unlinked := by
  induction steps generalizing assembly with
  | nil => exact (List.append_nil _).symm
  | cons step rest ih =>
      have applied : (step.apply assembly).cases =
          assembly.cases ++ (added? step).toList.map unlinked := by
        cases step <;> simp only [SwitchStep.apply, added?, withToken, push, endingCase,
          fallingCase, withFallback, withConsequent, withOtherwise, unlinked, Option.toList_some,
          Option.toList_none, List.map_cons, List.map_nil, List.append_nil]
      rw [run_cons, ih, applied, List.append_assoc, ← List.map_append]
      congr 2
      unfold added
      cases given : added? step with
      | none => rw [List.filterMap_cons_none given]; rfl
      | some entry => rw [List.filterMap_cons_some given]; rfl

/-! ### Links by position -/

/-- The case at a position, linked to the one behind it if it falls through. -/
def linkedAt (position : Nat) (entry : SwitchCase Node × Bool) : SwitchCase Node :=
  { entry.1 with next := if entry.2 then some (position + 1).toUInt64 else none }

theorem linked_unlinked (position : Nat) (entries : List (SwitchCase Node × Bool)) :
    linked position (entries.map unlinked) =
      entries.mapIdx (fun offset entry => linkedAt (position + offset) entry) := by
  induction entries generalizing position with
  | nil => rfl
  | cons entry rest ih =>
      have further (offset : Nat) : position + 1 + offset = position + (offset + 1) := by omega
      rw [List.mapIdx_cons, List.map_cons, unlinked, linked, ih]
      simp only [further, Nat.add_zero]
      cases falls : entry.2 <;> simp [linkedAt, falls]

variable {entries : List (SwitchCase Node × Bool)}

/-- Where positions are 64 bits wide, the link of a case is the position behind its own. -/
theorem getElem?_linked (fits : entries.length < 2 ^ 64) {position : Nat}
    {entry : SwitchCase Node × Bool} (found : entries[position]? = some entry) :
    ∃ next, (linked 0 (entries.map unlinked))[position]? =
        some { entry.1 with next := next } ∧
      next.map UInt64.toNat = if entry.2 then some (position + 1) else none := by
  have bound := (List.getElem?_eq_some_iff.mp found).1
  have within : position + 1 < UInt64.size := Nat.lt_of_le_of_lt bound fits
  have exact : (position + 1).toUInt64.toNat = position + 1 := UInt64.toNat_ofNat_of_lt within
  rw [linked_unlinked, List.getElem?_mapIdx, found, Nat.zero_add]
  refine ⟨if entry.2 then some (position + 1).toUInt64 else none, rfl, ?_⟩
  split
  · rw [Option.map_some, exact]
  · rfl

theorem length_linked (entries : List (SwitchCase Node × Bool)) :
    (linked 0 (entries.map unlinked)).length = entries.length := by
  rw [linked_unlinked, List.length_mapIdx]

/-! ### Finishing -/

theorem finish_eq (assembly : SwitchAssembly) :
    assembly.finish = (Node.ofForm assembly.form).map (fun switch =>
      match assembly.token with
      | none => switch
      | some token => switch.withToken token) := by
  unfold finish form
  cases Node.ofForm _ with
  | error cause => rfl
  | ok switch => cases assembly.token <;> rfl

/-- The form at the end of a run, from the steps alone. -/
theorem form_run (scrutinee : Node) (steps : List SwitchStep) :
    ((ofScrutinee scrutinee).run steps).form =
      .switch ⟨scrutinee, linked 0 ((added steps).map unlinked),
        last SwitchStep.fallback? steps, last SwitchStep.consequent? steps,
        last SwitchStep.otherwise? steps⟩ := by
  rw [form, scrutinee_run, cases_run, fallback_run, consequent_run, otherwise_run]
  simp only [ofScrutinee, List.nil_append, Option.or_none]

variable {fallback : Option Node} {scrutinee : Node} {consequent otherwise : Option Node}

/-- A case that was linked by its position leads on, unless it is the last one and falls through
where there is no default body. -/
theorem leadsOn_linked (fits : entries.length < 2 ^ 64) (position : Nat) :
    Switch.LeadsOn Node.isSentinel
        ⟨scrutinee, linked 0 (entries.map unlinked), fallback, consequent, otherwise⟩ position ↔
      ((∃ arm, entries[position]? = some (arm, true)) → position + 1 = entries.length →
        ∃ body, fallback = some body ∧ body.isSentinel = false) := by
  simp only [Switch.LeadsOn, length_linked]
  constructor
  · rintro leads ⟨arm, found⟩ ends
    obtain ⟨next, listed, place⟩ := getElem?_linked fits found
    rw [if_pos rfl] at place
    obtain ⟨link, rfl, -⟩ := Option.map_eq_some_iff.mp place
    obtain ⟨-, follows⟩ := leads _ link listed rfl
    refine follows.resolve_left ?_
    omega
  · intro filled arm next found linked
    have bound := (List.getElem?_eq_some_iff.mp found).1
    rw [length_linked] at bound
    obtain ⟨⟨first, falls⟩, entry⟩ : ∃ entry, entries[position]? = some entry :=
      ⟨_, List.getElem?_eq_getElem bound⟩
    obtain ⟨link, listed, place⟩ := getElem?_linked fits entry
    rw [found] at listed
    cases listed
    change link = some next at linked
    rw [linked, Option.map_some] at place
    cases falls with
    | false => cases place
    | true =>
        refine ⟨Option.some.inj place, ?_⟩
        rcases Nat.lt_or_ge (position + 1) entries.length with inside | past
        · exact .inl inside
        · exact .inr (filled ⟨first, entry⟩ (by omega))

/-- The last case falls through, and there is no default body to fall into but a sentinel. -/
def Stranded (entries : List (SwitchCase Node × Bool)) (fallback : Option Node) : Prop :=
  (∃ arm, entries.getLast? = some (arm, true)) ∧
    ∀ body, fallback = some body → body.isSentinel = true

/-- Only the last case may fail to lead on. -/
theorem leadsOn_linked_or_stranded (fits : entries.length < 2 ^ 64) (position : Nat) :
    Switch.LeadsOn Node.isSentinel
        ⟨scrutinee, linked 0 (entries.map unlinked), fallback, consequent, otherwise⟩ position ∨
      position = entries.length - 1 ∧ Stranded entries fallback := by
  rw [leadsOn_linked fits, Classical.or_iff_not_imp_left]
  intro fails
  obtain ⟨⟨arm, found⟩, fails⟩ := Classical.not_imp.mp fails
  obtain ⟨ends, unfilled⟩ := Classical.not_imp.mp fails
  have last : position = entries.length - 1 := by omega
  refine ⟨last, ⟨arm, ?_⟩, fun body given => ?_⟩
  · rw [List.getLast?_eq_getElem?, ← last, found]
  · cases real : body.isSentinel with
    | true => rfl
    | false => exact absurd ⟨body, given, real⟩ unfilled

theorem not_leadsOn_linked (fits : entries.length < 2 ^ 64) (stranded : Stranded entries fallback) :
    ¬Switch.LeadsOn Node.isSentinel
      ⟨scrutinee, linked 0 (entries.map unlinked), fallback, consequent, otherwise⟩
      (entries.length - 1) := by
  obtain ⟨⟨arm, falls⟩, vacant⟩ := stranded
  rw [List.getLast?_eq_getElem?] at falls
  have bound := (List.getElem?_eq_some_iff.mp falls).1
  rw [leadsOn_linked fits]
  intro filled
  obtain ⟨body, given, real⟩ := filled ⟨arm, falls⟩ (by omega)
  rw [vacant body given] at real
  cases real

/-- The case that is reported is the last one, for the lack of what it would fall into. -/
theorem cause_of_badLink?_linked (fits : entries.length < 2 ^ 64) {cause : Malformation}
    (found : Form.badLink? (Form.dropSentinels.kept Node.isSentinel fallback).isSome
      (linked 0 (entries.map unlinked)).length 0 (linked 0 (entries.map unlinked)) = some cause) :
    Stranded entries fallback ∧ cause = .danglingLink (entries.length - 1) := by
  let choice : Switch Node :=
    ⟨Node.sentinel, linked 0 (entries.map unlinked), fallback, none, none⟩
  obtain ⟨position, arm, next, place, link, stray, -, named⟩ :=
    @Switch.exists_first_of_badLink? Node Node.isSentinel choice cause found
  obtain ⟨last, stranded⟩ := (leadsOn_linked_or_stranded fits position).resolve_left stray
  obtain ⟨⟨first, falls⟩, -⟩ := id stranded
  rw [List.getLast?_eq_getElem?, ← last] at falls
  obtain ⟨onward, listed, target⟩ := getElem?_linked fits falls
  have same : some arm = some { first with next := onward } := place.symm.trans listed
  cases same
  change onward = some next at link
  rw [link, Option.map_some, if_pos rfl] at target
  rw [if_pos (Option.some.inj target), last] at named
  exact ⟨stranded, named⟩

/--
Finishing fails exactly when the last case falls through and the default body that was given last
is a sentinel or was not given, and reports that case. Otherwise the switch has the cases in the
order in which they were added, those that fall through linked to the position behind theirs, and
the clauses and the token that were given last. Positions have 64 bits, and no list that memory can
hold has a position past those.
-/
theorem finish_run (scrutinee : Node) (steps : List SwitchStep)
    (fits : (added steps).length < 2 ^ 64) :
    ((∃ cause, ((ofScrutinee scrutinee).run steps).finish = .error cause) ↔
        (∃ arm, (added steps).getLast? = some (arm, true)) ∧
          ∀ body, last SwitchStep.fallback? steps = some body → body.isSentinel = true) ∧
      (∀ cause, ((ofScrutinee scrutinee).run steps).finish = .error cause →
        cause.kind = .switch ∧ cause = .danglingLink ((added steps).length - 1)) ∧
      ∀ node, ((ofScrutinee scrutinee).run steps).finish = .ok node →
        node.token? = last SwitchStep.token? steps ∧
          ∃ choice : Switch Node, node.form = .switch choice ∧ choice.scrutinee = scrutinee ∧
            choice.cases.length = (added steps).length ∧
            (∀ (position : Nat) (arm : SwitchCase Node) (falls : Bool),
              (added steps)[position]? = some (arm, falls) →
              ∃ next : Option UInt64, choice.cases[position]? = some { arm with next := next } ∧
                next.map UInt64.toNat = if falls then some (position + 1) else none) ∧
            choice.fallback = (last SwitchStep.fallback? steps).filter (!·.isSentinel) ∧
            choice.consequent = (last SwitchStep.consequent? steps).filter (!·.isSentinel) ∧
            choice.otherwise = (last SwitchStep.otherwise? steps).filter (!·.isSentinel) := by
  let choice : Switch Node := ⟨scrutinee, linked 0 ((added steps).map unlinked),
    last SwitchStep.fallback? steps, last SwitchStep.consequent? steps,
    last SwitchStep.otherwise? steps⟩
  have finished : ((ofScrutinee scrutinee).run steps).finish =
      (Node.ofForm (.switch choice)).map (fun switch =>
        match last SwitchStep.token? steps with
        | none => switch
        | some token => switch.withToken token) := by
    rw [finish_eq, form_run, token_run]
    simp only [ofScrutinee, Option.or_none]
    rfl
  have fault : ((Form.switch choice).dropSentinels Node.isSentinel).fault? =
      Form.badLink? (Form.dropSentinels.kept Node.isSentinel choice.fallback).isSome
        choice.cases.length 0 choice.cases := rfl
  rw [finished]
  cases built : Node.ofForm (.switch choice) with
  | error cause =>
      rw [Node.ofForm_eq_error_iff, fault] at built
      obtain ⟨stranded, named⟩ := cause_of_badLink?_linked fits built
      refine ⟨iff_of_true ⟨cause, rfl⟩ stranded, ?_, nofun⟩
      rintro _ ⟨⟩
      exact ⟨by rw [named]; rfl, named⟩
  | ok switch =>
      obtain ⟨rfl, faultless⟩ := Node.form_of_ofForm built
      rw [fault, choice.badLink?_eq_none_iff_leadsOn] at faultless
      refine ⟨iff_of_false nofun (fun stranded => ?_), nofun, ?_⟩
      · exact not_leadsOn_linked fits stranded (faultless _)
      · rintro node ⟨⟩
        let kept := Form.dropSentinels.kept Node.isSentinel
        refine ⟨?_, ⟨scrutinee, choice.cases, kept choice.fallback, kept choice.consequent,
          kept choice.otherwise⟩, ?_, rfl, length_linked _, fun position arm falls found => ?_,
          rfl, rfl, rfl⟩
        · cases last SwitchStep.token? steps <;> rfl
        · cases last SwitchStep.token? steps <;> rfl
        · exact getElem?_linked fits found

/--
A stale link is forgotten, the default body that counts is the one given last, and the token too.
-/
theorem finish_run_stale_link :
    let arm (next : Option UInt64) : SwitchCase Node := ⟨none, "==", none, Node.sentinel, next⟩
    let steps : List SwitchStep := [.withToken ⟨.int 1, 0, 0⟩, .push (arm (some 7)) true,
      .withFallback (Node.prog [] []), .fallingCase "<" none Node.sentinel,
      .withToken ⟨.int 2, 0, 0⟩]
    (added steps).length < 2 ^ 64 ∧
      (∃ node, ((ofScrutinee Node.sentinel).run steps).finish = .ok node ∧
        node.token? = some ⟨.int 2, 0, 0⟩ ∧ ∃ choice : Switch Node, node.form = .switch choice ∧
          choice.cases[0]? = some (arm (some 1))) ∧
      ((ofScrutinee Node.sentinel).run (steps ++ [.withFallback Node.sentinel])).finish =
        .error (.danglingLink 1) := by
  intro arm steps
  have fits : (added steps).length < 2 ^ 64 := by decide
  have vacant : (added (steps ++ [.withFallback Node.sentinel])).length < 2 ^ 64 := by decide
  obtain ⟨-, -, succeeds⟩ := finish_run Node.sentinel steps fits
  obtain ⟨fails, reports, -⟩ := finish_run Node.sentinel _ vacant
  obtain ⟨cause, failed⟩ := fails.mpr ⟨⟨_, rfl⟩, fun body given => by cases given; rfl⟩
  have built : ((ofScrutinee Node.sentinel).run steps).finish = .ok _ := rfl
  obtain ⟨token, choice, form, -, -, listed, -⟩ := succeeds _ built
  obtain ⟨next, place, link⟩ := listed 0 (arm (some 7)) true rfl
  obtain ⟨one, rfl, target⟩ := Option.map_eq_some_iff.mp link
  have same : one = 1 := UInt64.toNat_inj.mp target
  refine ⟨fits, ⟨_, built, token, choice, form, ?_⟩, ?_⟩
  · rw [place, same]
  · rw [failed, (reports cause failed).2]
    rfl

end SwitchAssembly

end SyntaxTree
