import SyntaxTree.Proofs.Json.Takes

/-!
# Readers that agree

Two readers, each in front of lexemes of its own, agree when both fail with one error or both take
just their lexemes, for values that are related. Agreement of wholes is put together from that of
their parts, one after another, so that two texts can be read side by side.
-/

namespace SyntaxTree.Json.Reader

variable {α β γ δ : Type}

/-- One error, or values that are related, each in front of a rest of its own. -/
inductive Alike (related : α → β → Prop) (rest other : List Lexeme)
    (outcome : Except ReadError (α × List Lexeme))
    (counterpart : Except ReadError (β × List Lexeme)) : Prop where
  | taken {first : α} {second : β} (holds : related first second) (takes : outcome = .ok (first, rest))
      (likewise : counterpart = .ok (second, other))
  | refused {error : ReadError} (fails : outcome = .error error)
      (likewise : counterpart = .error error)

/-- Whatever follows, the readers take these lexemes and those alike. -/
def Agrees (levels : Nat) (related : α → β → Prop) (reader : Reader α) (spelled : List Lexeme)
    (counterpart : Reader β) (respelled : List Lexeme) : Prop :=
  ∀ rest other, Alike related rest other (reader levels (spelled ++ rest))
    (counterpart levels (respelled ++ other))

namespace Agrees

variable {levels : Nat} {related : α → β → Prop} {consequence : γ → δ → Prop}
  {reader : Reader α} {counterpart : Reader β} {spelled respelled : List Lexeme}

theorem cast (agrees : Agrees levels related reader spelled counterpart respelled)
    {before after : List Lexeme} (spells : spelled = before) (respells : respelled = after) :
    Agrees levels related reader before counterpart after := by
  subst spells respells
  exact agrees

/-- Readers may do on the lexemes, or behind first ones, what other readers do there. -/
theorem agreeing {same : Reader α} {likewise : Reader β} (before : List Lexeme)
    (agree : ∀ rest, same levels (before ++ (spelled ++ rest)) = reader levels (spelled ++ rest))
    (alike : ∀ rest, likewise levels (before ++ (respelled ++ rest)) =
      counterpart levels (respelled ++ rest))
    (agrees : Agrees levels related reader spelled counterpart respelled) :
    Agrees levels related same (before ++ spelled) likewise (before ++ respelled) := by
  intro rest other
  rw [List.append_assoc, List.append_assoc, agree, alike]
  exact agrees rest other

/-- What the first reader takes ahead of the second one changes nothing for what they take then. -/
theorem ahead {same : Reader α} (before : List Lexeme)
    (equal : ∀ rest, same levels (before ++ rest) = reader levels rest)
    (agrees : Agrees levels related reader spelled counterpart respelled) :
    Agrees levels related same (before ++ spelled) counterpart respelled := by
  intro rest other
  rw [List.append_assoc, equal]
  exact agrees rest other

theorem done {first : α} {second : β} (holds : related first second) :
    Agrees levels related (pure first) [] (pure second) [] :=
  fun _ _ => .taken holds rfl rfl

theorem failing (error : ReadError) :
    Agrees levels related (fail error) spelled (fail error) respelled :=
  fun _ _ => .refused rfl rfl

/-- A mark in the place where it is looked for, or another lexeme that is refused there. -/
theorem mark (expected found : Lexeme) :
    Agrees levels (fun _ _ => True) (punctuation expected) [found] (punctuation expected)
      [found] := by
  intro rest other
  simp only [punctuation, List.singleton_append]
  split
  · exact .taken trivial rfl rfl
  · exact .refused rfl rfl

theorem andThen {next : α → Reader γ} {further : β → Reader δ} {others remaining : List Lexeme}
    (agrees : Agrees levels related reader spelled counterpart respelled)
    (continues : ∀ first second, related first second →
      Agrees levels consequence (next first) others (further second) remaining) :
    Agrees levels consequence (reader >>= next) (spelled ++ others) (counterpart >>= further)
      (respelled ++ remaining) := by
  intro rest other
  simp only [Bind.bind, List.append_assoc]
  cases agrees (others ++ rest) (remaining ++ other) with
  | @taken first second holds takes likewise =>
      rw [takes, likewise]
      exact continues first second holds rest other
  | refused fails likewise =>
      rw [fails, likewise]
      exact .refused rfl rfl

/-- What follows equal values. -/
theorem followed {likewise : Reader α} {next : α → Reader γ} {further : α → Reader δ}
    {others remaining : List Lexeme} (agrees : Agrees levels Eq reader spelled likewise respelled)
    (continues : ∀ value,
      Agrees levels consequence (next value) others (further value) remaining) :
    Agrees levels consequence (reader >>= next) (spelled ++ others) (likewise >>= further)
      (respelled ++ remaining) := by
  refine agrees.andThen (fun first second same => ?_)
  subst same
  exact continues first

theorem map {f : α → γ} {g : β → δ}
    (agrees : Agrees levels related reader spelled counterpart respelled)
    (carries : ∀ first second, related first second → consequence (f first) (g second)) :
    Agrees levels consequence (f <$> reader) spelled (g <$> counterpart) respelled := by
  have whole := agrees.andThen (fun first second holds =>
    (done (carries first second holds) :
      Agrees levels consequence (pure (f first)) [] (pure (g second)) []))
  rwa [List.append_nil, List.append_nil] at whole

/-- Within brackets there is a level fewer. -/
theorem nested (agrees : Agrees levels related reader spelled counterpart respelled) :
    Agrees (levels + 1) related (Reader.nested reader) spelled (Reader.nested counterpart)
      respelled :=
  agrees

/--
Readers that get fuel for the lexemes in front of them have enough for those they take. They may go
on as if they stood behind lexemes that were there before.
-/
theorem fueled (before : List Lexeme) (attempt : Nat → Reader α) (likewise : Nat → Reader β)
    {least fewest : Nat} (enough : least ≤ spelled.length) (suffice : fewest ≤ respelled.length)
    (agrees : ∀ steps further, least ≤ steps → fewest ≤ further →
      Agrees levels related (attempt steps) (before ++ spelled) (likewise further)
        (before ++ respelled)) :
    Agrees levels related
      (fun levels lexemes => attempt lexemes.length levels (before ++ lexemes)) spelled
      (fun levels lexemes => likewise lexemes.length levels (before ++ lexemes)) respelled := by
  intro rest other
  have whole := agrees (spelled ++ rest).length (respelled ++ other).length
    (by rw [List.length_append]; omega) (by rw [List.length_append]; omega) rest other
  rwa [List.append_assoc, List.append_assoc] at whole

end Agrees

end SyntaxTree.Json.Reader
