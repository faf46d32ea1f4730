import SyntaxTree.Json.Reader
import SyntaxTree.Proofs.Json.Spelling

/-!
# What a reader takes

A reader that meets the spelling of what it reads takes exactly that off the lexemes, with an
outcome that is a value or the malformation of a node, provided the spelling nests no deeper than
there are levels left. When it nests deeper, and nothing in it is malformed, the reader fails at
the bracket too many. Such statements are put together as readers are.
-/

namespace SyntaxTree.Json

namespace Reader

variable {α β γ : Type}

/-- The answer of a reader that comes to an outcome in front of the rest. -/
def deliver (rest : List Lexeme) : Except Malformation α → Except ReadError (α × List Lexeme)
  | .ok value => .ok (value, rest)
  | .error cause => .error (.data (.malformed cause))

/--
With fewer levels left than the bound, the reader takes the lexemes, which nest to the depth, and
comes to the outcome.
-/
structure Takes (bound : Nat) (reader : Reader α) (spelled : List Lexeme) (depth : Nat)
    (outcome : Except Malformation α) : Prop where
  within : ∀ levels < bound, depth ≤ levels → ∀ rest,
    reader levels (spelled ++ rest) = deliver rest outcome
  beyond : ∀ levels < bound, levels < depth → ∀ value, outcome = .ok value → ∀ rest,
    reader levels (spelled ++ rest) = .error (.fault .invalid)

namespace Takes

variable {bound depth : Nat} {reader : Reader α} {spelled : List Lexeme}
  {outcome : Except Malformation α}

theorem mono (takes : reader.Takes bound spelled depth outcome) {smaller : Nat}
    (le : smaller ≤ bound) : reader.Takes smaller spelled depth outcome where
  within levels fewer := takes.within levels (Nat.lt_of_lt_of_le fewer le)
  beyond levels fewer := takes.beyond levels (Nat.lt_of_lt_of_le fewer le)

theorem cast (takes : reader.Takes bound spelled depth outcome) {lexemes : List Lexeme}
    {levels : Nat} {taken : Except Malformation α} (spells : spelled = lexemes)
    (nests : depth = levels) (comes : outcome = taken) :
    reader.Takes bound lexemes levels taken := by
  subst spells nests comes
  exact takes

/-- A reader that takes flat lexemes is never short of levels. -/
theorem flat (takes : ∀ levels rest, reader levels (spelled ++ rest) = deliver rest outcome) :
    reader.Takes bound spelled 0 outcome where
  within levels _ _ rest := takes levels rest
  beyond _ _ short := absurd short (Nat.not_lt_zero _)

theorem done (value : α) : (Pure.pure value : Reader α).Takes bound [] 0 (.ok value) :=
  flat (fun _ _ => rfl)

theorem malformed (cause : Malformation) :
    (failData (.malformed cause) : Reader α).Takes bound [] 0 (.error cause) :=
  flat (fun _ _ => rfl)

theorem mark (lexeme : Lexeme) : (punctuation lexeme).Takes bound [lexeme] 0 (.ok ()) :=
  flat (fun _ _ => by simp [punctuation, deliver])

theorem andThen {next : α → Reader β} {others : List Lexeme} {furtherDepth : Nat}
    {further : α → Except Malformation β} (takes : reader.Takes bound spelled depth outcome)
    (follows : ∀ value, outcome = .ok value →
      (next value).Takes bound others furtherDepth (further value)) :
    (reader >>= next).Takes bound (spelled ++ others) (max depth furtherDepth)
      (outcome >>= further) where
  within levels fewer enough rest := by
    have first := takes.within levels fewer (by omega) (others ++ rest)
    simp only [Bind.bind, List.append_assoc, first]
    cases outcome with
    | error cause => rfl
    | ok value => exact (follows value rfl).within levels fewer (by omega) rest
  beyond levels fewer short value succeeds rest := by
    cases outcome with
    | error cause => cases succeeds
    | ok middle =>
        simp only [Bind.bind, List.append_assoc]
        by_cases enough : depth ≤ levels
        · simp only [takes.within levels fewer enough (others ++ rest), deliver]
          exact (follows middle rfl).beyond levels fewer (by omega) value succeeds rest
        · simp only [takes.beyond levels fewer (by omega) middle rfl (others ++ rest)]

/-- What follows a value that is known. -/
theorem followed {value : α} {next : α → Reader β} {others : List Lexeme} {furtherDepth : Nat}
    {further : Except Malformation β} (takes : reader.Takes bound spelled depth (.ok value))
    (follows : (next value).Takes bound others furtherDepth further) :
    (reader >>= next).Takes bound (spelled ++ others) (max depth furtherDepth) further := by
  have whole (read : α) (equal : (Except.ok value : Except Malformation α) = .ok read) :
      (next read).Takes bound others furtherDepth further := by
    cases equal
    exact follows
  exact takes.andThen whole

theorem map (f : α → β) (takes : reader.Takes bound spelled depth outcome) :
    (f <$> reader).Takes bound spelled depth (f <$> outcome) := by
  have finished (value : α) (_ : outcome = .ok value) :
      (Pure.pure (f value) : Reader β).Takes bound [] 0 (.ok (f value)) := done (f value)
  have whole := takes.andThen finished
  rw [List.append_nil, Nat.max_zero] at whole
  cases outcome <;> exact whole

/-- What stands within brackets takes a level more. -/
theorem nested (takes : reader.Takes bound spelled depth outcome) :
    (Reader.nested reader).Takes (bound + 1) spelled (depth + 1) outcome where
  within levels fewer enough rest := by
    cases levels with
    | zero => omega
    | succ levels => exact takes.within levels (by omega) (by omega) rest
  beyond levels fewer short value succeeds rest := by
    cases levels with
    | zero => rfl
    | succ levels => exact takes.beyond levels (by omega) (by omega) value succeeds rest

/-- A reader may do on the lexemes, or behind a first one, what another reader does there. -/
theorem agreeing {reader other : Reader β} {taken : Except Malformation β}
    (before : List Lexeme)
    (agree : ∀ levels rest, reader levels (before ++ (spelled ++ rest)) =
      other levels (spelled ++ rest))
    (takes : other.Takes bound spelled depth taken) :
    reader.Takes bound (before ++ spelled) depth taken where
  within levels fewer enough rest := by
    rw [List.append_assoc, agree, takes.within levels fewer enough rest]
  beyond levels fewer short value succeeds rest := by
    rw [List.append_assoc, agree, takes.beyond levels fewer short value succeeds rest]

/--
A reader that gets fuel for the lexemes in front of it has enough for those it takes. It may go on
as if it stood behind a lexeme that was there before.
-/
theorem fueled (before : List Lexeme) (attempt : Nat → Reader α) {least : Nat}
    (enough : least ≤ spelled.length)
    (takes : ∀ steps, least ≤ steps →
      (attempt steps).Takes bound (before ++ spelled) depth outcome) :
    Takes bound (fun levels lexemes => attempt lexemes.length levels (before ++ lexemes)) spelled
      depth outcome := by
  have fuel (rest : List Lexeme) : least ≤ (spelled ++ rest).length := by
    rw [List.length_append]
    omega
  constructor
  · intro levels fewer deep rest
    have taken := (takes _ (fuel rest)).within levels fewer deep rest
    rwa [List.append_assoc] at taken
  · intro levels fewer short value succeeds rest
    have taken := (takes _ (fuel rest)).beyond levels fewer short value succeeds rest
    rwa [List.append_assoc] at taken

/-! ### Scalars -/

theorem text (value : String) : Reader.text.Takes bound [.text (some value)] 0 (.ok value) :=
  flat (fun _ _ => rfl)

theorem bool (value : Bool) : Reader.bool.Takes bound [.bool value] 0 (.ok value) :=
  flat (fun _ _ => rfl)

theorem integer {expected : String} {least greatest value : Int} (above : least ≤ value)
    (below : value ≤ greatest) (signed : -2 ^ 63 ≤ value) (unsigned : value < 2 ^ 64) :
    (Reader.integer expected least greatest).Takes bound [.numeral (.ofInt value)] 0
      (.ok value) := by
  refine flat (fun levels rest => ?_)
  simp [Reader.integer, scalar, Numeral.value?_ofInt signed unsigned, above, below, deliver]

theorem int64 (value : Int64) :
    Reader.int64.Takes bound [.numeral (.ofInt value.toInt)] 0 (.ok value) := by
  have least := value.le_toInt
  have below := value.toInt_lt
  refine ((integer least (by omega) least (by omega)).map Int64.ofInt).cast rfl rfl ?_
  exact congrArg Except.ok (Int64.ofInt_toInt value)

theorem index (value : UInt64) :
    Reader.index.Takes bound [.numeral (.ofInt value.toNat)] 0 (.ok value) := by
  have below := value.toNat_lt
  have read : (Reader.integer "usize" 0 (2 ^ 64 - 1)).Takes bound
      [.numeral (.ofInt value.toNat)] 0 (.ok (value.toNat : Int)) :=
    integer (by omega) (by omega) (by omega) (by omega)
  refine (read.map (fun value => UInt64.ofNat value.toNat)).cast rfl rfl ?_
  exact congrArg Except.ok UInt64.ofNat_toNat

end Takes

/-- The lexemes start a value other than null. -/
def Firm : List Lexeme → Prop
  | .text _ :: _ | .openBrace :: _ | .openBracket :: _ | .numeral _ :: _ | .bool _ :: _ => True
  | _ => False

namespace Takes

variable {bound depth : Nat} {reader : Reader α} {spelled : List Lexeme}
  {outcome : Except Malformation α}

theorem option (takes : reader.Takes bound spelled depth outcome) (firm : Firm spelled) :
    reader.option.Takes bound spelled depth (some <$> outcome) := by
  refine agreeing [] (fun levels rest => ?_) (takes.map some)
  match spelled, firm with
  | .text _ :: _, _ | .openBrace :: _, _ | .openBracket :: _, _ | .numeral _ :: _, _
  | .bool _ :: _, _ => rfl

/-! ### Lists -/

/-- The depth of the deepest of some items. -/
def deepest (depth : α → Nat) (items : List α) : Nat := (items.map depth).foldr max 0

theorem moreElements_comma (element : Reader β) (steps levels : Nat) (lexemes : List Lexeme) :
    Reader.moreElements element (steps + 1) levels (.comma :: lexemes) =
      (element >>= fun value => (value :: ·) <$> Reader.moreElements element steps)
        levels lexemes := by
  simp only [Reader.moreElements, Bind.bind, Functor.map]
  cases element levels lexemes with
  | error error => rfl
  | ok taken =>
      obtain ⟨first, remaining⟩ := taken
      dsimp only
      cases Reader.moreElements element steps levels remaining <;> rfl

/-- A value other than null begins with no closing bracket. -/
theorem exists_cons_of_firm {lexemes : List Lexeme} (firm : Firm lexemes) :
    ∃ first others, lexemes = first :: others ∧ first ≠ .closeBracket := by
  cases lexemes with
  | nil => cases firm
  | cons first others =>
      refine ⟨first, others, rfl, ?_⟩
      rintro rfl
      cases firm

/-- An array that is not closed at once has a first element. -/
theorem elements_cons (element : Reader β) (levels : Nat) {opening : Lexeme}
    (opens : opening ≠ .closeBracket) (rest : List Lexeme) :
    Reader.elements element levels (opening :: rest) =
      (element >>= fun value levels lexemes =>
        ((value :: ·) <$> Reader.moreElements element (lexemes.length + 1)) levels lexemes)
        levels (opening :: rest) := by
  cases opening with
  | closeBracket => exact absurd rfl opens
  | _ =>
      simp only [Reader.elements, Bind.bind, Functor.map]
      cases element levels (_ :: rest) with
      | error error => rfl
      | ok taken =>
          dsimp only
          cases Reader.moreElements element (taken.2.length + 1) levels taken.2 <;> rfl

theorem elements_firm (element : Reader β) (levels : Nat) {lexemes : List Lexeme}
    (firm : Firm lexemes) (rest : List Lexeme) :
    Reader.elements element levels (lexemes ++ rest) =
      (element >>= fun value levels lexemes =>
        ((value :: ·) <$> Reader.moreElements element (lexemes.length + 1)) levels lexemes)
        levels (lexemes ++ rest) := by
  obtain ⟨opening, others, rfl, opens⟩ := exists_cons_of_firm firm
  exact elements_cons element levels opens (others ++ rest)

theorem length_le_flatMap_comma (spelled : α → List Lexeme) (items : List α) :
    items.length ≤ (items.flatMap (fun item => .comma :: spelled item)).length := by
  induction items with
  | nil => exact Nat.le_refl 0
  | cons item rest ih =>
      simp only [List.flatMap_cons, List.length_append, List.length_cons]
      omega

section Items

variable {element : Reader β} {items : List α} {spelled : α → List Lexeme} {depth : α → Nat}
  {outcome : α → Except Malformation β}

theorem moreElements
    (takes : ∀ item ∈ items, element.Takes bound (spelled item) (depth item) (outcome item))
    (steps : Nat) (enough : items.length < steps) :
    (Reader.moreElements element steps).Takes bound
      (items.flatMap (fun item => .comma :: spelled item) ++ [.closeBracket])
      (deepest depth items) (items.mapM outcome) := by
  induction items generalizing steps with
  | nil =>
      obtain ⟨steps, rfl⟩ := Nat.exists_eq_succ_of_ne_zero (Nat.ne_of_gt enough)
      exact flat (fun _ _ => rfl)
  | cons item rest ih =>
      obtain ⟨steps, rfl⟩ :=
        Nat.exists_eq_succ_of_ne_zero (Nat.ne_of_gt (Nat.zero_lt_of_lt enough))
      obtain ⟨first, others⟩ := List.forall_mem_cons.mp takes
      have further := ih others steps (Nat.lt_of_succ_lt_succ enough)
      have both := first.andThen (fun value _ => further.map (value :: ·))
      refine (agreeing [.comma] (fun levels more => ?_) both).cast (by simp) rfl (by simp)
      exact moreElements_comma element steps levels _

theorem list
    (takes : ∀ item ∈ items, element.Takes bound (spelled item) (depth item) (outcome item))
    (firm : ∀ item ∈ items, Firm (spelled item)) :
    (Reader.list element).Takes (bound + 1)
      (.openBracket :: ([.comma].intercalate (items.map spelled) ++ [.closeBracket]))
      (deepest depth items + 1) (items.mapM outcome) := by
  have inside : (Reader.elements element).Takes bound
      ([.comma].intercalate (items.map spelled) ++ [.closeBracket]) (deepest depth items)
      (items.mapM outcome) := by
    cases items with
    | nil => exact flat (fun _ _ => rfl)
    | cons item rest =>
        obtain ⟨first, others⟩ := List.forall_mem_cons.mp takes
        have starts : Firm (spelled item) := (List.forall_mem_cons.mp firm).1
        have fuel : rest.length ≤ (rest.flatMap (fun item => .comma :: spelled item) ++
            [Lexeme.closeBracket]).length :=
          Nat.le_trans (length_le_flatMap_comma spelled rest) (by simp)
        have both := first.andThen (fun value _ =>
          fueled [] (fun length => (value :: ·) <$> Reader.moreElements element (length + 1)) fuel
            (fun steps enough => (moreElements others (steps + 1) (by omega)).map (value :: ·)))
        have agree (levels : Nat) (more : List Lexeme) :=
          elements_firm element levels starts
            (rest.flatMap (fun item => .comma :: spelled item) ++ [.closeBracket] ++ more)
        refine (agreeing [] (fun levels more => ?_) both).cast ?_ rfl (by simp)
        · rw [List.nil_append, List.append_assoc]
          exact agree levels more
        · rw [List.map_cons, intercalate_cons, List.flatMap_map, List.append_assoc]
          rfl
  exact agreeing [.openBracket] (fun _ _ => rfl) inside.nested

end Items

/-! ### Pairs and variants -/

/-- What a pair reads behind its first element. -/
def pairAfter (second : Reader β) (one : α) : Reader (α × β) := fun levels lexemes =>
  match lexemes with
  | [] => .error (.fault .ended)
  | .closeBracket :: _ => .error (.data (.invalidLength 1 Reader.pair.expected))
  | .comma :: rest => (do
      let other ← second
      punctuation .closeBracket
      return (one, other)) levels rest
  | _ :: _ => .error (.fault .invalid)

/-- A pair that is not closed at once has a first element. -/
theorem pair_cons (first : Reader α) (second : Reader β) (levels : Nat) {opening : Lexeme}
    (opens : opening ≠ .closeBracket) (rest : List Lexeme) :
    Reader.pair first second levels (.openBracket :: opening :: rest) =
      Reader.nested (first >>= pairAfter second) levels (opening :: rest) := by
  cases levels with
  | zero => rfl
  | succ levels =>
      cases opening with
      | closeBracket => exact absurd rfl opens
      | _ =>
          simp only [Reader.pair, Reader.array, Reader.nested, Bind.bind]
          cases first levels _ with
          | error error => rfl
          | ok taken => rfl

theorem pair_firm (first : Reader α) (second : Reader β) (levels : Nat) {lexemes : List Lexeme}
    (firm : Firm lexemes) (rest : List Lexeme) :
    Reader.pair first second levels (.openBracket :: (lexemes ++ rest)) =
      Reader.nested (first >>= pairAfter second) levels (lexemes ++ rest) := by
  obtain ⟨opening, others, rfl, opens⟩ := exists_cons_of_firm firm
  exact pair_cons first second levels opens (others ++ rest)

theorem pair {second : Reader β} {others : List Lexeme} {furtherDepth : Nat}
    {further : Except Malformation β} (takes : reader.Takes bound spelled depth outcome)
    (firm : Firm spelled) (follows : second.Takes bound others furtherDepth further) :
    (Reader.pair reader second).Takes (bound + 1)
      (.openBracket :: (spelled ++ .comma :: (others ++ [.closeBracket])))
      (max depth furtherDepth + 1) (return (← outcome, ← further)) := by
  have latter (one : α) : (pairAfter second one).Takes bound (.comma :: (others ++ [.closeBracket]))
      furtherDepth (return (one, ← further)) :=
    (agreeing [.comma] (fun _ _ => rfl) (follows.andThen (fun other _ =>
      (mark .closeBracket).andThen (fun _ _ => done (one, other))))).cast (by simp) (by simp) rfl
  have both := (takes.andThen (fun one _ => latter one)).nested
  refine (agreeing [.openBracket] (fun levels rest => ?_) both).cast rfl rfl rfl
  rw [List.append_assoc]
  exact pair_firm reader second levels firm _

/-- An object that names a variant and holds its payload. -/
theorem variant {known : List String} {lookup : String → Option β}
    {bare : β → Except DataError α} {payload : β → Reader α} {key : String} {tag : β}
    (found : lookup key = some tag) (takes : (payload tag).Takes bound spelled depth outcome) :
    (Reader.variant known lookup bare payload).Takes (bound + 1)
      (.openBrace :: .text (some key) :: .colon :: (spelled ++ [.closeBrace])) (depth + 1)
      outcome := by
  have held := (mark .colon).andThen (fun _ _ => takes.andThen (fun value _ =>
    (mark .closeBrace).andThen (fun _ _ => done value)))
  have inside := held.nested
  refine (agreeing [.openBrace, .text (some key)] (fun levels rest => ?_) inside).cast (by simp)
    (by simp) (by cases outcome <;> rfl)
  cases levels with
  | zero => rfl
  | succ levels =>
      simp only [List.cons_append, List.nil_append, Reader.variant, Reader.nested, textFor, scalar,
        Bind.bind, found]

end Takes
end Reader
end SyntaxTree.Json
