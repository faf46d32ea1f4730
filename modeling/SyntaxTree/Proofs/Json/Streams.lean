import SyntaxTree.Proofs.Json.CutTexts
import SyntaxTree.Proofs.Json.TakesRecords

/-!
# Reading lexemes that are cut

A reader that meets the first part of what it would take comes to the end of the text and fails
there, whatever fuel it has. Only a reader of a number may come to a value in place of it, with
nothing behind the value, and what it is asked to read next fails.
-/

namespace SyntaxTree.Json

namespace Reader

variable {α β : Type}

/-- The text has ended, or nothing is left behind a value. -/
def AtEnd : Except ReadError (α × List Lexeme) → Prop
  | .ok (_, rest) => rest = []
  | .error error => error = .fault .ended

/-- With levels enough the reader fails at the end of the lexemes wherever these are cut. -/
def Stops (bound : Nat) (reader : Reader α) (spelled : List Lexeme) (depth : Nat) : Prop :=
  ∀ levels < bound, depth ≤ levels → ∀ left, Cut spelled left →
    reader levels left = .error (.fault .ended)

/-- With levels enough the reader comes to the end of the lexemes wherever these are cut. -/
def Breaks (bound : Nat) (reader : Reader α) (spelled : List Lexeme) (depth : Nat) : Prop :=
  ∀ levels < bound, depth ≤ levels → ∀ left, Cut spelled left → AtEnd (reader levels left)

/-- The reader takes the lexemes, with some value, and comes to the end where they are cut. -/
structure Streams (bound : Nat) (reader : Reader α) (spelled : List Lexeme) (depth : Nat) :
    Prop where
  takes : ∃ value, reader.Takes bound spelled depth (.ok value)
  breaks : reader.Breaks bound spelled depth

variable {bound depth : Nat} {reader : Reader α} {spelled : List Lexeme}

theorem Stops.breaks (stops : reader.Stops bound spelled depth) :
    reader.Breaks bound spelled depth := by
  intro levels fewer enough left cut
  rw [stops levels fewer enough left cut]
  rfl

namespace Stops

theorem mono (stops : reader.Stops bound spelled depth) {smaller : Nat} (le : smaller ≤ bound) :
    reader.Stops smaller spelled depth :=
  fun levels fewer => stops levels (Nat.lt_of_lt_of_le fewer le)

theorem cast (stops : reader.Stops bound spelled depth) {lexemes : List Lexeme} {levels : Nat}
    (spells : spelled = lexemes) (nests : depth = levels) : reader.Stops bound lexemes levels := by
  subst spells nests
  exact stops

/-- What would follow is never asked for. -/
theorem andThen (stops : reader.Stops bound spelled depth) (next : α → Reader β) :
    (reader >>= next).Stops bound spelled depth := by
  intro levels fewer enough left cut
  simp only [Bind.bind, stops levels fewer enough left cut]

theorem map (f : α → β) (stops : reader.Stops bound spelled depth) :
    (f <$> reader).Stops bound spelled depth := stops.andThen (fun value => pure (f value))

theorem nested (stops : reader.Stops bound spelled depth) :
    (Reader.nested reader).Stops (bound + 1) spelled (depth + 1) := by
  intro levels fewer enough left cut
  cases levels with
  | zero => omega
  | succ levels => exact stops levels (by omega) (by omega) left cut

/-- Behind a lexeme of one character a reader does what another one does. -/
theorem behind {reader other : Reader β} {mark : Lexeme} (isMark : mark.isMark = true)
    (empty : ∀ levels, reader levels [] = .error (.fault .ended))
    (agree : ∀ levels rest, reader levels (mark :: rest) = other levels rest)
    (stops : other.Stops bound spelled depth) : reader.Stops bound (mark :: spelled) depth := by
  intro levels fewer enough left cut
  cases cut with
  | before => exact empty levels
  | within remnant => exact absurd remnant (not_remnant_of_isMark isMark)
  | behind _ cut => rw [agree, stops levels fewer enough _ cut]

/-- A lexeme of one character can only be missing. -/
theorem ofMark {mark : Lexeme} (isMark : mark.isMark = true)
    (empty : ∀ levels, reader levels [] = .error (.fault .ended)) :
    reader.Stops bound [mark] depth := by
  intro levels fewer enough left cut
  cases cut with
  | before => exact empty levels
  | within remnant => exact absurd remnant (not_remnant_of_isMark isMark)
  | behind _ cut => cases cut

/-- A value that is known is given behind a last lexeme. -/
theorem closing (value : α) (lexeme : Lexeme) (isMark : lexeme.isMark = true) :
    (punctuation lexeme >>= fun _ => (pure value : Reader α)).Stops bound [lexeme] 0 :=
  (ofMark isMark (fun _ => rfl)).andThen _

/-- A reader that wants a text fails where it is cut. -/
theorem ofText {reader : Reader α} (content : String)
    (empty : ∀ levels, reader levels [] = .error (.fault .ended))
    (broken : ∀ levels, reader levels [.broken .text .ended .ended] = .error (.fault .ended)) :
    reader.Stops bound [.text (some content)] 0 := by
  intro levels fewer enough left cut
  cases cut with
  | before => exact empty levels
  | within remnant =>
      cases remnant
      exact broken levels
  | behind _ cut => cases cut

end Stops

namespace Breaks

theorem map (f : α → β) (breaks : reader.Breaks bound spelled depth) :
    (f <$> reader).Breaks bound spelled depth := by
  intro levels fewer enough left cut
  have ends := breaks levels fewer enough left cut
  simp only [Functor.map]
  cases taken : reader levels left with
  | error error =>
      rw [taken] at ends
      exact ends
  | ok read =>
      rw [taken] at ends
      exact ends

end Breaks

namespace Streams

theorem map (f : α → β) (streams : reader.Streams bound spelled depth) :
    (f <$> reader).Streams bound spelled depth := by
  obtain ⟨value, takes⟩ := streams.takes
  exact ⟨⟨f value, takes.map f⟩, streams.breaks.map f⟩

/-- What follows fails with nothing left, and where its own lexemes are cut. -/
theorem followed {next : α → Reader β} {others : List Lexeme} {further : Nat}
    (streams : reader.Streams bound spelled depth) (nonempty : others ≠ [])
    (follows : ∀ value, (next value).Stops bound others further) :
    (reader >>= next).Stops bound (spelled ++ others) (max depth further) := by
  obtain ⟨value, takes⟩ := streams.takes
  obtain ⟨first, more, rfl⟩ := List.exists_cons_of_ne_nil nonempty
  intro levels fewer enough left cut
  rcases cut_append cut with early | ⟨later, rfl, late⟩
  · have ends := streams.breaks levels fewer (by omega) left early
    simp only [Bind.bind]
    cases taken : reader levels left with
    | error error =>
        rw [taken] at ends
        exact congrArg Except.error ends
    | ok read =>
        obtain ⟨value, rest⟩ := read
        rw [taken] at ends
        cases ends
        exact follows value levels fewer (by omega) [] (.before first more)
  · simp only [Bind.bind, takes.within levels fewer (by omega) later, deliver]
    exact follows value levels fewer (by omega) later late

theorem mono (streams : reader.Streams bound spelled depth) {smaller : Nat}
    (le : smaller ≤ bound) : reader.Streams smaller spelled depth := by
  obtain ⟨value, takes⟩ := streams.takes
  exact ⟨⟨value, takes.mono le⟩, fun levels fewer =>
    streams.breaks levels (Nat.lt_of_lt_of_le fewer le)⟩

theorem cast (streams : reader.Streams bound spelled depth) {lexemes : List Lexeme}
    {levels : Nat} (spells : spelled = lexemes) (nests : depth = levels) :
    reader.Streams bound lexemes levels := by
  subst spells nests
  exact streams

/-! ### Scalars -/

theorem text (content : String) : Reader.text.Streams bound [.text (some content)] 0 :=
  ⟨⟨content, Takes.text content⟩,
    (Stops.ofText content (fun _ => rfl) (fun _ => rfl)).breaks⟩

theorem bool (value : Bool) : Reader.bool.Streams bound [.bool value] 0 := by
  refine ⟨⟨value, Takes.bool value⟩, Stops.breaks (fun levels fewer enough left cut => ?_)⟩
  cases cut with
  | before => rfl
  | within remnant =>
      cases remnant
      rfl
  | behind _ cut => cases cut

/-- A number with fewer digits is no further from zero, so it is within bounds around zero too. -/
theorem integer_breaks {expected : String} {least greatest value : Int} (above : least ≤ value)
    (below : value ≤ greatest) (zero : least ≤ 0 ∧ 0 ≤ greatest) {numeral : Numeral}
    (valued : numeral.value? = some (.integer value)) :
    (Reader.integer expected least greatest).Breaks bound [.numeral numeral] 0 := by
  intro levels fewer enough left cut
  cases cut with
  | before => rfl
  | within remnant =>
      cases remnant with
      | numeral => rfl
      | shorter shortened =>
          obtain ⟨less, read, lowest, highest⟩ := shortened.integer value valued
          have lower : least ≤ less := by omega
          have upper : less ≤ greatest := by omega
          simp [Reader.integer, scalar, read, lower, upper, AtEnd]
  | behind _ cut => cases cut

theorem int64 (value : Int64) : Reader.int64.Streams bound [.numeral (.ofInt value.toInt)] 0 := by
  have least := value.le_toInt
  have below := value.toInt_lt
  have valued := Numeral.value?_ofInt least (by omega : value.toInt < 2 ^ 64)
  exact ⟨⟨value, Takes.int64 value⟩,
    (integer_breaks (by omega) (by omega) (by decide) valued).map Int64.ofInt⟩

theorem index (value : UInt64) : Reader.index.Streams bound [.numeral (.ofInt value.toNat)] 0 := by
  have below := value.toNat_lt
  have valued : (Numeral.ofInt value.toNat).value? = some (.integer value.toNat) :=
    Numeral.value?_ofInt (by omega) (by omega)
  exact ⟨⟨value, Takes.index value⟩,
    (integer_breaks (by omega) (by omega) (by decide) valued).map
      (fun value => UInt64.ofNat value.toNat)⟩

theorem option (streams : reader.Streams bound spelled depth) (firm : Firm spelled) :
    reader.option.Streams bound spelled depth := by
  obtain ⟨value, takes⟩ := streams.takes
  refine ⟨⟨some value, takes.option firm⟩, fun levels fewer enough left cut => ?_⟩
  -- Neither a lexeme of the value nor what is left of it is null, whole or not.
  have agree : reader.option levels left = (some <$> reader) levels left := by
    cases cut with
    | before => rfl
    | within remnant => cases remnant <;> first | rfl | exact firm.elim
    | @behind first _ _ _ => cases first <;> first | rfl | exact firm.elim
  rw [agree]
  exact streams.breaks.map some levels fewer enough left cut

end Streams

/-! ### Lists and pairs -/

/-- A cut list of lexemes begins as the whole one does, as far as the end of an array goes. -/
theorem ne_closeBracket_of_cut {first opening : Lexeme} {others rest : List Lexeme}
    (opens : first ≠ .closeBracket) (cut : Cut (first :: others) (opening :: rest)) :
    opening ≠ .closeBracket := by
  cases cut with
  | within remnant =>
      rintro rfl
      cases remnant
  | behind => exact opens

section Items

variable {element : Reader β} {items : List α} {lexemes : α → List Lexeme} {levelsOf : α → Nat}

/-- The elements after one of an array, with any fuel. -/
theorem stops_moreElements
    (streams : ∀ item ∈ items, element.Streams bound (lexemes item) (levelsOf item))
    (steps : Nat) :
    (Reader.moreElements element steps).Stops bound
      (items.flatMap (fun item => .comma :: lexemes item) ++ [.closeBracket])
      (Takes.deepest levelsOf items) := by
  induction steps generalizing items with
  | zero => exact fun _ _ _ _ _ => rfl
  | succ steps ih =>
      cases items with
      | nil => exact Stops.ofMark rfl (fun _ => rfl)
      | cons item rest =>
          obtain ⟨first, others⟩ := List.forall_mem_cons.mp streams
          have both := first.followed (by simp) (fun value => (ih others).map (value :: ·))
          have whole : (Reader.moreElements element (steps + 1)).Stops bound (.comma :: _) _ :=
            Stops.behind rfl (fun _ => rfl) (Takes.moreElements_comma element steps) both
          exact whole.cast (by simp) rfl

theorem Stops.list
    (streams : ∀ item ∈ items, element.Streams bound (lexemes item) (levelsOf item))
    (firm : ∀ item ∈ items, Firm (lexemes item)) :
    (Reader.list element).Stops (bound + 1)
      (.openBracket :: ([.comma].intercalate (items.map lexemes) ++ [.closeBracket]))
      (Takes.deepest levelsOf items + 1) := by
  have inside : (Reader.elements element).Stops bound
      ([.comma].intercalate (items.map lexemes) ++ [.closeBracket])
      (Takes.deepest levelsOf items) := by
    cases items with
    | nil => exact Stops.ofMark rfl (fun _ => rfl)
    | cons item rest =>
        obtain ⟨first, others⟩ := List.forall_mem_cons.mp streams
        obtain ⟨opening, more, equal, opens⟩ :=
          Takes.exists_cons_of_firm (List.forall_mem_cons.mp firm).1
        have further (value : β) : Stops bound
            (fun levels lexemes =>
              ((value :: ·) <$> Reader.moreElements element (lexemes.length + 1)) levels lexemes)
            (rest.flatMap (fun item => .comma :: lexemes item) ++ [.closeBracket])
            (Takes.deepest levelsOf rest) := fun levels fewer enough left =>
          (stops_moreElements others (left.length + 1)).map (value :: ·) levels fewer enough left
        have both := first.followed (by simp) further
        intro levels fewer enough left cut
        rw [List.map_cons, intercalate_cons, List.flatMap_map, List.append_assoc] at cut
        cases left with
        | nil => rfl
        | cons head tail =>
            have starts := cut
            rw [equal] at starts
            rw [Takes.elements_cons element levels (ne_closeBracket_of_cut opens starts)]
            exact both levels fewer enough _ cut
  exact Stops.behind rfl (fun _ => rfl) (fun _ _ => rfl) inside.nested

/-- Items that are taken one by one with some values are taken with some list of values. -/
theorem exists_mapM_outcome {holds : α → Except Malformation β → Prop}
    (each : ∀ item ∈ items, ∃ value, holds item (.ok value)) :
    ∃ outcome : α → Except Malformation β, (∀ item ∈ items, holds item (outcome item)) ∧
      ∃ values, items.mapM outcome = .ok values := by
  have chosen (item : α) : ∃ outcome : Except Malformation β,
      item ∈ items → holds item outcome ∧ ∃ value, outcome = .ok value := by
    by_cases member : item ∈ items
    · obtain ⟨value, own⟩ := each item member
      exact ⟨.ok value, fun _ => ⟨own, value, rfl⟩⟩
    · exact ⟨.error .emptyVariableName, fun inside => absurd inside member⟩
  obtain ⟨outcome, succeeds⟩ := Classical.axiomOfChoice chosen
  refine ⟨outcome, fun item member => (succeeds item member).1, ?_⟩
  have collected (items : List α) (ok : ∀ item ∈ items, ∃ value, outcome item = .ok value) :
      ∃ values, items.mapM outcome = .ok values := by
    induction items with
    | nil => exact ⟨[], rfl⟩
    | cons item rest ih =>
        obtain ⟨⟨value, here⟩, others⟩ := List.forall_mem_cons.mp ok
        obtain ⟨values, further⟩ := ih others
        exact ⟨value :: values, by rw [List.mapM_cons, here, further]; rfl⟩
  exact collected items (fun item member => (succeeds item member).2)

theorem Streams.list
    (streams : ∀ item ∈ items, element.Streams bound (lexemes item) (levelsOf item))
    (firm : ∀ item ∈ items, Firm (lexemes item)) :
    (Reader.list element).Streams (bound + 1)
      (.openBracket :: ([.comma].intercalate (items.map lexemes) ++ [.closeBracket]))
      (Takes.deepest levelsOf items + 1) := by
  obtain ⟨outcome, takes, values, collected⟩ :=
    exists_mapM_outcome (fun item member => (streams item member).takes)
  exact ⟨⟨values, (Takes.list takes firm).cast rfl rfl collected⟩,
    (Stops.list streams firm).breaks⟩

end Items

theorem Streams.pair {second : Reader β} {others : List Lexeme} {further : Nat}
    (streams : reader.Streams bound spelled depth) (firm : Firm spelled)
    (follows : second.Streams bound others further) :
    (Reader.pair reader second).Streams (bound + 1)
      (.openBracket :: (spelled ++ .comma :: (others ++ [.closeBracket])))
      (max depth further + 1) := by
  obtain ⟨one, takes⟩ := streams.takes
  obtain ⟨other, ends⟩ := follows.takes
  refine ⟨⟨(one, other), Takes.pair takes firm ends⟩, Stops.breaks ?_⟩
  have latter (one : α) : (Takes.pairAfter second one).Stops bound
      (.comma :: (others ++ [.closeBracket])) (max further 0) :=
    Stops.behind rfl (fun _ => rfl) (fun _ _ => rfl)
      (follows.followed (List.cons_ne_nil _ _)
        (fun other => Stops.closing (one, other) .closeBracket rfl))
  rw [Nat.max_zero] at latter
  have both := (streams.followed (List.cons_ne_nil _ _) latter).nested
  obtain ⟨opening, more, rfl, opens⟩ := Takes.exists_cons_of_firm firm
  intro levels fewer enough left cut
  cases cut with
  | before => rfl
  | within remnant => cases remnant
  | @behind _ _ left cut =>
      cases left with
      | nil =>
          obtain ⟨levels, rfl⟩ := Nat.exists_eq_succ_of_ne_zero (by omega : levels ≠ 0)
          rfl
      | cons head tail =>
          rw [Takes.pair_cons reader second levels (ne_closeBracket_of_cut opens cut)]
          exact both levels fewer enough _ cut

/-! ### Variants -/

theorem Stops.variant {γ : Type} {known : List String} {lookup : String → Option β}
    {bare : β → Except DataError γ} {payload : β → Reader γ} {key : String} {tag : β}
    (found : lookup key = some tag) (streams : (payload tag).Streams bound spelled depth) :
    (Reader.variant known lookup bare payload).Stops (bound + 1)
      (.openBrace :: .text (some key) :: .colon :: (spelled ++ [.closeBrace])) (depth + 1) := by
  have held : (punctuation .colon >>= fun _ => payload tag >>= fun value =>
      punctuation .closeBrace >>= fun _ => pure value).Stops bound
      (.colon :: (spelled ++ [.closeBrace])) (max depth 0) :=
    Stops.behind rfl (fun _ => rfl) (fun _ _ => rfl) (streams.followed (List.cons_ne_nil _ _)
      (fun value => Stops.closing value .closeBrace rfl))
  rw [Nat.max_zero] at held
  intro levels fewer enough left cut
  obtain ⟨levels, rfl⟩ := Nat.exists_eq_succ_of_ne_zero (Nat.ne_of_gt (Nat.zero_lt_of_lt enough))
  cases cut with
  | before => rfl
  | within remnant => cases remnant
  | behind _ cut =>
      cases cut with
      | before => rfl
      | within remnant =>
          cases remnant
          rfl
      | @behind _ _ left cut =>
          have named : Reader.variant known lookup bare payload (levels + 1)
              (.openBrace :: .text (some key) :: left) =
              (punctuation .colon >>= fun _ => payload tag >>= fun value =>
                punctuation .closeBrace >>= fun _ => pure value) levels left := by
            simp only [Reader.variant, Reader.nested, textFor, scalar, Bind.bind, found]
          rw [named]
          exact held levels (Nat.lt_of_succ_lt_succ fewer) (Nat.le_of_succ_le_succ enough) left cut

/-! ### Values -/

/-- The reader follows the spelling of the value however much of it there is. -/
def Follows (bound : Nat) (reader : Reader α) (json : Json) : Prop :=
  reader.Streams bound json.spelling json.depth

theorem Follows.list {element : Reader β} {write : α → Json} {items : List α}
    (follows : ∀ item ∈ items, element.Follows bound (write item))
    (solid : ∀ item ∈ items, write item ≠ .null) :
    (Reader.list element).Follows bound (.array (items.map write)) := by
  have whole := Streams.list follows (fun item member => firm_spelling (solid item member))
  refine (whole.mono (Nat.le_succ bound)).cast ?_ ?_
  · rw [spelling, spellings_eq_map, List.map_map]
    rfl
  · rw [depth, depths_map]

theorem Follows.pair {first : Reader α} {second : Reader β} {one other : Json}
    (follows : first.Follows bound one) (solid : one ≠ .null)
    (further : second.Follows bound other) :
    (Reader.pair first second).Follows bound (.array [one, other]) := by
  have whole := Streams.pair follows (firm_spelling solid) further
  refine (whole.mono (Nat.le_succ bound)).cast ?_ ?_
  · simp [spelling, spellings]
  · simp [depth, depths]

end Reader

end SyntaxTree.Json
