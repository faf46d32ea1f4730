import SyntaxTree.Proofs.Json.Agreement
import SyntaxTree.Proofs.VacantClauses

/-!
# Readers overlook vacant clauses

A reader overlooks the vacant clauses of a layout if reading any phrase agrees with reading it
trimmed. Readers without clauses of their own overlook those deeper within, as readers of their
parts do.
-/

namespace SyntaxTree.Json

variable {α β : Type}

namespace Reader

/-- Reading a phrase within the levels agrees with reading it without vacant clauses. -/
def Overlooks (levels : Nat) (layout : Layout) (related : α → α → Prop) (reader : Reader α) :
    Prop :=
  ∀ phrase : Phrase, phrase.depth ≤ levels →
    Agrees levels related reader phrase.lexemes reader (phrase.trimmed layout).lexemes

namespace Overlooks

variable {levels : Nat} {layout : Layout} {related : α → α → Prop} {reader : Reader α}

theorem map {consequence : β → β → Prop} {f : α → β}
    (overlooks : reader.Overlooks levels layout related)
    (carries : ∀ first second, related first second → consequence (f first) (f second)) :
    (f <$> reader).Overlooks levels layout consequence :=
  fun phrase shallow => (overlooks phrase shallow).map carries

theorem scalar {expected : String} {accepts : Lexeme → Option (Except DataError α)}
    (notArray : accepts .openBracket = none) (notObject : accepts .openBrace = none) :
    (Reader.scalar expected accepts).Overlooks levels layout Eq := by
  have single (lexeme : Lexeme) : Agrees levels Eq (Reader.scalar expected accepts) [lexeme]
      (Reader.scalar expected accepts) [lexeme] := by
    intro rest other
    simp only [Reader.scalar, List.singleton_append]
    cases accepts lexeme with
    | none => exact .refused rfl rfl
    | some answer =>
        cases answer with
        | ok value => exact .taken rfl rfl rfl
        | error error => exact .refused rfl rfl
  have opened (lexeme : Lexeme) (refuses : accepts lexeme = none) (inside others : List Lexeme) :
      Agrees levels Eq (Reader.scalar expected accepts) (lexeme :: inside)
        (Reader.scalar expected accepts) (lexeme :: others) := by
    intro rest other
    simp only [Reader.scalar, List.cons_append, refuses]
    exact .refused rfl rfl
  intro phrase shallow
  cases phrase with
  | array elements => exact opened .openBracket notArray _ _
  | object members => exact opened .openBrace notObject _ _
  | _ => exact single _

theorem text : Reader.text.Overlooks levels layout Eq := scalar rfl rfl

theorem bool : Reader.bool.Overlooks levels layout Eq := scalar rfl rfl

theorem unit : Reader.unit.Overlooks levels layout Eq := scalar rfl rfl

theorem int64 : Reader.int64.Overlooks levels layout Eq :=
  (scalar rfl rfl : (Reader.integer "i64" (-2 ^ 63) (2 ^ 63 - 1)).Overlooks levels layout Eq).map
    (fun _ _ => congrArg Int64.ofInt)

theorem index : Reader.index.Overlooks levels layout Eq :=
  (scalar rfl rfl : (Reader.integer "usize" 0 (2 ^ 64 - 1)).Overlooks levels layout Eq).map
    (fun _ _ => congrArg (fun value : Int => UInt64.ofNat value.toNat))

/-- Null is no value on both sides, and whatever else is there starts a value on both. -/
theorem option {consequence : Option α → Option α → Prop}
    (overlooks : reader.Overlooks levels layout related) (absent : consequence none none)
    (carries : ∀ first second, related first second → consequence (some first) (some second)) :
    reader.option.Overlooks levels layout consequence := by
  intro phrase shallow
  have some_value := (overlooks phrase shallow).map carries
  cases phrase with
  | null => exact fun _ _ => .taken absent rfl rfl
  | _ => exact some_value.agreeing [] (fun _ => rfl) (fun _ => rfl)

theorem optional (overlooks : reader.Overlooks levels layout Eq) :
    reader.option.Overlooks levels layout Eq :=
  overlooks.option rfl (fun _ _ => congrArg some)

/-! ### Lists, pairs and variants -/

/-- The elements behind one of an array, up to its closing bracket. -/
theorem moreElements {elements : List Phrase}
    (agrees : ∀ element ∈ elements, Agrees levels Eq reader element.lexemes reader
      (element.trimmed {}).lexemes)
    {steps further : Nat} (enough : elements.length < steps) (suffice : elements.length < further) :
    Agrees levels Eq (Reader.moreElements reader steps)
      (elements.flatMap (fun element => .comma :: element.lexemes) ++ [.closeBracket])
      (Reader.moreElements reader further)
      (elements.flatMap (fun element => .comma :: (element.trimmed {}).lexemes) ++
        [.closeBracket]) := by
  induction elements generalizing steps further with
  | nil =>
      obtain ⟨steps, rfl⟩ := Nat.exists_eq_succ_of_ne_zero (Nat.ne_of_gt enough)
      obtain ⟨further, rfl⟩ := Nat.exists_eq_succ_of_ne_zero (Nat.ne_of_gt suffice)
      exact fun _ _ => .taken rfl rfl rfl
  | cons element rest ih =>
      obtain ⟨steps, rfl⟩ := Nat.exists_eq_succ_of_ne_zero (Nat.ne_of_gt (Nat.zero_lt_of_lt enough))
      obtain ⟨further, rfl⟩ :=
        Nat.exists_eq_succ_of_ne_zero (Nat.ne_of_gt (Nat.zero_lt_of_lt suffice))
      obtain ⟨here, later⟩ := List.forall_mem_cons.mp agrees
      have others := ih later (Nat.lt_of_succ_lt_succ enough) (Nat.lt_of_succ_lt_succ suffice)
      have whole : Agrees levels Eq
          (reader >>= fun value => (value :: ·) <$> Reader.moreElements reader steps) _
          (reader >>= fun value => (value :: ·) <$> Reader.moreElements reader further) _ :=
        here.followed (fun value => others.map (fun _ _ => congrArg (value :: ·)))
      refine (whole.agreeing [.comma] (fun _ => ?_) (fun _ => ?_)).cast (by simp) (by simp)
      · exact Takes.moreElements_comma ..
      · exact Takes.moreElements_comma ..

theorem elements {elements : List Phrase}
    (agrees : ∀ element ∈ elements, Agrees levels Eq reader element.lexemes reader
      (element.trimmed {}).lexemes) :
    Agrees levels Eq (Reader.elements reader)
      ([.comma].intercalate (elements.map Phrase.lexemes) ++ [.closeBracket])
      (Reader.elements reader)
      ([.comma].intercalate (elements.map (fun element => (element.trimmed {}).lexemes)) ++
        [.closeBracket]) := by
  cases elements with
  | nil => exact fun _ _ => .taken rfl rfl rfl
  | cons element rest =>
      obtain ⟨here, later⟩ := List.forall_mem_cons.mp agrees
      have fuel (spelled : Phrase → List Lexeme) : rest.length ≤
          (rest.flatMap (fun element => .comma :: spelled element) ++
            [Lexeme.closeBracket]).length :=
        Nat.le_trans (Takes.length_le_flatMap_comma spelled rest) (by simp)
      let attempt (value : α) (length : Nat) : Reader (List α) :=
        (value :: ·) <$> Reader.moreElements reader (length + 1)
      have others (value : α) :=
        Agrees.fueled [] (attempt value) (attempt value) (fuel _) (fuel _)
          (fun _ _ enough suffice =>
            (moreElements later (Nat.lt_succ_of_le enough) (Nat.lt_succ_of_le suffice)).map
              (fun _ _ => congrArg (value :: ·)))
      refine ((here.followed others).agreeing [] (fun behind => ?_) (fun behind => ?_)).cast ?_ ?_
      · rw [List.append_assoc]
        exact Phrase.elements_first ..
      · rw [List.append_assoc]
        exact Phrase.elements_first ..
      · rw [List.map_cons, intercalate_cons, List.flatMap_map, List.append_assoc]
        rfl
      · rw [List.map_cons, intercalate_cons, List.flatMap_map, List.append_assoc]
        rfl

/-- An array whose elements stand for no fields, or a value of another type. -/
theorem array {expected : String}
    (agrees : ∀ inner, levels = inner + 1 → ∀ items : List Phrase,
      (∀ item ∈ items, item.depth ≤ inner) →
        Agrees inner related reader
          ([.comma].intercalate (items.map Phrase.lexemes) ++ [.closeBracket]) reader
          ([.comma].intercalate (items.map (fun item => (item.trimmed {}).lexemes)) ++
            [.closeBracket])) :
    (Reader.array expected reader).Overlooks levels {} related := by
  intro phrase shallow
  cases phrase with
  | array items =>
      obtain ⟨levels, rfl⟩ := Nat.exists_eq_succ_of_ne_zero (Nat.ne_of_gt (Nat.zero_lt_of_lt shallow))
      have inside := (agrees levels rfl items
        (Phrase.elementDepths_le.mp (Nat.le_of_succ_le_succ shallow))).nested
      rw [Phrase.trimmed_array, Phrase.lexemes, Phrase.lexemes, Phrase.elementLexemes_eq_map,
        Phrase.elementLexemes_eq_map, List.map_map]
      exact inside.agreeing [.openBracket] (fun _ => rfl) (fun _ => rfl)
  | _ => exact fun _ _ => .refused rfl rfl

theorem list (overlooks : ∀ inner, levels = inner + 1 → reader.Overlooks inner {} Eq) :
    (Reader.list reader).Overlooks levels {} Eq :=
  array (fun inner fewer _ shallow =>
    elements (fun element member => overlooks inner fewer element (shallow element member)))

/-- The second of a pair and its closing bracket, or the error at what is not there or too much. -/
theorem pairAfter {second : Reader β} (overlooks : second.Overlooks levels {} Eq) (one : α)
    {items : List Phrase} (shallow : ∀ item ∈ items, item.depth ≤ levels) :
    Agrees levels Eq (Takes.pairAfter second one)
      (items.flatMap (fun item => .comma :: item.lexemes) ++ [.closeBracket])
      (Takes.pairAfter second one)
      (items.flatMap (fun item => .comma :: (item.trimmed {}).lexemes) ++ [.closeBracket]) := by
  cases items with
  | nil => exact fun _ _ => .refused rfl rfl
  | cons item others =>
      have closes : Agrees levels (fun _ _ => True) (punctuation .closeBracket)
          (others.flatMap (fun item => .comma :: item.lexemes) ++ [.closeBracket])
          (punctuation .closeBracket)
          (others.flatMap (fun item => .comma :: (item.trimmed {}).lexemes) ++
            [.closeBracket]) := by
        cases others with
        | nil => exact .mark _ _
        | cons other more => exact fun _ _ => .refused rfl rfl
      have whole : Agrees levels Eq
          (second >>= fun other => punctuation .closeBracket >>= fun _ => pure (one, other)) _
          (second >>= fun other => punctuation .closeBracket >>= fun _ => pure (one, other)) _ :=
        (overlooks item (shallow item List.mem_cons_self)).followed (fun _ =>
          closes.andThen (fun _ _ _ => .done rfl))
      exact (whole.agreeing [.comma] (fun _ => rfl) (fun _ => rfl)).cast (by simp) (by simp)

theorem pair {second : Reader β}
    (overlooks : ∀ inner, levels = inner + 1 → reader.Overlooks inner {} Eq)
    (follows : ∀ inner, levels = inner + 1 → second.Overlooks inner {} Eq) :
    (Reader.pair reader second).Overlooks levels {} Eq := by
  refine array (fun inner fewer items shallow => ?_)
  cases items with
  | nil => exact fun _ _ => .refused rfl rfl
  | cons item others =>
      obtain ⟨here, later⟩ := List.forall_mem_cons.mp shallow
      have whole : Agrees inner Eq (reader >>= Takes.pairAfter second) _
          (reader >>= Takes.pairAfter second) _ :=
        (overlooks inner fewer item here).followed
          (fun one => pairAfter (follows inner fewer) one later)
      refine (whole.agreeing [] (fun rest => ?_) (fun rest => ?_)).cast ?_ ?_
      · rw [List.append_assoc]
        exact Phrase.pair_first reader second (inner + 1) item _
      · rw [List.append_assoc]
        exact Phrase.pair_first reader second (inner + 1) (item.trimmed {}) _
      · rw [List.map_cons, intercalate_cons, List.flatMap_map, List.append_assoc]
        rfl
      · rw [List.map_cons, intercalate_cons, List.flatMap_map, List.append_assoc]
        rfl

/-- What a variant reads behind the name of its object's first member. -/
def variantAfter (known : List String) (lookup : String → Option β) (payload : β → Reader α)
    (key : String) : Reader α :=
  match lookup key with
  | none => failData (.unknownVariant key known)
  | some variant => do
      punctuation .colon
      let value ← payload variant
      punctuation .closeBrace
      return value

/-- The payload and the closing brace, or the error at what is not there or too much. -/
theorem variantAfter_agrees (known : List String) {lookup : String → Option β}
    {payload : β → Reader α} {key : String}
    (overlooks : ∀ variant, lookup key = some variant →
      (payload variant).Overlooks levels (.ofName (some key)) related)
    {value : Phrase} (shallow : value.depth ≤ levels) (others : List (Option String × Phrase)) :
    Agrees levels related (variantAfter known lookup payload key)
      ([.colon] ++ (value.lexemes ++
        ((others.map Phrase.spelledMember).flatMap (.comma :: ·) ++ [.closeBrace])))
      (variantAfter known lookup payload key)
      ([.colon] ++ ((value.trimmed (.ofName (some key))).lexemes ++
        ((others.map (fun member => Phrase.spelledMember
          (member.1, member.2.trimmed (.ofName member.1)))).flatMap (.comma :: ·) ++
            [.closeBrace]))) := by
  unfold variantAfter
  cases found : lookup key with
  | none => exact .failing _
  | some variant =>
      refine (Agrees.mark .colon .colon).andThen (fun _ _ _ =>
        (overlooks variant found value shallow).andThen (fun _ _ holds => ?_))
      cases others with
      | nil => exact (Agrees.mark .closeBrace .closeBrace).andThen (fun _ _ _ => .done holds)
      | cons other more => exact fun _ _ => .refused rfl rfl

/-- The bare name of a variant, or an object of its name and its payload. -/
theorem variant {known : List String} {lookup : String → Option β}
    {bare : β → Except DataError α} {payload : β → Reader α}
    (same : ∀ variant value, bare variant = .ok value → related value value)
    (overlooks : ∀ inner, levels = inner + 1 → ∀ key variant, lookup key = some variant →
      (payload variant).Overlooks inner (.ofName (some key)) related) :
    (Reader.variant known lookup bare payload).Overlooks levels {} related := by
  intro phrase shallow
  cases phrase with
  | text content =>
      cases content with
      | none => exact fun _ _ => .refused rfl rfl
      | some key =>
          intro rest other
          simp only [Phrase.trimmed, Phrase.lexemes, List.singleton_append, Reader.variant]
          cases lookup key with
          | none => exact .refused rfl rfl
          | some variant =>
              dsimp only
              cases named : bare variant with
              | error error => exact .refused rfl rfl
              | ok value => exact .taken (same variant value named) rfl rfl
  | object members =>
      rw [Phrase.trimmed_object, Phrase.lexemes, Phrase.lexemes, Phrase.memberLexemes_eq_map,
        Phrase.memberLexemes_eq_map, List.map_map]
      obtain ⟨levels, rfl⟩ := Nat.exists_eq_succ_of_ne_zero (Nat.ne_of_gt (Nat.zero_lt_of_lt shallow))
      cases members with
      | nil => exact fun _ _ => .refused rfl rfl
      | cons member others =>
          obtain ⟨name, value⟩ := member
          rw [List.map_cons, List.map_cons, intercalate_cons, intercalate_cons, List.append_assoc,
            List.append_assoc]
          cases name with
          | none => exact fun _ _ => .refused rfl rfl
          | some key =>
              have within : value.depth ≤ levels :=
                Nat.le_trans (Nat.le_max_left value.depth (Phrase.memberDepths others))
                  (Nat.le_of_succ_le_succ shallow)
              have inside := (variantAfter_agrees known (overlooks levels rfl key) within
                others).nested
              exact inside.agreeing [.openBrace, .text (some key)] (fun _ => rfl) (fun _ => rfl)
  | _ => exact fun _ _ => .refused rfl rfl

end Overlooks

end Reader

end SyntaxTree.Json
