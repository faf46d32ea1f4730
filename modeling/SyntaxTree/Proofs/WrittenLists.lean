import SyntaxTree.Proofs.CanonicalText

/-!
# Written lists

Items are written one after another, each behind a space if something stands in the line already. A
list of them is written unless a raw literal stands in it, at any depth, that is neither a text nor
an integer; the first such literal from left to right is the error. What is written shows each item
in its place, those that show nothing without a trace. So an item that shows nothing can be left out
at any depth, as long as some item is left and the mark in front stays as it is.
-/

namespace SyntaxTree

variable {α β γ : Type}

/-- The literal can stand in a written list as it is. -/
def Literal.isWritable : Literal → Bool
  | .text _ | .int _ => true
  | _ => false

namespace Item

mutual

/-- The raw literals of an item that cannot be written, from left to right. -/
def unwritable : Item α → List Literal
  | .group items | .bracket items => listUnwritable items
  | .literal value => if value.isWritable then [] else [value]
  | _ => []

def listUnwritable : List (Item α) → List Literal
  | [] => []
  | item :: rest => unwritable item ++ listUnwritable rest

end

def nonempty (texts : List (List Char)) : List (List Char) :=
  texts.filter (fun text => !text.isEmpty)

theorem nonempty_cons (text : List Char) (texts : List (List Char)) :
    nonempty (text :: texts) = if text.isEmpty then nonempty texts else text :: nonempty texts := by
  cases text <;> rfl

/-! ### From left to right -/

/-- A line and a text behind it, with a space between them unless nothing stands in the line. -/
def appended (line text : List Char) : List Char :=
  if line.isEmpty then text else line ++ ' ' :: text

/-- A line that a text was added to stands for both of them among the texts. -/
theorem intercalate_appended (line : List Char) {text : List Char} (visible : text ≠ [])
    (texts : List (List Char)) :
    [' '].intercalate (nonempty [appended line text] ++ texts) =
      [' '].intercalate (nonempty [line] ++ text :: texts) := by
  cases text with
  | nil => exact absurd rfl visible
  | cons first more =>
      cases line with
      | nil => rfl
      | cons char rest =>
          have both : nonempty [appended (char :: rest) (first :: more)] =
              [(char :: rest) ++ ' ' :: first :: more] := rfl
          have begun : nonempty [char :: rest] = [char :: rest] := rfl
          rw [both, begun]
          cases texts <;> simp [List.intercalate_cons_cons]

section Joined

variable (write : α → Except UnprintableLiteral (List Char))

/-- Writes items one after another behind a line, which tells whether a space is needed. -/
def joined : List (Item α) → List Char → Except UnprintableLiteral (List Char)
  | [], line => .ok line
  | item :: rest, line =>
      if item.isLeadingSpace then
        joined rest line
      else do
        let shown ← text write item
        if shown.isEmpty then joined rest line else joined rest (appended line shown)

/-- Written one after another, items come to their texts with single spaces between them. -/
theorem joined_eq (items : List (Item α)) (line : List Char) :
    joined write items line =
      (fun texts => [' '].intercalate (nonempty [line] ++ texts)) <$> texts write items := by
  induction items generalizing line with
  | nil => cases line <;> simp [joined, texts, nonempty, Functor.map, Except.map]
  | cons item rest ih =>
      rw [joined, texts]
      cases space : item.isLeadingSpace with
      | true => exact ih line
      | false =>
          rw [if_neg Bool.false_ne_true, if_neg Bool.false_ne_true]
          cases text write item with
          | error unprintable => rfl
          | ok shown =>
              cases shown with
              | nil =>
                  apply (ih line).trans
                  cases texts write rest <;> rfl
              | cons char more =>
                  apply (ih (appended line (char :: more))).trans
                  cases texts write rest with
                  | error unprintable => rfl
                  | ok others =>
                      exact congrArg Except.ok
                        (intercalate_appended line (List.cons_ne_nil char more) others)

/-- A group and a bracket hold their items as they are written one after another. -/
theorem text_eq_joined (items : List (Item α)) :
    text write (.group items) =
        (fun line => '(' :: (line ++ [')'])) <$> joined write items [] ∧
      text write (.bracket items) =
        (fun line => '[' :: (line ++ [']'])) <$> joined write items [] := by
  rw [text, text, joined_eq]
  cases texts write items <;> exact ⟨rfl, rfl⟩

/-- So does a whole list, with a space in front if its first item asks for one. -/
theorem list_eq_joined (first : Item α) (rest : List (Item α)) :
    list write (first :: rest) =
      (fun line => (if first.isLeadingSpace then [' '] else []) ++ '(' :: (line ++ [')'])) <$>
        joined write (first :: rest) [] := by
  rw [list]
  cases space : first.isLeadingSpace with
  | true =>
      rw [if_pos rfl, (text_eq_joined write rest).1, joined, space, if_pos rfl]
      cases joined write rest [] <;> rfl
  | false =>
      rw [if_neg Bool.false_ne_true, (text_eq_joined write (first :: rest)).1]
      rfl

end Joined

/-! ### What is shown -/

section Shown

variable (word : α → List Char)

mutual

/-- What an item shows within a list, where the atom that asks for a space shows nothing. -/
def shown : Item α → List Char
  | .absent => []
  | .atom text => if text = [' '] then [] else text
  | .int value => Text.integer value.toInt
  | .group items => '(' :: ([' '].intercalate (nonempty (listShown items)) ++ [')'])
  | .bracket items => '[' :: ([' '].intercalate (nonempty (listShown items)) ++ [']'])
  | .tree subtree => word subtree
  | .literal (.text value) => value.toList
  | .literal (.int value) => Text.integer value.toInt
  | .literal _ => []

def listShown : List (Item α) → List (List Char)
  | [] => []
  | item :: rest => shown item :: listShown rest

end

/-- The first item asks for a space in front of the list. -/
def asksForSpace (items : List (Item α)) : Bool := items.head?.any isLeadingSpace

/-- What a whole list shows. An empty one shows nothing. -/
def line (items : List (Item α)) : List Char :=
  if items.isEmpty then []
  else (if asksForSpace items then [' '] else []) ++ shown word (.group items)

end Shown

/-- The value, or the first literal that cannot be written. -/
def barring (literals : List Literal) (value : β) : Except UnprintableLiteral β :=
  match literals with
  | [] => .ok value
  | barred :: _ => .error ⟨barred⟩

theorem barring_bind (first second : List Literal) (value : β) (other : γ)
    {next : β → Except UnprintableLiteral γ} (follows : next value = barring second other) :
    barring first value >>= next = barring (first ++ second) other := by
  cases first with
  | nil => exact follows
  | cons barred rest => rfl

theorem barring_pure (literals : List Literal) (value : β) (f : β → γ) :
    (do return f (← barring literals value)) = barring literals (f value) := by
  cases literals <;> rfl

theorem shown_of_isLeadingSpace (word : α → List Char) {item : Item α}
    (space : item.isLeadingSpace = true) : item.shown word = [] ∧ item.unwritable = [] := by
  unfold isLeadingSpace at space
  split at space
  · exact ⟨rfl, rfl⟩
  · cases space

/-! ### Writing -/

section Write

variable (word : α → List Char)

mutual

theorem text_eq_barring (item : Item α) (visible : item.isLeadingSpace = false) :
    text (fun subtree => .ok (word subtree)) item = barring item.unwritable (item.shown word) := by
  cases item with
  | absent => rfl
  | int value => rfl
  | tree subtree => rfl
  | atom text =>
      have other : text ≠ [' '] := by
        rintro rfl
        cases visible
      rw [shown, if_neg other]
      rfl
  | literal value => cases value <;> rfl
  | group items =>
      rw [text, texts_eq_barring items]
      exact barring_pure _ _ _
  | bracket items =>
      rw [text, texts_eq_barring items]
      exact barring_pure _ _ _

theorem texts_eq_barring (items : List (Item α)) :
    texts (fun subtree => .ok (word subtree)) items =
      barring (listUnwritable items) (nonempty (listShown word items)) := by
  cases items with
  | nil => rfl
  | cons item rest =>
      have others := texts_eq_barring rest
      rw [texts, listUnwritable, listShown]
      cases space : item.isLeadingSpace with
      | true =>
          obtain ⟨nothing, clean⟩ := shown_of_isLeadingSpace word space
          simpa [nothing, clean, nonempty] using others
      | false =>
          rw [text_eq_barring item space, others]
          apply barring_bind
          rw [barring_pure, nonempty_cons]

end

/-- A list shows its line, or fails with the first literal that cannot be written. -/
theorem list_eq_barring (items : List (Item α)) :
    list (fun subtree => .ok (word subtree)) items =
      barring (listUnwritable items) (line word items) := by
  cases items with
  | nil => rfl
  | cons first rest =>
      rw [list]
      cases space : first.isLeadingSpace with
      | true =>
          obtain ⟨nothing, clean⟩ := shown_of_isLeadingSpace word space
          rw [if_pos rfl, text_eq_barring word (.group rest) rfl]
          have same : line word (first :: rest) = ' ' :: shown word (.group rest) := by
            simp [line, asksForSpace, space, shown, listShown, nothing, nonempty]
          rw [same, listUnwritable, clean, List.nil_append]
          exact barring_pure _ _ _
      | false =>
          rw [if_neg Bool.false_ne_true, text_eq_barring word (.group (first :: rest)) rfl]
          have same : line word (first :: rest) = shown word (.group (first :: rest)) := by
            simp [line, asksForSpace, space]
          rw [same]
          rfl

end Write

/-! ### Leaving items out -/

/-- The item shows nothing, whatever the words for subtrees are. -/
inductive IsVain : Item α → Prop
  | absent : IsVain .absent
  | emptyAtom : IsVain (.atom [])
  | leadingSpace : IsVain (.atom [' '])
  | emptyLiteral : IsVain (.literal (.text ""))

/-- One item that shows nothing is left out of the items, or of a list among them at any depth. -/
inductive Thinned : List (Item α) → List (Item α) → Prop
  | here {item : Item α} {rest : List (Item α)} (vain : item.IsVain) : Thinned (item :: rest) rest
  | later {item : Item α} {rest fewer : List (Item α)} (thinned : Thinned rest fewer) :
      Thinned (item :: rest) (item :: fewer)
  | group {items fewer rest : List (Item α)} (thinned : Thinned items fewer) :
      Thinned (.group items :: rest) (.group fewer :: rest)
  | bracket {items fewer rest : List (Item α)} (thinned : Thinned items fewer) :
      Thinned (.bracket items :: rest) (.bracket fewer :: rest)

namespace Thinned

variable {items fewer : List (Item α)}

theorem listUnwritable_eq (thinned : Thinned items fewer) :
    listUnwritable fewer = listUnwritable items := by
  induction thinned with
  | here vain => cases vain <;> rfl
  | later _ ih => rw [listUnwritable, listUnwritable, ih]
  | group _ ih | bracket _ ih => simp only [listUnwritable, unwritable, ih]

theorem nonempty_listShown_eq (word : α → List Char) (thinned : Thinned items fewer) :
    nonempty (listShown word fewer) = nonempty (listShown word items) := by
  induction thinned with
  | here vain => cases vain <;> rfl
  | later _ ih => rw [listShown, listShown, nonempty_cons, nonempty_cons, ih]
  | group _ ih | bracket _ ih => simp only [listShown, shown, ih]

theorem ne_nil (thinned : Thinned items fewer) : items ≠ [] := by
  cases thinned <;> exact List.cons_ne_nil _ _

/-- The line stays as it is if and only if some item is left and the space in front stays. -/
theorem line_eq_iff (word : α → List Char) (thinned : Thinned items fewer) :
    line word fewer = line word items ↔
      fewer ≠ [] ∧ asksForSpace fewer = asksForSpace items := by
  have whole : line word items =
      (if asksForSpace items then [' '] else []) ++ shown word (.group items) := by
    simp [line, thinned.ne_nil]
  have group : shown word (.group fewer) = shown word (.group items) := by
    rw [shown, shown, thinned.nonempty_listShown_eq]
  rw [whole]
  cases fewer with
  | nil => cases asksForSpace items <;> simp [line, shown]
  | cons first rest =>
      have left : line word (first :: rest) =
          (if asksForSpace (first :: rest) then [' '] else []) ++ shown word (.group items) :=
        congrArg _ group
      rw [left, List.append_cancel_right_eq]
      cases asksForSpace (first :: rest) <;> cases asksForSpace items <;> simp

end Thinned

/-! ### Lists of trees -/

mutual

theorem unwritable_of_isWritable (item : Item α) (writable : item.IsWritable) :
    item.unwritable = [] := by
  cases item with
  | group items => exact listUnwritable_of_areWritable items writable
  | bracket items => exact listUnwritable_of_areWritable items writable
  | literal value => exact writable.elim
  | _ => rfl

theorem listUnwritable_of_areWritable (items : List (Item α)) (writable : AreWritable items) :
    listUnwritable items = [] := by
  cases items with
  | nil => rfl
  | cons item rest =>
      rw [listUnwritable, unwritable_of_isWritable item writable.1,
        listUnwritable_of_areWritable rest writable.2]
      rfl

end

end Item

/-- No form holds a raw literal, so each has a canonical form as soon as its children have. -/
theorem Form.exists_canonical (word : α → List Char) (form : Form α) :
    ∃ text, form.canonical (fun child => .ok (word child)) = .ok text := by
  have listed (some_items : form.items ≠ []) :
      ∃ text, Item.list (fun child => .ok (word child)) form.items = .ok text := by
    have clean := Item.listUnwritable_of_areWritable _ (items_hold some_items).writable
    refine ⟨Item.line word form.items, ?_⟩
    rw [Item.list_eq_barring, clean]
    rfl
  cases form with
  | value literal => exact ⟨_, rfl⟩
  | var reference => exact ⟨_, rfl⟩
  | spread inner => exact ⟨_, rfl⟩
  | _ => exact listed nofun

/-- Every tree has a canonical form, also one that could not be built. -/
theorem Node.canonical_eq_ok (node : Node) : node.canonical = .ok node.canonicalText := by
  induction node using Node.induction with
  | step node ih =>
      have children : node.form.map canonical =
          node.form.map (fun child => .ok child.canonicalText) := Form.map_congr ih
      have whole : node.canonical =
          node.form.canonical (fun child => .ok child.canonicalText) := by
        rw [canonical, fold_eq, ← canonical, children, Form.canonical_map]
        rfl
      obtain ⟨text, written⟩ := Form.exists_canonical canonicalText node.form
      rw [canonicalText, whole, written]
      rfl

/-- A list of trees is written as its line, or fails with its first literal that cannot be. -/
theorem Item.list_canonical (items : List (Item Node)) :
    list Node.canonical items = barring (listUnwritable items) (line Node.canonicalText items) := by
  rw [funext Node.canonical_eq_ok, list_eq_barring]

/--
Trees and the cases of switches are always written, and a list of items is written as its line, or
fails with its first literal that is neither a text nor an integer. An item that shows nothing can
be left out of it, at any depth, without a change if and only if the list fails, or some item is
left and as before the first one asks for a space or does not; so it is if the first item stays.
-/
theorem Item.list_canonical_thinned :
    (∀ node : Node, node.canonical = .ok (shown Node.canonicalText (.tree node))) ∧
      (∀ arm : SwitchCase Node, arm.canonical = .ok (shown Node.canonicalText (.group arm.items))) ∧
      ∀ items : List (Item Node),
        list Node.canonical items =
            barring (listUnwritable items) (line Node.canonicalText items) ∧
          ∀ fewer, Thinned items fewer →
            (list Node.canonical fewer = list Node.canonical items ↔
              listUnwritable items ≠ [] ∨
                fewer ≠ [] ∧ asksForSpace fewer = asksForSpace items) := by
  refine ⟨Node.canonical_eq_ok, fun arm => ?_, fun items => ⟨list_canonical items, ?_⟩⟩
  · have clean : listUnwritable arm.items = [] :=
      listUnwritable_of_areWritable _ (Form.arm_holds arm).writable.1
    rw [SwitchCase.canonical, list_canonical, clean]
    rfl
  · intro fewer thinned
    rw [list_canonical, list_canonical, thinned.listUnwritable_eq,
      ← thinned.line_eq_iff Node.canonicalText]
    cases listUnwritable items <;> simp [barring]

/--
A mark within a group can be left out. An absent item in front of a mark cannot, since the mark
would come to stand in front of the list.
-/
theorem Item.list_canonical_thinned_marks :
    let mark : Item Node := .atom [' ']
    let grouped : List (Item Node) := [.word "a", .group [mark, .word "x"]]
    let behind : List (Item Node) := [.absent, mark, .word "x"]
    Thinned grouped [.word "a", .group [.word "x"]] ∧
      list Node.canonical [.word "a", .group [.word "x"]] = list Node.canonical grouped ∧
      Thinned behind [mark, .word "x"] ∧
      list Node.canonical [mark, .word "x"] ≠ list Node.canonical behind := by
  intro mark grouped behind
  have inside : Thinned grouped [.word "a", .group [.word "x"]] := .later (.group (.here .leadingSpace))
  have front : Thinned behind [mark, .word "x"] := .here .absent
  have stays := (list_canonical_thinned.2.2 grouped).2 _ inside
  have moves := (list_canonical_thinned.2.2 behind).2 _ front
  refine ⟨inside, stays.mpr (.inr ⟨List.cons_ne_nil _ _, rfl⟩), front, fun equal => ?_⟩
  rcases moves.mp equal with fails | ⟨-, same⟩
  · exact fails rfl
  · cases same

end SyntaxTree
