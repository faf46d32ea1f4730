import SyntaxTree.Proofs.TreeReading
import SyntaxTree.Proofs.TrimmedForms

/-!
# Trees are read alike without vacant clauses

Reading a tree overlooks vacant clauses: its children are read alike, so the forms that are read
differ at most in clauses that building drops, and the nodes are the same. So a clause may be left
out of a JSON text, be null or be the sentinel, and the tree or the error is the same.
-/

namespace SyntaxTree

open Json (Phrase Reader)
open Json.Reader (Agrees)

namespace Node

/-- The node of a form is built after reading it as that of any form that is alike. -/
theorem assembled_agrees {levels : Nat} {first second : Form Node}
    (alike : first.Alike isSentinel second) :
    Agrees levels Eq (assembled first) [] (assembled second) [] := by
  unfold assembled
  rw [ofForm_eq_of_alike alike]
  cases ofForm second with
  | ok node => exact .done rfl
  | error cause => exact .failing _

/-- The JSON of the sentinel is read as a sentinel at every height. -/
theorem readUpTo_sentinel {height levels : Nat} (below : levels < height)
    (shallow : Phrase.sentinel.depth ≤ levels) :
    ∃ node : Node, node.isSentinel = true ∧
      ∀ rest, readUpTo height levels (Phrase.sentinel.lexemes ++ rest) = .ok (node, rest) :=
  ⟨sentinel.erased, rfl, (readUpTo_reads height sentinel).within levels below shallow⟩

/-- Induction on the height; the children of the node that is read are one lower. -/
theorem readUpTo_overlooks {height levels : Nat} (below : levels < height) :
    (readUpTo height).Overlooks levels {} Eq := by
  induction height generalizing levels with
  | zero => exact absurd below (Nat.not_lt_zero levels)
  | succ height ih =>
      have tolerates (inner : Nat) (fewer : inner < height) :
          (⟨readUpTo height, toJson⟩ : Json.Codec Node).Tolerates isSentinel inner :=
        ⟨fun _ le => ih (Nat.lt_of_le_of_lt le fewer),
          fun _ le => readUpTo_sentinel (Nat.lt_of_le_of_lt le fewer)⟩
      have form : (Reader.variant (Kind.all.map Kind.name) Kind.ofName?
          (fun _ => .error (.invalidType .bareName "newtype variant"))
          (Form.read ⟨readUpTo height, toJson⟩)).Overlooks levels {}
            (Form.Alike isSentinel) := by
        refine .variant (fun _ _ => nofun) (fun inner fewer key kind found => ?_)
        have layout : Layout.ofName (some key) = .ofKind kind := by
          simp [Layout.ofName, found]
        rw [layout]
        exact Form.read_overlooks (tolerates inner (by omega)) kind
      intro phrase shallow
      exact ((form phrase shallow).andThen (fun _ _ alike => assembled_agrees alike)).cast
        (List.append_nil _) (List.append_nil _)

theorem read_overlooks (levels : Nat) : read.Overlooks levels {} Eq :=
  readUpTo_overlooks (Nat.lt_succ_self levels)

/-- Texts of phrases that differ in vacant clauses only are read the same. -/
theorem ofJsonText_eq_of_trimmed {first second : String} {phrase other : Phrase}
    (spelled : Json.lexemes first.toList = phrase.lexemes)
    (respelled : Json.lexemes second.toList = other.lexemes)
    (shallow : phrase.depth ≤ nestingLimit) (likewise : other.depth ≤ nestingLimit)
    (same : phrase.trimmed {} = other.trimmed {}) : ofJsonText first = ofJsonText second := by
  have trims {text : String} {phrase : Phrase} (spelled : Json.lexemes text.toList = phrase.lexemes)
      (shallow : phrase.depth ≤ nestingLimit) :
      ofJsonText text = match read nestingLimit (phrase.trimmed {}).lexemes with
        | .ok (node, _) => .ok node
        | .error error => .error error := by
    have agrees := read_overlooks nestingLimit phrase shallow [] []
    rw [List.append_nil, List.append_nil] at agrees
    rw [ofJsonText, readText, Reader.run, spelled]
    cases agrees with
    | taken equal takes trimmed_takes => rw [takes, trimmed_takes, equal]
    | refused fails trimmed_fails => rw [fails, trimmed_fails]
  rw [trims spelled shallow, trims respelled likewise, same]

/--
An optional clause that holds a sentinel is the same as none: forms that differ in that are built as
one node or refused with one cause, and JSON texts are read the same when they do not differ once
their vacant clauses are trimmed, wherever one is left out, null or the sentinel. A node is built
again from its form as itself. Building drops nothing but sentinels from optional clauses, and
leaves none of them there.
-/
theorem clauses_interchange :
    (∀ first second : Form Node, first.Alike isSentinel second → ofForm first = ofForm second) ∧
    (∀ (first second : String) (phrase other : Phrase),
      Json.lexemes first.toList = phrase.lexemes → Json.lexemes second.toList = other.lexemes →
      phrase.depth ≤ nestingLimit → other.depth ≤ nestingLimit →
      phrase.trimmed {} = other.trimmed {} → ofJsonText first = ofJsonText second) ∧
    (∀ (kind : Kind) (clause : String) (value : Phrase) (before after : List (Option String × Phrase)),
      clause ∈ (Layout.ofKind kind).clauses → value = .null ∨ value = .sentinel →
      (∀ member ∈ before ++ after, member.1 ≠ some clause) →
      (Phrase.object (before ++ (some clause, value) :: after)).trimmed (.ofKind kind) =
        (Phrase.object (before ++ after)).trimmed (.ofKind kind)) ∧
    (∀ node : Node, node.Constructible →
      ∃ again, ofForm node.form = .ok again ∧ (again == node) = true) ∧
    ∀ (form : Form Node) (node : Node), ofForm form = .ok node →
      form.Alike isSentinel node.form ∧
        (∀ clause ∈ node.form.clauses, Form.Unfeigned isSentinel clause) ∧
        form.fixedChildren.Sublist node.children := by
  refine ⟨fun _ _ => ofForm_eq_of_alike, fun _ _ _ _ => ofJsonText_eq_of_trimmed, ?_, ?_,
    fun _ _ => form_alike_of_ofForm⟩
  · intro kind clause value before after clausal vacant alone
    refine Phrase.trimmed_object_clause clausal ?_ alone
    obtain rfl | rfl := vacant <;> rfl
  · intro node constructible
    exact exists_ofForm_form (throughout_iff.mp constructible.regular_throughout).1

/-- A conditional with a sentinel for its condition, whose bodies are left out, null or sentinels. -/
theorem clauses_interchange_sentinels :
    let absent : Form Node := .cond ⟨some sentinel, none, none⟩
    let feigned : Form Node := .cond ⟨some sentinel, some sentinel, none⟩
    let node := ofCheckedForm absent
    let members (clauses : List (Option String × Phrase)) : Phrase :=
      .object ((some "cond", .sentinel) :: clauses)
    let phrase (clauses : List (Option String × Phrase)) : Phrase :=
      .object [(some "if", members clauses)]
    let bare := "\x7b\"if\": \x7b\"cond\": \x7b\"value\": null\x7d\x7d\x7d"
    let full := "\x7b\"if\": \x7b\"cond\": \x7b\"value\": null\x7d, " ++
      "\"then\": null, \"else\": \x7b\"value\": null\x7d\x7d\x7d"
    (feigned.Alike isSentinel absent ∧ ofForm feigned = ofForm absent) ∧
    ((phrase []).trimmed {} = (phrase [(some "then", .null), (some "else", .sentinel)]).trimmed {} ∧
      ofJsonText bare = ofJsonText full) ∧
    (members [(some "then", .null), (some "else", .sentinel)]).trimmed (.ofKind .cond) =
      (members [(some "then", .null)]).trimmed (.ofKind .cond) ∧
    (sentinel.Constructible ∧
      ∃ again, ofForm sentinel.form = .ok again ∧ (again == sentinel) = true) ∧
    (ofForm feigned = .ok node ∧ feigned.fixedChildren.Sublist node.children) := by
  intro absent feigned node members phrase bare full
  obtain ⟨forms, texts, clauses, again, building⟩ := clauses_interchange
  have alike : feigned.Alike isSentinel absent :=
    .cond rfl (.inr ⟨fun child equal => Option.some.inj equal ▸ rfl, nofun⟩) (.inl rfl)
  have same : (phrase []).trimmed {} =
      (phrase [(some "then", .null), (some "else", .sentinel)]).trimmed {} := rfl
  have spelled : Json.lexemes bare.toList = (phrase []).lexemes := by decide
  have respelled : Json.lexemes full.toList =
      (phrase [(some "then", .null), (some "else", .sentinel)]).lexemes := by decide
  have constructible : sentinel.Constructible := .value _
  have built : ofForm feigned = .ok node := rfl
  refine ⟨⟨alike, forms _ _ alike⟩,
    ⟨same, texts _ _ _ _ spelled respelled (by decide) (by decide) same⟩, ?_,
    ⟨constructible, again _ constructible⟩, ⟨built, (building _ _ built).2.2⟩⟩
  exact clauses .cond "else" .sentinel [(some "cond", .sentinel), (some "then", .null)] []
    (by decide) (.inr rfl) (by decide)

end Node
end SyntaxTree
