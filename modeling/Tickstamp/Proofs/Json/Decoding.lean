import Tickstamp.Json.Decoding
import Tickstamp.Proofs.Json.Tree

/-!
# What the readers of values accept

A text is as good as its tree if nothing follows it. A number below a bound is
read from its own tree alone, and a field from the one member with its name; if
the name is missing or repeated, whatever its values are, the text is refused.
Here stands only what all types share.
-/

namespace Tickstamp.Json

/-- A text that is one value, with nothing after it, means what its tree means. -/
theorem readText_of_read {α : Type} (read : Tree → Result α) {text : String} {tree : Tree}
    (whole : Tree.read (Token.ofText text) = (tree, [])) : readText read text = read tree := by
  rw [readText, whole]
  cases h : read tree <;> simp [h, bind, Except.bind, pure, Except.pure]

theorem readText_render {α : Type} (read : Tree → Result α) {tree : Tree} (whole : tree.Whole) :
    readText read tree.render = read tree :=
  readText_of_read read (Tree.read_render whole)

theorem map_eq_ok_iff {α β : Type} {read : Result α} {place : α → β} {b : β} :
    read.map place = .ok b ↔ ∃ a, read = .ok a ∧ place a = b := by
  cases read <;> simp [Except.map]

/-- A text is accepted if it is one value that is accepted, with nothing after it. -/
theorem readText_eq_ok_iff {α : Type} (read : Tree → Result α) (text : String) (a : α) :
    readText read text = .ok a ↔
      ∃ tree, Tree.read (Token.ofText text) = (tree, []) ∧ read tree = .ok a := by
  rw [readText]
  obtain ⟨tree, rest⟩ := Tree.read (Token.ofText text)
  cases value : read tree with
  | error refusal => simp [value, bind, Except.bind]
  | ok b => cases rest <;> simp [value, bind, Except.bind, pure, Except.pure, throw, throwThe,
      MonadExceptOf.throw]

namespace Tree

theorem word_natural (w : UInt64) : (natural w.toNat).word = .ok w := by
  simp [word, w.toNat_lt]

theorem word_eq_ok_iff (tree : Tree) (w : UInt64) :
    tree.word = .ok w ↔ tree = .natural w.toNat := by
  constructor
  · intro read
    cases tree with
    | natural n =>
      by_cases small : n < UInt64.size
      · rw [word, if_pos small] at read
        cases read
        rw [UInt64.toNat_ofNat_of_lt' small]
      · rw [word, if_neg small] at read
        cases read
    | null | bool | decimal | text | array | object | missing => cases read
  · rintro rfl
    exact word_natural w

theorem flag_eq_ok_iff (tree : Tree) (b : Bool) : tree.flag = .ok b ↔ tree = .bool b := by
  cases tree <;> simp [flag]

theorem width_natural {n : Nat} (small : n < 256) : (natural n).width = .ok n := by
  simp [width, small]

/-- The one member with this name has this value. -/
def Names (members : List Member) (name : String) (tree : Tree) : Prop :=
  ∃ before after, members = before ++ (some name, tree) :: after ∧
    ∀ member ∈ before ++ after, member.1 ≠ some name

theorem field_eq_ok_iff (members : List Member) (name : String) (tree : Tree) :
    field members name = .ok tree ↔ Names members name tree := by
  constructor
  · intro found
    rw [field] at found
    split at found
    · next other value only =>
      cases found
      obtain ⟨before, after, rfl, earlier, same, later⟩ := List.filter_eq_cons_iff.mp only
      rw [beq_iff_eq] at same
      cases same
      refine ⟨before, after, rfl, ?_⟩
      intro member place
      rcases List.mem_append.mp place with place | place
      · simpa using earlier member place
      · simpa using List.filter_eq_nil_iff.mp later member place
    · cases found
  · rintro ⟨before, after, rfl, others⟩
    have earlier : before.filter (·.1 == some name) = [] := by
      rw [List.filter_eq_nil_iff]
      intro member place
      simpa using others member (List.mem_append_left _ place)
    have later : after.filter (·.1 == some name) = [] := by
      rw [List.filter_eq_nil_iff]
      intro member place
      simpa using others member (List.mem_append_right _ place)
    simp [field, earlier, later]

/-- Reading goes on with the one member of this name; without it the text is malformed. -/
theorem field_bind {α : Type} {members : List Member} {name : String} {next : Tree → Result α}
    {Q : Prop} (goOn : ∀ tree, Names members name tree → Q ∨ next tree = .error .malformed) :
    Q ∨ (field members name >>= next) = .error .malformed := by
  cases found : field members name with
  | ok tree => exact goOn tree ((field_eq_ok_iff ..).mp found)
  | error refusal =>
    right
    rw [field] at found
    split at found
    · cases found
    · rw [← found]
      rfl

theorem namesOk_iff (members : List Member) :
    namesOk members = true ↔ ∀ member ∈ members, member.1 ≠ none := by
  simp [namesOk, Option.isSome_iff_ne_none]

/-- Reading goes on with a byte; anything else is malformed. -/
theorem width_bind {α : Type} {tree : Tree} {next : Nat → Result α} {Q : Prop}
    (goOn : ∀ n < 256, tree = .natural n → Q ∨ next n = .error .malformed) :
    Q ∨ (tree.width >>= next) = .error .malformed := by
  cases tree with
  | natural n =>
    by_cases small : n < 256
    · rw [width_natural small]
      exact goOn n small rfl
    · right
      rw [width, if_neg small]
      rfl
  | null | bool | decimal | text | array | object | missing => exact Or.inr rfl

end Tree
end Tickstamp.Json
