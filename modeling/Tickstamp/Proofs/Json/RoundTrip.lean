import Tickstamp.Issuer.Basic
import Tickstamp.Json.Codec
import Tickstamp.Proofs.Coding
import Tickstamp.Proofs.Json.Decoding

/-!
# Values come back from JSON

Every value of a type that has a JSON form is read back from its compact text,
so different values have different texts, and a text that has been read and
written again is not changed by reading and writing it once more. Settings need
not be valid for this, only layouts have to be layouts. A text key comes back as
a text, whatever its characters are. Texts that are not compact are considered
only as far as they are written again.
-/

namespace Tickstamp
namespace Json

/-- Reads a text and writes its value again. -/
def rewrite {α : Type} (write : α → Tree) (read : Tree → Result α) (text : String) :
    Result String :=
  (readText read text).map fun a => (write a).render

/-- The values of a type are kept by their texts. -/
structure Faithful {α : Type} (write : α → Tree) (read : Tree → Result α) : Prop where
  readsBack : ∀ a, readText read (write a).render = .ok a
  injective : ∀ a b, (write a).render = (write b).render → a = b
  /-- Once a text has been written again, it stays as it is. -/
  settled : ∀ text written, rewrite write read text = .ok written →
    rewrite write read written = .ok written

/-- The values of a type are kept by their trees. -/
structure Inverse {α : Type} (write : α → Tree) (read : Tree → Result α) : Prop where
  whole : ∀ a, (write a).Whole
  back : ∀ a, read (write a) = .ok a

theorem Inverse.faithful {α : Type} {write : α → Tree} {read : Tree → Result α}
    (h : Inverse write read) : Faithful write read := by
  have readsBack : ∀ a, readText read (write a).render = .ok a := by
    intro a
    rw [readText_render read (h.whole a), h.back]
  refine ⟨readsBack, ?_, ?_⟩
  · intro a b same
    have both := readsBack a
    rw [same, readsBack b] at both
    exact (Except.ok.inj both).symm
  · intro text written rewritten
    cases value : readText read text with
    | error refusal =>
      rw [rewrite, value] at rewritten
      cases rewritten
    | ok a =>
      rw [rewrite, value] at rewritten
      cases rewritten
      rw [rewrite, readsBack]
      rfl

end Json

open Json

theorem Layout.ofTrees_natural {timestamp machine sequence : Nat} (ht : timestamp < 256)
    (hm : machine < 256) (hs : sequence < 256) :
    ofTrees (.natural timestamp) (.natural machine) (.natural sequence) =
      (ofBits timestamp machine sequence).mapError .layout := by
  rw [ofTrees, Tree.width_natural ht, Tree.width_natural hm, Tree.width_natural hs]
  rfl

theorem Layout.inverse : Inverse Layout.toTree Layout.ofTree := by
  constructor
  · intro l
    exact ⟨rfl, trivial, trivial, trivial, trivial⟩
  · intro l
    have bits := l.bits_le
    change ofTrees _ _ _ = _
    rw [ofTrees_natural (by omega) (by omega) (by omega), l.ofBits_bits]
    rfl

/-- A policy comes back wherever one object may be opened. -/
theorem LagPolicy.inverse {room : Nat} (deep : 1 < room) :
    Inverse LagPolicy.toTree (LagPolicy.ofTree room) := by
  constructor
  · intro lag
    cases lag with
    | wait limit => exact ⟨rfl, trivial, trivial, trivial⟩
    | fail => exact ⟨rfl, trivial, trivial⟩
  · intro lag
    cases lag with
    | wait limit =>
      have finite := NumberParts.isFinite_ofNatural limit.toNat_lt
      have kept : (decide (1 < room) && Tree.membersKept (room - 1)
          [(some "policy", .text (some "wait")),
            (some "max_drift_millis", .natural limit.toNat)]) = true := by
        simp [deep, Tree.membersKept, Tree.isKept, finite]
      rw [toTree, ofTree, if_pos kept]
      change Tree.word _ >>= _ = _
      rw [Tree.word_natural]
      rfl
    | fail =>
      have kept : (decide (1 < room) && Tree.membersKept (room - 1)
          [(some "policy", .text (some "fail"))]) = true := by
        simp [deep, Tree.membersKept, Tree.isKept]
      rw [toTree, ofTree, if_pos kept]
      rfl

theorem CarryOver.inverse : Inverse CarryOver.toTree CarryOver.ofTree := by
  constructor
  · intro carryOver
    cases carryOver with
    | never | half => trivial
    | upTo limit => exact ⟨rfl, trivial, trivial⟩
  · intro carryOver
    cases carryOver with
    | never | half => rfl
    | upTo limit =>
      change Tree.word _ >>= _ = _
      rw [Tree.word_natural]
      rfl

theorem Stamp.inverse : Inverse Stamp.toTree Stamp.ofTree := by
  constructor
  · intro s
    trivial
  · intro s
    rw [toTree, ofTree, Tree.word_natural]
    rfl

/-- A text key comes back as a text, and a number as a number. -/
theorem Key.inverse : Inverse Key.toTree Key.ofTree := by
  constructor
  · intro key
    cases key <;> trivial
  · intro key
    cases key with
    | numeric stamp =>
      change (Stamp.ofTree stamp.toTree).map _ = _
      rw [Stamp.inverse.back]
      rfl
    | text key => rfl

theorem Origin.inverse : Inverse Origin.toTree Origin.ofTree := by
  constructor
  · intro o
    exact ⟨rfl, trivial, trivial, trivial, trivial⟩
  · intro o
    change ofTrees _ _ _ = _
    rw [ofTrees, Tree.word_natural, Tree.word_natural, Tree.word_natural]
    rfl

/-- One field taken over from another configuration. -/
def ConfigField.replace (f : ConfigField) (c base : Config) : Config :=
  match f with
  | .epoch => { base with epoch := c.epoch }
  | .layout => { base with layout := c.layout }
  | .asString => { base with asString := c.asString }
  | .lag => { base with lag := c.lag }
  | .carryOver => { base with carryOver := c.carryOver }

namespace ConfigField

theorem whole_toTree (f : ConfigField) (c : Config) : (f.toTree c).Whole := by
  cases f with
  | epoch | asString => trivial
  | layout => exact Layout.inverse.whole c.layout
  | lag => exact (LagPolicy.inverse (show 1 < depthLimit by decide)).whole c.lag
  | carryOver => exact CarryOver.inverse.whole c.carryOver

theorem put_toTree (f : ConfigField) (c base : Config) :
    f.put (f.toTree c) base = .ok (f.replace c base) := by
  cases f with
  | epoch =>
    rw [put, toTree, Tree.word_natural]
    rfl
  | layout =>
    rw [put, toTree, Layout.inverse.back]
    rfl
  | asString => rfl
  | lag =>
    rw [put, toTree, (LagPolicy.inverse (by decide)).back]
    rfl
  | carryOver =>
    rw [put, toTree, CarryOver.inverse.back]
    rfl

theorem named?_name (f : ConfigField) : named? f.name = some f := by
  cases f <;> rfl

end ConfigField
namespace Config

/-- A member puts its value in the place of its field, if that has not been named before. -/
theorem putMembers_cons_of_put {f : ConfigField} {seen : List ConfigField} {tree : Tree}
    {base next : Config} (new : f ∉ seen) (put : f.put tree base = .ok next)
    (rest : List Json.Member) :
    putMembers seen base ((some f.name, tree) :: rest) = putMembers (f :: seen) next rest := by
  rw [putMembers, f.named?_name]
  simp only [if_neg new, put]

/-- Members with the names of different fields replace these fields. -/
theorem putMembers_toTree {fields seen : List ConfigField} (nodup : fields.Nodup)
    (fresh : ∀ f ∈ fields, f ∉ seen) (c base : Config) :
    putMembers seen base (fields.map fun f => (some f.name, f.toTree c)) =
      .ok (fields.foldl (fun base f => f.replace c base) base) := by
  induction fields generalizing seen base with
  | nil => rfl
  | cons f rest ih =>
    obtain ⟨notLater, nodup⟩ := List.nodup_cons.mp nodup
    have new : f ∉ seen := fresh f List.mem_cons_self
    have still : ∀ g ∈ rest, g ∉ f :: seen := by
      intro g member
      rw [List.mem_cons, not_or]
      refine ⟨?_, fresh g (List.mem_cons_of_mem f member)⟩
      rintro rfl
      exact notLater member
    rw [List.map_cons, putMembers_cons_of_put new (f.put_toTree c base)]
    exact ih nodup still (f.replace c base)

theorem whole_members (c : Config) (fields : List ConfigField) :
    Tree.MembersWhole (fields.map fun f => (some f.name, f.toTree c)) := by
  induction fields with
  | nil => trivial
  | cons f rest ih => exact ⟨f.whole_toTree c, ih⟩

theorem inverse : Inverse Config.toTree Config.ofTree := by
  constructor
  · intro c
    exact ⟨rfl, c.whole_members ConfigField.all⟩
  · intro c
    have nodup : ConfigField.all.Nodup := by decide
    have fresh : ∀ f ∈ ConfigField.all, f ∉ [] := by simp
    rw [toTree, ofTree, putMembers_toTree nodup fresh]
    rfl

end Config

/-- The JSON texts of all seven types are faithful, and a key that is sent as JSON is decoded like
the key itself. -/
theorem json_faithful :
    Faithful Config.toTree Config.ofTree ∧
    Faithful Layout.toTree Layout.ofTree ∧
    Faithful LagPolicy.toTree (LagPolicy.ofTree ConfigField.depthLimit) ∧
    Faithful CarryOver.toTree CarryOver.ofTree ∧
    Faithful Stamp.toTree Stamp.ofTree ∧
    Faithful Origin.toTree Origin.ofTree ∧
    Faithful Key.toTree Key.ofTree ∧
    ∀ (k : Issuer) (key : Key),
      (readText Key.ofTree key.toTree.render).map k.decodeKey = .ok (k.decodeKey key) := by
  refine ⟨Config.inverse.faithful, Layout.inverse.faithful, (LagPolicy.inverse (by decide)).faithful,
    CarryOver.inverse.faithful, Stamp.inverse.faithful, Origin.inverse.faithful,
    Key.inverse.faithful, ?_⟩
  intro k key
  rw [Key.inverse.faithful.readsBack]
  rfl

/-- A blank and two escapes that are not needed disappear. -/
example : rewrite Key.toTree Key.ofTree " \"\\u0031\\/\\n\"" = .ok "\"1/\\n\"" := by
  decide +kernel

end Tickstamp
