import Tickstamp.Proofs.CommandLine.Settings
import Tickstamp.Proofs.Json.RoundTrip
import Tickstamp.Proofs.Trapping

/-!
# Every layout has passed the gate

A layout that is read, alone or within a configuration, is the one that the
three widths of its text make, and settings of the command line make theirs in
the same way; no text and no setting leads around `Layout.ofBits`. Where the
three widths are bytes, the text is refused only if they are no layout. The
other fields of a configuration are not considered.
-/

namespace Tickstamp
open Json

namespace Layout

/-- A tree that writes three widths: an array of three numbers, or an object with one number for
each of the three names and with other members as it likes. -/
inductive Written (timestamp machine sequence : Nat) : Tree → Prop where
  | array : Written timestamp machine sequence
      (.array [.natural timestamp, .natural machine, .natural sequence] true)
  | object {members : List Json.Member} (named : ∀ member ∈ members, member.1 ≠ none)
      (timestamps : Tree.Names members "timestamp_bits" (.natural timestamp))
      (machines : Tree.Names members "machine_bits" (.natural machine))
      (sequences : Tree.Names members "sequence_bits" (.natural sequence)) :
      Written timestamp machine sequence (.object members true)

/-- What writes three bytes is a layout or not as the gate decides. -/
theorem ofTree_of_written {timestamp machine sequence : Nat} {tree : Tree}
    (written : Written timestamp machine sequence tree) (ht : timestamp < 256)
    (hm : machine < 256) (hs : sequence < 256) :
    ofTree tree = (ofBits timestamp machine sequence).mapError .layout := by
  have gate := ofTrees_natural ht hm hs
  cases written with
  | array => exact gate
  | object named timestamps machines sequences =>
    rw [← Tree.field_eq_ok_iff] at timestamps machines sequences
    simp only [ofTree, (Tree.namesOk_iff _).mpr named, timestamps, machines, sequences]
    exact gate

theorem ofTrees_cases (first second third : Tree) :
    (∃ timestamp machine sequence, timestamp < 256 ∧ machine < 256 ∧ sequence < 256 ∧
      first = .natural timestamp ∧ second = .natural machine ∧ third = .natural sequence) ∨
    ofTrees first second third = .error .malformed := by
  refine Tree.width_bind fun timestamp ht timestamps => ?_
  refine Tree.width_bind fun machine hm machines => ?_
  refine Tree.width_bind fun sequence hs sequences => ?_
  exact Or.inl ⟨timestamp, machine, sequence, ht, hm, hs, timestamps, machines, sequences⟩

theorem ofTree_cases (tree : Tree) :
    (∃ timestamp machine sequence, timestamp < 256 ∧ machine < 256 ∧ sequence < 256 ∧
      Written timestamp machine sequence tree) ∨
    ofTree tree = .error .malformed := by
  rw [ofTree.eq_def]
  split
  · next first second third =>
    rcases ofTrees_cases first second third with
      ⟨timestamp, machine, sequence, ht, hm, hs, rfl, rfl, rfl⟩ | refused
    · exact Or.inl ⟨timestamp, machine, sequence, ht, hm, hs, .array⟩
    · exact Or.inr refused
  · next members =>
    by_cases named : Tree.namesOk members = true
    · rw [named]
      refine Tree.field_bind fun first timestamps => ?_
      refine Tree.field_bind fun second machines => ?_
      refine Tree.field_bind fun third sequences => ?_
      rcases ofTrees_cases first second third with
        ⟨timestamp, machine, sequence, ht, hm, hs, rfl, rfl, rfl⟩ | refused
      · exact Or.inl ⟨timestamp, machine, sequence, ht, hm, hs,
          .object ((Tree.namesOk_iff members).mp named) timestamps machines sequences⟩
      · exact Or.inr refused
    · rw [Bool.not_eq_true] at named
      rw [named]
      exact Or.inr rfl
  · exact Or.inr rfl

theorem ofTree_eq_ok_iff (tree : Tree) (l : Layout) :
    ofTree tree = .ok l ↔ Written l.timestampBits l.machineBits l.sequenceBits tree := by
  constructor
  · intro accepted
    rcases ofTree_cases tree with ⟨timestamp, machine, sequence, ht, hm, hs, written⟩ | refused
    · rw [ofTree_of_written written ht hm hs] at accepted
      cases gate : ofBits timestamp machine sequence with
      | error fault =>
        rw [gate] at accepted
        cases accepted
      | ok passed =>
        rw [gate] at accepted
        cases accepted
        obtain ⟨rfl, rfl, rfl⟩ := (ofBits_eq_ok_iff ..).mp gate
        exact written
    · rw [refused] at accepted
      cases accepted
  · intro written
    have bits := l.bits_le
    rw [ofTree_of_written written (by omega) (by omega) (by omega), l.ofBits_bits]
    rfl

/-- Every field has a bit, and the sign bit is left alone. -/
def Legal (timestamp machine sequence : Nat) : Prop :=
  1 ≤ timestamp ∧ 1 ≤ machine ∧ 1 ≤ sequence ∧ timestamp + machine + sequence ≤ 63

theorem legal (l : Layout) : Legal l.timestampBits l.machineBits l.sequenceBits :=
  ⟨l.timestamp_pos, l.machine_pos, l.sequence_pos, l.bits_le⟩

theorem exists_ofBits_iff (timestamp machine sequence : Nat) :
    (∃ l, ofBits timestamp machine sequence = .ok l) ↔ Legal timestamp machine sequence := by
  constructor
  · rintro ⟨l, passed⟩
    obtain ⟨rfl, rfl, rfl⟩ := (ofBits_eq_ok_iff ..).mp passed
    exact l.legal
  · rintro ⟨ht, hm, hs, bits⟩
    exact ⟨_, ofBits_bits ⟨timestamp, machine, sequence, ht, hm, hs, bits⟩⟩

end Layout

namespace ConfigField

/-- Only the layout field touches the layout, and it puts there what its tree is read as. -/
theorem layout_of_put {f : ConfigField} {tree : Tree} {base c : Config}
    (put : f.put tree base = .ok c) :
    f = .layout ∧ Layout.ofTree tree = .ok c.layout ∨ f ≠ .layout ∧ c.layout = base.layout := by
  cases f with
  | layout =>
    obtain ⟨l, read, rfl⟩ := map_eq_ok_iff.mp put
    exact Or.inl ⟨rfl, read⟩
  | epoch | asString | lag | carryOver =>
    obtain ⟨_, _, rfl⟩ := map_eq_ok_iff.mp put
    exact Or.inr ⟨by decide, rfl⟩

theorem name_of_named? {name : String} {f : ConfigField} (found : named? name = some f) :
    f.name = name := by
  simpa using List.find?_some found

end ConfigField

namespace Config

/-- The part of a tree that stands for the layout of a configuration. -/
inductive LayoutPart (part : Tree) : Tree → Prop where
  | array {items : List Tree} (second : items[1]? = some part) : LayoutPart part (.array items true)
  | object {members : List Json.Member} (named : (some "layout", part) ∈ members) :
      LayoutPart part (.object members true)

/-- A member that is accepted has a name; it is passed over, or puts its value in the place of a
field that has not been named before. -/
theorem putMembers_cons_cases {seen : List ConfigField} {base c : Config} {member : Json.Member}
    {rest : List Json.Member} (accepted : putMembers seen base (member :: rest) = .ok c) :
    ∃ name tree, member = (some name, tree) ∧
      (ConfigField.named? name = none ∧ putMembers seen base rest = .ok c ∨
      ∃ f next, ConfigField.named? name = some f ∧ f ∉ seen ∧ f.put tree base = .ok next ∧
        putMembers (f :: seen) next rest = .ok c) := by
  obtain ⟨_ | name, tree⟩ := member
  · cases accepted
  · refine ⟨name, tree, rfl, ?_⟩
    rw [putMembers] at accepted
    cases known : ConfigField.named? name with
    | none =>
      rw [known] at accepted
      exact Or.inl ⟨rfl, accepted⟩
    | some f =>
      simp only [known] at accepted
      split at accepted
      · cases accepted
      · next new =>
        cases put : f.put tree base with
        | error refusal =>
          rw [put] at accepted
          cases accepted
        | ok next =>
          rw [put] at accepted
          exact Or.inr ⟨f, next, rfl, new, put, accepted⟩

theorem layout_of_putMembers {seen : List ConfigField} {base c : Config} {members : List Json.Member}
    (accepted : putMembers seen base members = .ok c) :
    c.layout = base.layout ∨
      ∃ part, (some "layout", part) ∈ members ∧ Layout.ofTree part = .ok c.layout := by
  induction members generalizing seen base with
  | nil =>
    cases accepted
    exact Or.inl rfl
  | cons member rest ih =>
    -- what a later member puts there stays, and a member that is passed over changes nothing
    have goOn {seen : List ConfigField} {next : Config}
        (accepted : putMembers seen next rest = .ok c) (same : next.layout = base.layout) :
        c.layout = base.layout ∨
          ∃ part, (some "layout", part) ∈ member :: rest ∧ Layout.ofTree part = .ok c.layout := by
      rcases ih accepted with kept | ⟨part, named, read⟩
      · exact Or.inl (kept.trans same)
      · exact Or.inr ⟨part, List.mem_cons_of_mem _ named, read⟩
    obtain ⟨name, tree, rfl, ⟨_, accepted⟩ | ⟨f, next, known, _, put, accepted⟩⟩ :=
      putMembers_cons_cases accepted
    · exact goOn accepted rfl
    · rcases ConfigField.layout_of_put put with ⟨rfl, read⟩ | ⟨_, same⟩
      · rcases ih accepted with kept | ⟨part, named, read'⟩
        · have named : name = "layout" := (ConfigField.name_of_named? known).symm
          rw [kept, named]
          exact Or.inr ⟨tree, List.mem_cons_self, read⟩
        · exact Or.inr ⟨part, List.mem_cons_of_mem _ named, read'⟩
      · exact goOn accepted same

theorem layout_of_putItems {fields : List ConfigField} {base c : Config} {items : List Tree}
    (accepted : putItems base fields items = .ok c) :
    c.layout = base.layout ∨ ∃ (n : Nat) (part : Tree), fields[n]? = some .layout ∧
      items[n]? = some part ∧ Layout.ofTree part = .ok c.layout := by
  induction items generalizing fields base with
  | nil =>
    cases fields <;> cases accepted <;> exact Or.inl rfl
  | cons tree rest ih =>
    cases fields with
    | nil => cases accepted
    | cons f fields =>
      rw [putItems] at accepted
      cases put : f.put tree base with
      | error refusal =>
        rw [put] at accepted
        cases accepted
      | ok next =>
        rw [put] at accepted
        rcases ih accepted with kept | ⟨n, part, field, item, read⟩
        · rw [kept]
          rcases ConfigField.layout_of_put put with ⟨rfl, read⟩ | ⟨_, same⟩
          · exact Or.inr ⟨0, tree, rfl, rfl, read⟩
          · exact Or.inl same
        · exact Or.inr ⟨n + 1, part, field, item, read⟩

theorem closed_of_accepted {read : Result Config} {closed : Bool} {c : Config}
    (accepted : (do
      let c ← read
      if closed then return c else throw .malformed : Result Config) = .ok c) :
    read = .ok c ∧ closed = true := by
  cases read with
  | error refusal => cases accepted
  | ok next =>
    cases closed with
    | false => cases accepted
    | true =>
      cases accepted
      exact ⟨rfl, rfl⟩

/-- The layout of a configuration is the standard one, or what its part of the tree writes. -/
theorem layout_of_ofTree {tree : Tree} {c : Config} (accepted : ofTree tree = .ok c) :
    c.layout = .standard ∨ ∃ part, LayoutPart part tree ∧ Layout.ofTree part = .ok c.layout := by
  rw [ofTree.eq_def] at accepted
  split at accepted
  · next items closed =>
    obtain ⟨put, rfl⟩ := closed_of_accepted accepted
    rcases layout_of_putItems put with standard | ⟨n, part, field, item, read⟩
    · exact Or.inl standard
    · have second : n = 1 := by
        rcases n with _ | _ | _ | _ | _ | n <;> first | rfl | cases field
      rw [second] at item
      exact Or.inr ⟨part, .array item, read⟩
  · next members closed =>
    obtain ⟨put, rfl⟩ := closed_of_accepted accepted
    rcases layout_of_putMembers put with standard | ⟨part, named, read⟩
    · exact Or.inl standard
    · exact Or.inr ⟨part, .object named, read⟩
  · cases accepted

end Config

/-- No input leads to an illegal layout, and on no layout does any arithmetic go wrong. A text is
accepted as a layout exactly if it writes the widths of one; if it writes three bytes, the gate
decides, and its refusal is passed on. The layout of a configuration is the standard one or is
written in its place, and that of an invocation is made of the widths in its settings. -/
theorem layouts_legal :
    (∀ text l, readText Layout.ofTree text = .ok l ↔
      ∃ tree, Tree.read (Token.ofText text) = (tree, []) ∧
        Layout.Written l.timestampBits l.machineBits l.sequenceBits tree) ∧
    (∀ text tree timestamp machine sequence, Tree.read (Token.ofText text) = (tree, []) →
      Layout.Written timestamp machine sequence tree →
        timestamp < 256 → machine < 256 → sequence < 256 →
          readText Layout.ofTree text =
            (Layout.ofBits timestamp machine sequence).mapError .layout) ∧
    (∀ text c, readText Config.ofTree text = .ok c → c.layout = .standard ∨
      ∃ tree part, Tree.read (Token.ofText text) = (tree, []) ∧ Config.LayoutPart part tree ∧
        Layout.Written c.layout.timestampBits c.layout.machineBits c.layout.sequenceBits part) ∧
    (∀ request i, CommandLine.Invocation.ofRequest request = .ok i →
      Layout.ofBits (request.given.timestampBits.getD 41) (request.given.machineBits.getD 10)
        (request.given.sequenceBits.getD 12) = .ok i.config.layout) ∧
    (∀ timestamp machine sequence,
      (∃ l, Layout.ofBits timestamp machine sequence = .ok l) ↔
        Layout.Legal timestamp machine sequence) ∧
    ∀ l : Layout, Layout.Legal l.timestampBits l.machineBits l.sequenceBits ∧ l.Untrapped := by
  refine ⟨?_, ?_, ?_, ?_, Layout.exists_ofBits_iff, ?_⟩
  · intro text l
    rw [readText_eq_ok_iff]
    simp only [Layout.ofTree_eq_ok_iff]
  · intro text tree timestamp machine sequence whole written ht hm hs
    rw [readText_of_read Layout.ofTree whole]
    exact Layout.ofTree_of_written written ht hm hs
  · intro text c accepted
    obtain ⟨tree, whole, read⟩ := (readText_eq_ok_iff ..).mp accepted
    rcases Config.layout_of_ofTree read with standard | ⟨part, place, written⟩
    · exact Or.inl standard
    · exact Or.inr ⟨tree, part, whole, place, (Layout.ofTree_eq_ok_iff ..).mp written⟩
  · intro request i accepted
    cases given : request.given.config with
    | error failure =>
      rw [CommandLine.Invocation.ofRequest, given] at accepted
      cases accepted
    | ok c =>
      rw [CommandLine.Invocation.ofRequest, given] at accepted
      cases accepted
      obtain ⟨l, passed, _, rfl⟩ := (CommandLine.Given.config_eq_ok_iff ..).mp given
      exact passed
  · intro l
    exact ⟨l.legal, l.untrapped⟩

/-- Widths at the gate, on both sides of it. -/
theorem layouts_legal_at_gate :
    readText Layout.ofTree "[41,10, 12]" = .ok .standard ∧
      readText Layout.ofTree "[41,10, 13]" =
        .error (.layout (.misconfigured (.tooManyBits 65))) := by
  have whole {text : String} {sequence : Nat} (cut : Token.ofText text =
      [.openArray, .natural 41, .comma, .natural 10, .comma, .natural sequence, .closeArray]) :
      Tree.read (Token.ofText text) =
        (.array [.natural 41, .natural 10, .natural sequence] true, []) := by
    rw [cut]
    rfl
  have passed := layouts_legal.2.1 "[41,10, 12]" _ 41 10 12 (whole (by decide +kernel)) .array
  have refused := layouts_legal.2.1 "[41,10, 13]" _ 41 10 13 (whole (by decide +kernel)) .array
  exact ⟨passed (by decide) (by decide) (by decide), refused (by decide) (by decide) (by decide)⟩

end Tickstamp
