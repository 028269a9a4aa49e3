import Tickstamp.Proofs.Json.Layouts

/-!
# A configuration in JSON overrides the standard one

An object gives any of the fields of a configuration, in any order and in any
of their forms, and between them members of other names with whatever values;
what it leaves out stays as it is in the standard configuration. An array gives
the first fields in their order. The same fields make the same configuration,
and no field can be given twice. Which of two faults of a text is reported is
not considered.
-/

namespace Tickstamp
open Json

namespace LagPolicy

/-- A tree that writes a policy: an array of its name and what belongs to it, or an object in which
one member is its name, wherever that stands. The members of an object have to be such that they can
be kept, and of what does not belong to the policy nothing else is asked. -/
inductive Written (room : Nat) : LagPolicy → Tree → Prop where
  | waitItems (limit : UInt64) :
      Written room (.wait limit) (.array [.text (some "wait"), .natural limit.toNat] true)
  | failItem : Written room .fail (.array [.text (some "fail")] true)
  | wait {limit : UInt64} {members : List Json.Member} (deep : 1 < room)
      (kept : Tree.membersKept (room - 1) members = true)
      (policy : Tree.Names members "policy" (.text (some "wait")))
      (drift : Tree.Names members "max_drift_millis" (.natural limit.toNat)) :
      Written room (.wait limit) (.object members true)
  | fail {members : List Json.Member} (deep : 1 < room)
      (kept : Tree.membersKept (room - 1) members = true)
      (policy : Tree.Names members "policy" (.text (some "fail"))) :
      Written room .fail (.object members true)

theorem ofTree_of_written {room : Nat} {lag : LagPolicy} {tree : Tree}
    (written : Written room lag tree) : ofTree room tree = .ok lag := by
  cases written with
  | waitItems limit =>
    change Tree.word _ >>= _ = _
    rw [Tree.word_natural]
    rfl
  | failItem => rfl
  | wait deep kept policy drift =>
    rw [← Tree.field_eq_ok_iff] at policy drift
    rw [ofTree, if_pos (by simp [deep, kept]), policy]
    change (Tree.field _ _ >>= _) = _
    rw [drift]
    change Tree.word _ >>= _ = _
    rw [Tree.word_natural]
    rfl
  | fail deep kept policy =>
    rw [← Tree.field_eq_ok_iff] at policy
    rw [ofTree, if_pos (by simp [deep, kept]), policy]
    rfl

theorem limit_of_accepted {drift : Tree} {lag : LagPolicy}
    (accepted : (do return .wait (← drift.word) : Result LagPolicy) = .ok lag) :
    ∃ limit : UInt64, drift = .natural limit.toNat ∧ lag = .wait limit := by
  cases read : drift.word with
  | error refusal =>
    rw [read] at accepted
    cases accepted
  | ok limit =>
    rw [read] at accepted
    cases accepted
    exact ⟨limit, (Tree.word_eq_ok_iff ..).mp read, rfl⟩

theorem written_of_ofTree {room : Nat} {lag : LagPolicy} {tree : Tree}
    (accepted : ofTree room tree = .ok lag) : Written room lag tree := by
  rw [ofTree.eq_def] at accepted
  split at accepted
  · obtain ⟨limit, rfl, rfl⟩ := limit_of_accepted accepted
    exact .waitItems limit
  · cases accepted
    exact .failItem
  · next members =>
    by_cases kept : (decide (1 < room) && Tree.membersKept (room - 1) members) = true
    · rw [if_pos kept] at accepted
      obtain ⟨deep, kept⟩ := Bool.and_eq_true_iff.mp kept
      cases policy : Tree.field members "policy" with
      | error refusal =>
        rw [policy] at accepted
        cases accepted
      | ok name =>
        rw [policy] at accepted
        rw [Tree.field_eq_ok_iff] at policy
        dsimp only [bind, Except.bind] at accepted
        split at accepted
        · cases drift : Tree.field members "max_drift_millis" with
          | error refusal =>
            rw [drift] at accepted
            cases accepted
          | ok value =>
            rw [drift] at accepted
            obtain ⟨limit, rfl, rfl⟩ := limit_of_accepted accepted
            exact .wait (of_decide_eq_true deep) kept policy ((Tree.field_eq_ok_iff ..).mp drift)
        · cases accepted
          exact .fail (of_decide_eq_true deep) kept policy
        · cases accepted
    · rw [if_neg kept] at accepted
      cases accepted
  · cases accepted

theorem ofTree_eq_ok_iff (room : Nat) (lag : LagPolicy) (tree : Tree) :
    ofTree room tree = .ok lag ↔ Written room lag tree :=
  ⟨written_of_ofTree, ofTree_of_written⟩

end LagPolicy
namespace CarryOver

/-- A tree that writes a carry-over: a name, alone or with nothing to it, or a threshold. -/
inductive Written : CarryOver → Tree → Prop where
  | never : Written .never (.text (some "every_tick"))
  | neverNull : Written .never (.object [(some "every_tick", .null)] true)
  | half : Written .half (.text (some "half_range"))
  | halfNull : Written .half (.object [(some "half_range", .null)] true)
  | upTo (limit : UInt64) :
      Written (.upTo limit) (.object [(some "threshold", .natural limit.toNat)] true)

theorem ofTree_eq_ok_iff (carryOver : CarryOver) (tree : Tree) :
    ofTree tree = .ok carryOver ↔ Written carryOver tree := by
  constructor
  · intro accepted
    rw [ofTree.eq_def] at accepted
    split at accepted
    · cases accepted
      exact .never
    · cases accepted
      exact .neverNull
    · cases accepted
      exact .half
    · cases accepted
      exact .halfNull
    · next value =>
      cases read : value.word with
      | error refusal =>
        rw [read] at accepted
        cases accepted
      | ok limit =>
        rw [read] at accepted
        cases accepted
        rw [(Tree.word_eq_ok_iff ..).mp read]
        exact .upTo limit
    · cases accepted
  · intro written
    cases written with
    | never | neverNull | half | halfNull => rfl
    | upTo limit =>
      change Tree.word _ >>= _ = _
      rw [Tree.word_natural]
      rfl

end CarryOver
namespace ConfigField

/-- A tree that writes this field of a configuration. -/
def Written (f : ConfigField) (c : Config) (tree : Tree) : Prop :=
  match f with
  | .epoch => tree = .natural c.epoch.toNat
  | .layout =>
    Layout.Written c.layout.timestampBits c.layout.machineBits c.layout.sequenceBits tree
  | .asString => tree = .bool c.asString
  | .lag => LagPolicy.Written (depthLimit - 1) c.lag tree
  | .carryOver => CarryOver.Written c.carryOver tree

/-- A tree is put in the place of a field exactly if it writes what stands there afterwards, and
then nothing else is changed. -/
theorem put_eq_ok_iff (f : ConfigField) (tree : Tree) (base c : Config) :
    f.put tree base = .ok c ↔ f.Written c tree ∧ c = f.replace c base := by
  have field {α : Type} {read : Result α} {P : α → Prop} {place : α → Config} {part : Config → α}
      (reads : ∀ a, read = .ok a ↔ P a) (placed : ∀ a, part (place a) = a) :
      read.map place = .ok c ↔ P (part c) ∧ c = place (part c) := by
    rw [map_eq_ok_iff]
    constructor
    · rintro ⟨a, known, rfl⟩
      rw [placed]
      exact ⟨(reads a).mp known, rfl⟩
    · rintro ⟨known, same⟩
      exact ⟨part c, (reads _).mpr known, same.symm⟩
  cases f with
  | epoch => exact field (Tree.word_eq_ok_iff tree) fun _ => rfl
  | layout => exact field (Layout.ofTree_eq_ok_iff tree) fun _ => rfl
  | asString => exact field (Tree.flag_eq_ok_iff tree) fun _ => rfl
  | lag => exact field (fun lag => LagPolicy.ofTree_eq_ok_iff _ lag tree) fun _ => rfl
  | carryOver =>
    exact field (fun carryOver => CarryOver.ofTree_eq_ok_iff carryOver tree) fun _ => rfl

theorem put_of_written {f : ConfigField} {c : Config} {tree : Tree} (written : f.Written c tree)
    (base : Config) : f.put tree base = .ok (f.replace c base) := by
  refine (put_eq_ok_iff f tree base _).mpr ⟨?_, ?_⟩
  · cases f <;> exact written
  · cases f <;> rfl

end ConfigField
namespace Config

/-- These fields of one configuration, and all others of another. -/
def override (base c : Config) (fields : List ConfigField) : Config where
  epoch := if .epoch ∈ fields then c.epoch else base.epoch
  layout := if .layout ∈ fields then c.layout else base.layout
  asString := if .asString ∈ fields then c.asString else base.asString
  lag := if .lag ∈ fields then c.lag else base.lag
  carryOver := if .carryOver ∈ fields then c.carryOver else base.carryOver

theorem override_congr {fields fields' : List ConfigField}
    (same : ∀ f, f ∈ fields ↔ f ∈ fields') (base c : Config) :
    base.override c fields = base.override c fields' := by
  simp only [override, same]

/-- It does not matter whether a field has been replaced already. -/
theorem override_replace (f : ConfigField) (base c : Config) (fields : List ConfigField) :
    (f.replace c base).override c fields = base.override c (f :: fields) := by
  cases f <;> simp [override, ConfigField.replace]

/-- Members that give these fields of a configuration, each once, and between them members of other
names. -/
inductive Gives (c : Config) : List ConfigField → List Json.Member → Prop where
  | nil : Gives c [] []
  | field {f : ConfigField} {fields : List ConfigField} {tree : Tree} {rest : List Json.Member}
      (new : f ∉ fields) (written : f.Written c tree) (others : Gives c fields rest) :
      Gives c (f :: fields) ((some f.name, tree) :: rest)
  | unknown {name : String} {fields : List ConfigField} {tree : Tree} {rest : List Json.Member}
      (foreign : ∀ f : ConfigField, f.name ≠ name) (others : Gives c fields rest) :
      Gives c fields ((some name, tree) :: rest)

theorem named?_eq_none {name : String} (foreign : ∀ f : ConfigField, f.name ≠ name) :
    ConfigField.named? name = none := by
  simpa [ConfigField.named?] using fun f _ => foreign f

theorem putMembers_of_gives {c : Config} {fields : List ConfigField} {members : List Json.Member}
    (gives : Gives c fields members) {seen : List ConfigField} (fresh : ∀ f ∈ fields, f ∉ seen)
    (base : Config) : putMembers seen base members = .ok (base.override c fields) := by
  induction gives generalizing seen base with
  | nil => rfl
  | field new written _ ih =>
    obtain ⟨first, others⟩ := List.forall_mem_cons.mp fresh
    rw [putMembers_cons_of_put first (ConfigField.put_of_written written base), ih,
      override_replace]
    intro f member
    rw [List.mem_cons, not_or]
    exact ⟨fun same => new (same ▸ member), others f member⟩
  | unknown foreign _ ih =>
    rw [putMembers, named?_eq_none foreign]
    exact ih fresh base

theorem putItems_of_written {c : Config} {fields : List ConfigField} {items : List Tree}
    (written : List.Forall₂ (fun f tree => f.Written c tree) fields items)
    (more : List ConfigField) (base : Config) :
    putItems base (fields ++ more) items = .ok (base.override c fields) := by
  induction written generalizing base with
  | nil => cases more <;> rfl
  | cons first _ ih =>
    rw [List.cons_append, putItems, ConfigField.put_of_written first]
    simp only [ih, override_replace]

/-- What is accepted names no field twice. -/
theorem nodup_of_putMembers {seen : List ConfigField} {base c : Config}
    {members : List Json.Member} (accepted : putMembers seen base members = .ok c) :
    (members.filterMap fun member => member.1.bind ConfigField.named?).Nodup ∧
      ∀ f ∈ members.filterMap fun member => member.1.bind ConfigField.named?, f ∉ seen := by
  induction members generalizing seen base with
  | nil => simp
  | cons member rest ih =>
    obtain ⟨name, tree, rfl, ⟨known, accepted⟩ | ⟨f, next, known, new, _, accepted⟩⟩ :=
      putMembers_cons_cases accepted
    · simpa [known] using ih accepted
    · obtain ⟨nodup, fresh⟩ := ih accepted
      rw [List.filterMap_cons_some (by exact known)]
      refine ⟨List.nodup_cons.mpr ⟨?_, nodup⟩, ?_⟩
      · intro again
        exact fresh f again List.mem_cons_self
      · rw [List.forall_mem_cons]
        exact ⟨new, fun g member seen => fresh g member (List.mem_cons_of_mem f seen)⟩

theorem readText_of_gives {c : Config} {fields : List ConfigField} {members : List Json.Member}
    (gives : Gives c fields members) {text : String}
    (denotes : Tree.Denotes text (.object members true)) :
    readText Config.ofTree text = .ok (override {} c fields) := by
  have accepted := putMembers_of_gives gives (fun f _ => List.not_mem_nil (a := f)) {}
  rw [readText_of_read _ (Tree.read_of_spells denotes.1 denotes.2), ofTree, accepted]
  rfl

theorem readText_of_items {c : Config} {n : Nat} {items : List Tree}
    (written : List.Forall₂ (fun f tree => f.Written c tree) (ConfigField.all.take n) items)
    {text : String} (denotes : Tree.Denotes text (.array items true)) :
    readText Config.ofTree text = .ok (override {} c (ConfigField.all.take n)) := by
  have accepted := putItems_of_written written (ConfigField.all.drop n) {}
  rw [List.take_append_drop] at accepted
  rw [readText_of_read _ (Tree.read_of_spells denotes.1 denotes.2), ofTree, accepted]
  rfl

/-- An object that gives a field twice is refused, wherever it ends and whatever follows. -/
theorem refused_of_repeated {f : ConfigField} {before middle after : List Json.Member}
    {tree tree' : Tree} {closed : Bool} {rest : List Token} {text : String}
    (read : Tree.read (Token.ofText text) = (.object
      (before ++ (some f.name, tree) :: middle ++ (some f.name, tree') :: after) closed, rest)) :
    ∃ refusal, readText Config.ofTree text = .error refusal := by
  cases outcome : readText Config.ofTree text with
  | error refusal => exact ⟨refusal, rfl⟩
  | ok c =>
    obtain ⟨whole, same, accepted⟩ := (readText_eq_ok_iff ..).mp outcome
    rw [read] at same
    cases same
    obtain ⟨nodup, _⟩ := nodup_of_putMembers (closed_of_accepted accepted).1
    simp [ConfigField.named?_name, List.nodup_append, List.nodup_cons] at nodup

/-- A partial configuration is the standard one with some fields replaced. The members of an object
give any fields in any order, between members of other names; the items of an array give the first
fields and make what an object of the same fields makes. A field that is given twice is refused. In
a field's place exactly those trees are accepted that write a value of it, and that value is put
there. -/
theorem partial_configurations_override :
    ConfigField.all.map (fun f => (f, f.name)) = [(.epoch, "epoch_millis"), (.layout, "layout"),
      (.asString, "as_string"), (.lag, "rollback"), (.carryOver, "sequence_reset")] ∧
    (∀ c fields members text, Gives c fields members →
      Tree.Denotes text (.object members true) →
        readText Config.ofTree text = .ok (override {} c fields)) ∧
    (∀ c n items text,
      List.Forall₂ (fun f tree => f.Written c tree) (ConfigField.all.take n) items →
      Tree.Denotes text (.array items true) →
        readText Config.ofTree text = .ok (override {} c (ConfigField.all.take n)) ∧
        ∀ fields members text', (∀ f, f ∈ fields ↔ f ∈ ConfigField.all.take n) →
          Gives c fields members → Tree.Denotes text' (.object members true) →
            readText Config.ofTree text' = readText Config.ofTree text) ∧
    (∀ (f : ConfigField) before middle after tree tree' closed rest text,
      Tree.read (Token.ofText text) = (.object
        (before ++ (some f.name, tree) :: middle ++ (some f.name, tree') :: after) closed, rest) →
      ∃ refusal, readText Config.ofTree text = .error refusal) ∧
    ∀ (f : ConfigField) tree base c,
      f.put tree base = .ok c ↔ f.Written c tree ∧ c = f.replace c base := by
  refine ⟨rfl, ?_, ?_, ?_, ConfigField.put_eq_ok_iff⟩
  · intro c fields members text gives denotes
    exact readText_of_gives gives denotes
  · intro c n items text written denotes
    refine ⟨readText_of_items written denotes, ?_⟩
    intro fields members text' same gives denotes'
    rw [readText_of_gives gives denotes', readText_of_items written denotes,
      override_congr same {} c]
  · intro f before middle after tree tree' closed rest text read
    exact refused_of_repeated read

/-- All fields in the reverse order, a limit before its policy and a member of another name between
them; the same field in an array and in an object; a repeated field is refused although its second
value is no value of it. -/
theorem partial_configurations_override_in_texts :
    readText Config.ofTree
      ("\x7b\"sequence_reset\":\x7b\"threshold\":9\x7d," ++
        "\"rollback\":\x7b\"max_drift_millis\":5,\"policy\":\"wait\"\x7d," ++
        "\"note\":[-1,null],\"as_string\":true,\"layout\":[39,8,16],\"epoch_millis\":1000\x7d") =
      .ok { epoch := 1000
            layout := ⟨39, 8, 16, by decide, by decide, by decide, by decide⟩
            asString := true, lag := .wait 5, carryOver := .upTo 9 } ∧
    readText Config.ofTree "[1000]" = .ok { epoch := 1000 } ∧
    readText Config.ofTree "\x7b\"note\":[-1,null],\"epoch_millis\":1000\x7d" =
      readText Config.ofTree "[1000]" ∧
    ∃ refusal, readText Config.ofTree "\x7b\"epoch_millis\":1000,\"epoch_millis\":[]\x7d" =
      .error refusal := by
  have denotes {tree : Tree} {text : String} (whole : tree.Whole) (written : text = tree.render) :
      Tree.Denotes text tree := ⟨whole, written ▸ Tree.spells_render whole⟩
  have foreign : ∀ f : ConfigField, f.name ≠ "note" := by
    intro f
    cases f <;> decide
  have note : Tree.Whole (.array [.decimal ['-', '1'], .null] true) :=
    ⟨rfl, ⟨by decide +kernel, List.all_eq_true.mp rfl⟩, trivial, trivial⟩
  have reversed : Gives
      { epoch := 1000
        layout := ⟨39, 8, 16, by decide, by decide, by decide, by decide⟩
        asString := true, lag := .wait 5, carryOver := .upTo 9 }
      [.carryOver, .lag, .asString, .layout, .epoch]
      [(some "sequence_reset", .object [(some "threshold", .natural 9)] true),
        (some "rollback", .object
          [(some "max_drift_millis", .natural 5), (some "policy", .text (some "wait"))] true),
        (some "note", .array [.decimal ['-', '1'], .null] true), (some "as_string", .bool true),
        (some "layout", .array [.natural 39, .natural 8, .natural 16] true),
        (some "epoch_millis", .natural 1000)] :=
    .field (by decide) (.upTo 9) (.field (by decide)
      (.wait (by decide) (by decide +kernel)
        ⟨[(some "max_drift_millis", .natural 5)], [], rfl, by decide⟩
        ⟨[], [(some "policy", .text (some "wait"))], rfl, by decide⟩)
      (.unknown foreign (.field (by decide) rfl (.field (by decide) .array
        (.field (by decide) rfl .nil)))))
  have early : Gives { epoch := 1000 } [.epoch] [(some "note",
      .array [.decimal ['-', '1'], .null] true), (some "epoch_millis", .natural 1000)] :=
    .unknown foreign (.field (by decide) rfl .nil)
  have item : List.Forall₂ (fun f tree => ConfigField.Written f { epoch := 1000 } tree)
      (ConfigField.all.take 1) [.natural 1000] := .cons rfl .nil
  have array : Tree.Denotes "[1000]" (.array [.natural 1000] true) :=
    denotes ⟨rfl, trivial, trivial⟩ (by decide +kernel)
  obtain ⟨_, objects, arrays, repeated, _⟩ := partial_configurations_override
  obtain ⟨read, same⟩ := arrays _ 1 _ _ item array
  have twice : Tree.Denotes "\x7b\"epoch_millis\":1000,\"epoch_millis\":[]\x7d" (.object
      ([] ++ (some ConfigField.epoch.name, .natural 1000) :: [] ++
        (some ConfigField.epoch.name, .array [] true) :: []) true) :=
    denotes ⟨rfl, trivial, ⟨rfl, trivial⟩, trivial⟩ (by decide +kernel)
  refine ⟨?_, read, ?_, ?_⟩
  · refine objects _ _ _ _ reversed (denotes ?_ (by decide +kernel))
    exact ⟨rfl, ⟨rfl, trivial, trivial⟩, ⟨rfl, trivial, trivial, trivial⟩, note, trivial,
      ⟨rfl, trivial, trivial, trivial, trivial⟩, trivial, trivial⟩
  · exact same _ _ _ (fun f => Iff.rfl) early
      (denotes ⟨rfl, note, trivial, trivial⟩ (by decide +kernel))
  · exact repeated .epoch [] [] [] (.natural 1000) (.array [] true) true [] _
      (Tree.read_of_spells twice.1 twice.2)

end Config
end Tickstamp
