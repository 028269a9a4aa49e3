import Tickstamp.Proofs.CommandLine.Spelling

/-!
# What a level of the command line says

A level says a list of items, one after the other. Its arguments are accepted
exactly if they spell items that give every option once at most, each with a
value that can be read, and then the level holds what the items say. An item may
leave its value to be read later, so what a level holds is what it holds once it
has been settled. Where two items are at fault, it is not considered which one is
reported.
-/

namespace Tickstamp.CommandLine

/-- The arguments of a level that says these items. At its end may stand `--`, after which
everything is an identifier. -/
inductive Said (place : Place) : (plain : Bool) → List Item → List String → Prop where
  | done : Said place false [] []
  | dashes {ids : List String} (ids_of_decode : ids ≠ [] → place = .decode) :
      Said place true (ids.map .id) ("--" :: ids)
  | cons {plain : Bool} {item : Item} {items : List Item} {words args : List String}
      (first : item.Written place words) (others : Said place plain items args) :
      Said place plain (item :: items) (words ++ args)

namespace Level

theorem say_settled {m m' : Level} {item : Item} (said : m.say item = .ok m') :
    m'.pending = m.pending ∧ m'.plain = m.plain := by
  cases item with
  | value t text =>
    obtain ⟨pending, plain, _⟩ := assign_settled said
    exact ⟨pending, plain⟩
  | id text =>
    cases said
    exact ⟨rfl, rfl⟩

theorem foldlM_say_ids (m : Level) (ids : List String) :
    (ids.map Item.id).foldlM say m = .ok { m with ids := m.ids ++ ids } := by
  induction ids generalizing m with
  | nil => simp [pure, Except.pure]
  | cons text rest ih =>
    rw [List.map_cons, List.foldlM_cons]
    change (rest.map Item.id).foldlM say { m with ids := m.ids ++ [text] } = _
    rw [ih, List.append_assoc]
    rfl

theorem settle_plain (l : Level) (plain : Bool) :
    ({ l with plain } : Level).settle = l.settle.map fun m => { m with plain } := by
  obtain ⟨given, count, ids, _ | ⟨t, _ | text⟩, _⟩ := l
  · rfl
  · rfl
  · have both {α : Type} (again : Bool) (read : Except UsageError α) (f g : α → Level)
        (h : Level → Level) (same : ∀ a, f a = h (g a)) :
        (if again then .error .repeated else read.map f) =
          (if again then .error .repeated else read.map g : Except UsageError Level).map h := by
      cases again <;> cases read <;> simp [Except.map, same]
    cases t with
    | setting s => exact both (given.has s) (given.put s text) _ _ _ fun _ => rfl
    | count => exact both count.isSome (readWord text) _ _ _ fun _ => rfl

theorem settle_plain_eq_ok_iff (l : Level) (plain : Bool) (m' : Level) :
    ({ l with plain } : Level).settle = .ok m' ↔
      ∃ m, l.settle = .ok m ∧ m' = { m with plain } := by
  rw [settle_plain]
  cases l.settle <;> simp [Except.map, eq_comm]

theorem take_plain {l : Level} (plain : l.plain = true) (place : Place) (arg : String) :
    l.take place arg = l.positional place arg := by
  rw [take.eq_def, plain]
  rfl

theorem take_ids {l : Level} (plain : l.plain = true) (place : Place) (ids : List String)
    (m' : Level) :
    (∃ l', ids.foldlM (take place) l = .ok l' ∧ l'.settle = .ok m') ↔
      (ids ≠ [] → place = .decode) ∧
        ∃ m, l.settle = .ok m ∧ m' = { m with ids := m.ids ++ ids } := by
  induction ids generalizing l with
  | nil => simp [pure, Except.pure, eq_comm]
  | cons arg rest ih =>
    rw [List.foldlM_cons, take_plain plain]
    cases place with
    | top | generate => simp [positional, bind, Except.bind]
    | decode =>
      have next {m : Level} (settled : l.settle = .ok m) :=
        ih (l := { m with ids := m.ids ++ [arg] }) ((idle_of_settle settled).2.1.trans plain)
      have idle {m : Level} (settled : l.settle = .ok m) :=
        settle_of_idle (m := { m with ids := m.ids ++ [arg] }) (idle_of_settle settled).1
      constructor
      · rintro ⟨l', taken, settled'⟩
        obtain ⟨l1, taken, later⟩ := UsageError.bind_eq_ok_iff.mp taken
        obtain ⟨m, settled, said⟩ := UsageError.bind_eq_ok_iff.mp taken
        cases said
        obtain ⟨_, m1, settled1, same⟩ := (next settled).mp ⟨l', later, settled'⟩
        cases (idle settled).symm.trans settled1
        exact ⟨fun _ => rfl, m, settled, by simpa using same⟩
      · rintro ⟨_, m, settled, same⟩
        obtain ⟨l', later, settled'⟩ := (next settled).mpr
          ⟨fun _ => rfl, _, idle settled, by simpa using same⟩
        have taken : l.positional .decode arg = .ok { m with ids := m.ids ++ [arg] } :=
          UsageError.bind_eq_ok_iff.mpr ⟨m, settled, rfl⟩
        exact ⟨l', UsageError.bind_eq_ok_iff.mpr ⟨_, taken, later⟩, settled'⟩

theorem exists_take_of_written {place : Place} {item : Item} {words : List String}
    (written : item.Written place words) {l m m' : Level} (free : l.plain = false)
    (settled : l.settle = .ok m) (said : m.say item = .ok m') :
    ∃ l', words.foldlM (take place) l = .ok l' ∧ l'.settle = .ok m' ∧ l'.plain = false := by
  obtain ⟨idle, stays, _⟩ := idle_of_settle settled
  obtain ⟨idle', stays'⟩ := say_settled said
  have single {arg : String} (alone : item.Written place [arg]) :
      ∃ l', [arg].foldlM (take place) l = .ok l' ∧ l'.settle = .ok m' ∧ l'.plain = false := by
    have heard : l.Says place arg m' := ⟨m, settled, Or.inr ⟨item, alone, said⟩⟩
    refine ⟨m', ?_, settle_of_idle (idle'.trans idle), stays'.trans (stays.trans free)⟩
    rw [List.foldlM_cons, heard.take free]
    rfl
  cases written with
  | flag => exact single .flag
  | joined names => exact single (.joined names)
  | attached nonempty apart => exact single (.attached nonempty apart)
  | id bare => exact single (.id bare)
  | @apart _ t name text names bare =>
    have heard : l.Says place name (m.awaiting t) := ⟨m, settled, Or.inl ⟨t, names, rfl⟩⟩
    refine ⟨m.holding t text, ?_, (settle_holding idle t text).trans said, stays.trans free⟩
    rw [List.foldlM_cons, heard.take free]
    change (take place (m.awaiting t) text >>= pure) = _
    rw [take_awaiting (stays.trans free) place bare]
    rfl

/-- Items that can be said are taken from the arguments that say them. -/
theorem exists_take_of_said {place : Place} {plain : Bool} {items : List Item}
    {args : List String} (spelled : Said place plain items args) {l m m' : Level}
    (free : l.plain = false) (settled : l.settle = .ok m) (said : items.foldlM say m = .ok m') :
    ∃ l', args.foldlM (take place) l = .ok l' ∧ l'.settle = .ok { m' with plain } := by
  induction spelled generalizing l m with
  | done =>
    cases said
    have stays : m'.plain = false := (idle_of_settle settled).2.1.trans free
    exact ⟨l, rfl, by rw [settled, ← stays]⟩
  | @dashes ids decode =>
    rw [foldlM_say_ids] at said
    cases said
    have ended : l.take place "--" = .ok { l with plain := true } :=
      take_dashes free (closed_of_settle settled).awaits.2
    have settled' := (settle_plain_eq_ok_iff l true _).mpr ⟨m, settled, rfl⟩
    obtain ⟨l', taken, final⟩ := (take_ids rfl place ids _).mpr ⟨decode, _, settled', rfl⟩
    exact ⟨l', by rw [List.foldlM_cons, ended]; exact taken, final⟩
  | cons first _ ih =>
    obtain ⟨m1, said1, others⟩ := UsageError.bind_eq_ok_iff.mp said
    obtain ⟨l1, taken1, settled1, free1⟩ := exists_take_of_written first free settled said1
    obtain ⟨l', taken, final⟩ := ih free1 settled1 others
    exact ⟨l', by rw [List.foldlM_append, taken1]; exact taken, final⟩

theorem exists_said_of_ids {place : Place} {ids : List String} {l l' m' : Level}
    (free : l.plain = false) (taken : ids.foldlM (take place) { l with plain := true } = .ok l')
    (settled' : l'.settle = .ok m') :
    ∃ items m, Said place m'.plain items ("--" :: ids) ∧ l.settle = .ok m ∧
      items.foldlM say m = .ok { m' with plain := false } := by
  obtain ⟨decode, m1, settled1, rfl⟩ := (take_ids rfl place ids m').mp ⟨l', taken, settled'⟩
  obtain ⟨m, settled, rfl⟩ := (settle_plain_eq_ok_iff l true m1).mp settled1
  have stays : m.plain = false := (idle_of_settle settled).2.1.trans free
  refine ⟨ids.map .id, m, .dashes decode, settled, ?_⟩
  rw [foldlM_say_ids, ← stays]

/-- What is accepted says items that can be said. -/
theorem exists_said_of_take {place : Place} : ∀ {args : List String} {l l' m' : Level},
    l.plain = false → l.Closed → args.foldlM (take place) l = .ok l' → l'.settle = .ok m' →
      ∃ items m, Said place m'.plain items args ∧ l.settle = .ok m ∧
        items.foldlM say m = .ok { m' with plain := false }
  | [], l, l', m', free, _, taken, settled' => by
    cases taken
    have stays : m'.plain = false := (idle_of_settle settled').2.1.trans free
    refine ⟨[], m', stays ▸ .done, settled', ?_⟩
    rw [← stays]
    rfl
  | arg :: rest, l, l', m', free, closed, taken, settled' => by
    obtain ⟨l1, first, later⟩ := UsageError.bind_eq_ok_iff.mp taken
    rcases (take_eq_ok_iff free closed ..).mp first with
      ⟨rfl, rfl⟩ | ⟨m, settled, ⟨t, names, rfl⟩ | ⟨item, written, said⟩⟩
    · exact exists_said_of_ids free later settled'
    · have stays : m.plain = false := (idle_of_settle settled).2.1.trans free
      have idle := (idle_of_settle settled).1
      cases rest with
      | nil =>
        cases later
        exact absurd rfl (closed_of_settle settled' t)
      | cons text rest =>
        obtain ⟨l2, second, later⟩ := UsageError.bind_eq_ok_iff.mp later
        rcases take_awaiting_cases stays second with ⟨bare, rfl⟩ | rfl
        · have closed2 : (m.holding t text).Closed := by
            rintro t' ⟨⟩
          obtain ⟨items, m2, spelled, settled2, others⟩ :=
            exists_said_of_take (l := m.holding t text) stays closed2 later settled'
          rw [settle_holding idle] at settled2
          exact ⟨.value t text :: items, m, .cons (.apart names bare) spelled, settled,
            UsageError.bind_eq_ok_iff.mpr ⟨m2, settled2, others⟩⟩
        · obtain ⟨_, m1, settled1, _⟩ := (take_ids rfl place rest m').mp ⟨l', later, settled'⟩
          exact absurd rfl (closed_of_settle settled1 t)
    · obtain ⟨idle, stays, _⟩ := idle_of_settle settled
      obtain ⟨idle1, stays1⟩ := say_settled said
      have settled1 := settle_of_idle (idle1.trans idle)
      obtain ⟨items, m2, spelled, settled2, others⟩ := exists_said_of_take
        (stays1.trans (stays.trans free)) (closed_of_settle settled1) later settled'
      cases settled1.symm.trans settled2
      exact ⟨item :: items, m, .cons written spelled, settled,
        UsageError.bind_eq_ok_iff.mpr ⟨l1, said, others⟩⟩

end Level

/-! ## Items -/

namespace Item

/-- The value that an option is given. -/
def textOf (t : Target) : List Item → Option String
  | [] => none
  | .value t' text :: rest => if t' = t then some text else textOf t rest
  | .id _ :: rest => textOf t rest

def idsOf : List Item → List String
  | [] => []
  | .value _ _ :: rest => idsOf rest
  | .id text :: rest => text :: idsOf rest

/-- How many keys are asked for. -/
def countOf (items : List Item) : UInt64 :=
  ((textOf .count items).bind Target.count.value?).getD 1

/-- Every option is given once at most, with a value that can be read. -/
def Proper : List Item → Prop
  | [] => True
  | .value t text :: rest => (∃ v, t.read text = .ok v) ∧ textOf t rest = none ∧ Proper rest
  | .id _ :: rest => Proper rest

theorem Proper.exists_value {items : List Item} (proper : Proper items) {t : Target}
    {text : String} (given : textOf t items = some text) : ∃ v, t.value? text = some v := by
  induction items with
  | nil => cases given
  | cons item rest ih =>
    cases item with
    | id _ => exact ih proper given
    | value t' text' =>
      obtain ⟨⟨v, read⟩, _, others⟩ := proper
      by_cases same : t' = t
      · subst same
        rw [textOf, if_pos rfl] at given
        cases given
        exact ⟨v, by rw [Target.value?, read]; rfl⟩
      · rw [textOf, if_neg same] at given
        exact ih others given

end Item

namespace Level

/-- Items can be said if they are proper and give no option that has been given before. -/
theorem exists_say_iff (items : List Item) (m : Level) :
    (∃ m', items.foldlM say m = .ok m') ↔
      Item.Proper items ∧ ∀ t, m.get t ≠ none → Item.textOf t items = none := by
  induction items generalizing m with
  | nil => simp [Item.Proper, Item.textOf, pure, Except.pure]
  | cons item rest ih =>
    cases item with
    | id text =>
      have next := ih { m with ids := m.ids ++ [text] }
      rw [List.foldlM_cons]
      exact next
    | value t text =>
      have next (v : t.Value) := ih (m.set t v)
      constructor
      · rintro ⟨m', said⟩
        obtain ⟨m1, first, later⟩ := UsageError.bind_eq_ok_iff.mp said
        obtain ⟨unset, v, read, rfl⟩ := (assign_eq_ok_iff ..).mp first
        obtain ⟨proper, free⟩ := (next v).mp ⟨m', later⟩
        have once : Item.textOf t rest = none := free t (by simp [get_set_self])
        refine ⟨⟨⟨v, read⟩, once, proper⟩, fun t' set => ?_⟩
        have other : t' ≠ t := by
          rintro rfl
          exact set unset
        rw [Item.textOf, if_neg (Ne.symm other)]
        exact free t' (by rwa [get_set_of_ne other])
      · rintro ⟨⟨⟨v, read⟩, once, proper⟩, free⟩
        have unset : m.get t = none := by
          cases set : m.get t with
          | none => rfl
          | some v => exact absurd (free t (by simp [set])) (by simp [Item.textOf])
        obtain ⟨m', later⟩ := (next v).mpr ⟨proper, fun t' set => by
          by_cases same : t' = t
          · rw [same, once]
          · rw [get_set_of_ne same] at set
            simpa [Item.textOf, Ne.symm same] using free t' set⟩
        exact ⟨m', UsageError.bind_eq_ok_iff.mpr
          ⟨_, (assign_eq_ok_iff ..).mpr ⟨unset, v, read, rfl⟩, later⟩⟩

theorem of_say {items : List Item} {m m' : Level} (said : items.foldlM say m = .ok m') :
    (∀ t, m'.get t = (m.get t).or ((Item.textOf t items).bind t.value?)) ∧
      m'.ids = m.ids ++ Item.idsOf items := by
  induction items generalizing m with
  | nil =>
    cases said
    simp [Item.textOf, Item.idsOf]
  | cons item rest ih =>
    obtain ⟨m1, first, later⟩ := UsageError.bind_eq_ok_iff.mp said
    obtain ⟨values, ids⟩ := ih later
    cases item with
    | id text =>
      cases first
      exact ⟨values, by simpa [Item.idsOf] using ids⟩
    | value t text =>
      obtain ⟨unset, v, read, rfl⟩ := (assign_eq_ok_iff ..).mp first
      obtain ⟨_, _, same⟩ := assign_settled first
      refine ⟨fun t' => ?_, by rw [ids, same, Item.idsOf]⟩
      rw [values]
      by_cases same : t' = t
      · subst same
        simp [get_set_self, unset, Item.textOf, Target.value?, read, Except.toOption]
      · rw [get_set_of_ne same, Item.textOf, if_neg (Ne.symm same)]

/-- A level holds these items and nothing else. -/
structure Holds (m : Level) (items : List Item) : Prop where
  values : ∀ t, m.get t = (Item.textOf t items).bind t.value?
  ids : m.ids = Item.idsOf items

theorem Holds.count_getD {m : Level} {items : List Item} (holds : m.Holds items) :
    m.count.getD 1 = Item.countOf items :=
  congrArg (Option.getD · 1) (holds.values .count)

theorem get_empty (t : Target) : ({} : Level).get t = none := by
  cases t with
  | setting s => exact Given.get_empty s
  | count => rfl

theorem holds_of_say {items : List Item} {m : Level} (said : items.foldlM say {} = .ok m)
    (plain : Bool) : ({ m with plain } : Level).Holds items := by
  obtain ⟨values, ids⟩ := of_say said
  refine ⟨fun t => ?_, ids⟩
  have same : ({ m with plain } : Level).get t = m.get t := by cases t <;> rfl
  rw [same, values, get_empty, Option.none_or]

/-- Arguments that say proper items are accepted, and their level holds these items. -/
theorem exists_settle_of_said {place : Place} {plain : Bool} {items : List Item}
    {args : List String} (spelled : Said place plain items args) (proper : Item.Proper items) :
    ∃ l m, args.foldlM (take place) {} = .ok l ∧ l.settle = .ok m ∧ m.plain = plain ∧
      m.Holds items := by
  obtain ⟨m, said⟩ := (exists_say_iff items {}).mpr
    ⟨proper, fun t set => absurd (get_empty t) set⟩
  obtain ⟨l, taken, settled⟩ := exists_take_of_said spelled (l := {}) rfl rfl said
  exact ⟨l, _, taken, settled, rfl, holds_of_say said plain⟩

/-- Arguments that are accepted say proper items, and their level holds these items. -/
theorem exists_said_of_settle {place : Place} {args : List String} {l m : Level}
    (taken : args.foldlM (take place) {} = .ok l) (settled : l.settle = .ok m) :
    ∃ items, Said place m.plain items args ∧ Item.Proper items ∧ m.Holds items := by
  obtain ⟨items, m0, spelled, settled0, said⟩ :=
    exists_said_of_take (l := {}) rfl (by rintro t ⟨⟩) taken settled
  cases settled0
  obtain ⟨proper, _⟩ := (exists_say_iff items {}).mp ⟨_, said⟩
  exact ⟨items, spelled, proper, holds_of_say said m.plain⟩

end Level
end Tickstamp.CommandLine
