import Tickstamp.Proofs.Cluster
import Tickstamp.Proofs.Moment
import Tickstamp.Proofs.Order

/-!
# Where a stamp comes from

A stamp that is read back names the moment of the reading it was issued at, the
worker that was bound then, and the sequence that the generator has noted for it;
so do its text and both forms of its key. On the system clock that moment is the
wall-clock time, or the epoch if that is later. Stamps that can be read are in the
order of their origins, whether or not a generator issued them.
-/

namespace Tickstamp

theorem Config.originOf_eq_ok_iff (c : Config) (x : Stamp) (origin : Origin) :
    c.originOf x = .ok origin ↔ c.layout.isValid x = true ∧
      c.moment (c.layout.decode x).timestamp = .ok origin.unixMillis ∧
      origin.machine = (c.layout.decode x).machine ∧
      origin.sequence = (c.layout.decode x).sequence := by
  simp only [originOf, Fault.bind_eq_ok_iff, Layout.validate_eq_ok_iff]
  constructor
  · rintro ⟨_, ⟨rfl, valid⟩, _, moment, made⟩
    cases made
    exact ⟨valid, moment, rfl, rfl⟩
  · rintro ⟨valid, moment, machine, sequence⟩
    refine ⟨x, ⟨rfl, valid⟩, origin.unixMillis, moment, ?_⟩
    rw [← machine, ← sequence]
    rfl

/-- The moment decides, then the machine, then the sequence. -/
instance : LT Origin where
  lt a b := a.unixMillis < b.unixMillis ∨ a.unixMillis = b.unixMillis ∧
    (a.machine < b.machine ∨ a.machine = b.machine ∧ a.sequence < b.sequence)

/-- Of two origins the earlier moment comes first, and in one moment the smaller sequence. -/
def Origin.Precedes (a b : Origin) : Prop :=
  a.unixMillis < b.unixMillis ∨ a.unixMillis = b.unixMillis ∧ a.sequence < b.sequence

theorem Origin.lt_irrefl (a : Origin) : ¬ a < a := by
  rintro (later | ⟨_, above | ⟨_, above⟩⟩)
  · exact UInt64.lt_irrefl _ later
  · exact UInt64.lt_irrefl _ above
  · exact UInt64.lt_irrefl _ above

namespace Config

variable {c : Config} {x y : Stamp} {a b : Origin}

theorem lt_iff_of_originOf (hx : c.originOf x = .ok a) (hy : c.originOf y = .ok b) :
    x < y ↔ a < b := by
  obtain ⟨validX, momentX, machineX, sequenceX⟩ := (originOf_eq_ok_iff ..).mp hx
  obtain ⟨validY, momentY, machineY, sequenceY⟩ := (originOf_eq_ok_iff ..).mp hy
  rw [Layout.lt_iff_decode_lt validX validY]
  change _ ↔ a.unixMillis < b.unixMillis ∨ a.unixMillis = b.unixMillis ∧
    (a.machine < b.machine ∨ a.machine = b.machine ∧ a.sequence < b.sequence)
  rw [moment_lt_iff momentX momentY, moment_eq_iff momentX momentY, machineX, machineY, sequenceX,
    sequenceY]
  rfl

theorem originOf_injective (hx : c.originOf x = .ok a) (hy : c.originOf y = .ok a) : x = y := by
  have notLess : ¬ x < y := mt (lt_iff_of_originOf hx hy).mp a.lt_irrefl
  have notGreater : ¬ y < x := mt (lt_iff_of_originOf hy hx).mp a.lt_irrefl
  rw [Stamp.lt_iff_toNat_lt] at notLess notGreater
  apply Stamp.ext_toNat
  omega

/-- The stamps of one machine are in the order of their origins. -/
theorem precedes_of_lt (hx : c.originOf x = .ok a) (hy : c.originOf y = .ok b)
    (machine : a.machine = b.machine) (less : x < y) : a.Precedes b := by
  rcases (lt_iff_of_originOf hx hy).mp less with earlier | ⟨same, below | ⟨_, below⟩⟩
  · exact Or.inl earlier
  · rw [machine] at below
    exact absurd below (UInt64.lt_irrefl _)
  · exact Or.inr ⟨same, below⟩

end Config

/-- What an issuer reads in a stamp, in its text and in both forms of its key. -/
structure Issuer.ReadsBack (k : Issuer) (x : Stamp) (origin : Origin) : Prop where
  stamp : k.decode x = .ok origin
  text : ∃ text, k.textOf x = .ok text ∧ k.decodeText text = .ok origin ∧
    k.decodeKey (.text text) = .ok origin
  number : k.decodeKey (.numeric x) = .ok origin

namespace Issuer

theorem readsBack_of_originOf {k : Issuer} {x : Stamp} {origin : Origin}
    (read : k.config.originOf x = .ok origin) : k.ReadsBack x origin := by
  obtain ⟨text, written, same⟩ :=
    Layout.exists_key_of_isValid ((Config.originOf_eq_ok_iff ..).mp read).1
  have fromText : k.decodeText text = .ok origin := Fault.bind_eq_ok_iff.mpr ⟨x, same, read⟩
  refine ⟨read, ⟨text, ?_, fromText, fromText⟩, read⟩
  rw [textOf, written]
  rfl

/-- A committed stamp is read as the reading it was committed at, moved to the epoch, the machine
of the rules, and the sequence that the progress has noted. -/
theorem readsBack_of_commit {k : Issuer} (valid : k.config.validate = .ok ()) {r : Rules}
    (layout : r.layout = k.config.layout) {p next : Progress} {now : UInt64} {x : Stamp}
    (response : r.respond p now = .ok (.commit next x)) :
    ∃ sequence unixMillis, next = .issued now sequence ∧
      unixMillis.toNat = k.config.epoch.toNat + now.toNat ∧
      k.ReadsBack x ⟨unixMillis, r.machine, sequence⟩ := by
  obtain ⟨sequence, _, fits, noted, made⟩ := (Rules.respond_eq_commit_iff ..).mp response
  have passes := Rules.isValid_of_commit response
  rw [layout] at fits passes made
  obtain ⟨unixMillis, moment, sum⟩ := Config.exists_moment valid fits.timestamp
  refine ⟨sequence, unixMillis, noted, sum, readsBack_of_originOf ?_⟩
  have fields : k.config.layout.decode x = ⟨now, r.machine, sequence⟩ := by
    rw [made, Layout.decode_pack fits]
  rw [Config.originOf_eq_ok_iff, fields]
  exact ⟨passes, moment, rfl, rfl⟩

/-- A stamp that a poll hands out after some course is read back as what the poll found: its
reading, the machine bound at that time, and the sequence noted there and then. -/
theorem readsBack_of_offer {k k₁ k' : Issuer} {happenings : List Happening} (lawful : k.Lawful)
    (course : k.Reaches happenings k₁) (config : k'.config = k.config) {reading : Reading}
    {x : Stamp} (issued : (k₁.offer reading).1 = .ready x) :
    ∃ now g sequence unixMillis, reading = .shows now ∧ (k₁.offer reading).2.bound = some g ∧
      Happening.latestBound k.machine? happenings = some g.rules.machine ∧
      g.progress = .issued now sequence ∧
      unixMillis.toNat = k.config.epoch.toNat + now.toNat ∧
      k'.ReadsBack x ⟨unixMillis, g.rules.machine, sequence⟩ := by
  have leads := leads_of_reaches lawful course
  cases bound : k₁.bound with
  | none =>
    rw [offer, bound] at issued
    cases issued
  | some g =>
    rw [offer_of_bound bound] at issued ⊢
    rcases g.attempt_cases reading with ⟨now, next, stamp, rfl, _, response, commit⟩ | ⟨none, _, _⟩
    · rw [commit] at issued ⊢
      cases issued
      have layout : g.rules.layout = k'.config.layout := by
        rw [leads.lawful.layout bound, leads.config, config]
      have valid := lawful.valid
      rw [← config] at valid ⊢
      obtain ⟨sequence, unixMillis, noted, sum, back⟩ := readsBack_of_commit valid layout response
      have machine : k₁.machine? = some g.rules.machine := by
        rw [machine?, bound]
        rfl
      exact ⟨now, _, sequence, unixMillis, rfl, rfl, leads.machine.symm.trans machine, noted, sum,
        back⟩
    · rw [issued] at none
      cases none

end Issuer

variable {σ : Type} [Clock σ]

/-- A visit that is answered with a stamp is an attempt at the reading of its clock. -/
theorem Visit.attempt_eq {v : Visit σ} {x : Stamp} (issued : v.answer = .ready x) :
    v.generator.attempt v.reading = (.ready x, v.after) := by
  obtain ⟨g, clock⟩ := v
  have polled : (g.poll clock).1 = .ready x := issued
  rw [← issued]
  cases locked : g.poisoned with
  | true => simp [LockedGenerator.poll, locked] at polled
  | false =>
    simp [answer, after, reading, LockedGenerator.poll, LockedGenerator.attempt, locked]

namespace Issuer.Timeline

/-- Every stamp of a timeline is read back, by the issuer at its end, as what its visit found. -/
theorem readsBack {k k' : Issuer} {clock clock' : σ} {before later : List (Occurrence σ)}
    {v : Visit σ} (lawful : k.Lawful)
    (course : Timeline k clock (before ++ .polled v :: later) k' clock') {x : Stamp}
    (issued : v.answer = .ready x) :
    ∃ now machine sequence unixMillis, v.reading = .shows now ∧
      Happening.latestBound k.machine? (before.flatMap Occurrence.happenings) = some machine ∧
      v.after.progress = .issued now sequence ∧
      unixMillis.toNat = k.config.epoch.toNat + now.toNat ∧
      k'.ReadsBack x ⟨unixMillis, machine, sequence⟩ := by
  obtain ⟨k₁, past, bound⟩ := course.exists_before
  have config := (leads_of_reaches lawful course.reaches).config
  have offered : k₁.offer v.reading = (.ready x, { k₁ with bound := some v.after }) := by
    rw [offer_of_bound bound, Visit.attempt_eq issued]
  obtain ⟨now, g, sequence, unixMillis, shown, found, machine, noted, sum, back⟩ :=
    readsBack_of_offer lawful past.reaches config (congrArg Prod.fst offered)
  rw [offered] at found
  cases found
  exact ⟨now, _, sequence, unixMillis, shown, machine, noted, sum, back⟩

theorem later_clock (g : LockedGenerator) (clock : WallClock σ) :
    (Visit.mk g clock).later.clock = clock.clock := by
  have read : (Clock.read clock).2.clock = clock.clock := by rw [WallClock.read_eq]
  cases locked : g.poisoned with
  | true => simp [Visit.later, LockedGenerator.poll, locked]
  | false => simpa [Visit.later, LockedGenerator.poll, locked] using read

theorem clock_eq {k k' : Issuer} {clock clock' : WallClock σ}
    {occurrences : List (Occurrence (WallClock σ))}
    (course : Timeline k clock occurrences k' clock') : clock'.clock = clock.clock := by
  induction course with
  | refl => rfl
  | bind _ _ ih => exact ih
  | poll _ _ ih => exact ih.trans (later_clock _ _)

end Issuer.Timeline

/-- What a wall clock shows is the reading of its system clock at some wall-clock time. -/
theorem WallClock.exists_wall {clock : WallClock σ} {now : UInt64}
    (shown : (Clock.read clock).1 = .shows now) :
    ∃ unixMillis, (Clock.read clock.wall).1 = .shows unixMillis ∧
      clock.clock.reading unixMillis = now := by
  rw [WallClock.read_eq] at shown
  cases read : (Clock.read clock.wall).1 with
  | breaksDown =>
    rw [read] at shown
    cases shown
  | shows unixMillis =>
    rw [read] at shown
    exact ⟨unixMillis, rfl, Reading.shows.inj shown⟩

namespace SharedIssuer

theorem settlePoll_issuer (s : SharedIssuer) (b : OpenBatch) (answer : Answer) :
    (s.settlePoll b answer).2.issuer = s.issuer := by
  cases answer with
  | pending _ | refused _ | abandoned => rfl
  | ready stamp =>
    rw [settlePoll]
    split <;> rfl

theorem eq_ready_of_settlePoll {s : SharedIssuer} {b : OpenBatch} {answer : Answer} {caller : Nat}
    {x : Stamp} (issued : .issued caller x ∈ (s.settlePoll b answer).1) : answer = .ready x := by
  cases answer with
  | pending _ | refused _ | abandoned => simp [settlePoll] at issued
  | ready stamp =>
    have booked : caller = b.caller ∧ x = stamp := by
      rw [settlePoll] at issued
      split at issued <;> simpa using issued
    rw [booked.2]

theorem offer_of_issued {s : SharedIssuer} {m : SharedMove} {caller : Nat} {x : Stamp}
    (issued : .issued caller x ∈ (s.move m).1) :
    ∃ who reading, m = .poll who reading ∧ (s.issuer.offer reading).1 = .ready x ∧
      (s.move m).2.issuer = (s.issuer.offer reading).2 := by
  cases m with
  | bind who worker =>
    rw [move] at issued
    split at issued <;> simp at issued
  | openBatch who count =>
    rw [move] at issued
    unfold startBatch at issued
    split at issued <;> simp at issued
  | poll who reading =>
    refine ⟨who, reading, rfl, ?_⟩
    rw [move] at issued ⊢
    cases found : s.batchOf? who with
    | none =>
      rw [found] at issued
      cases issued
    | some b =>
      rw [found] at issued
      exact ⟨eq_ready_of_settlePoll issued, settlePoll_issuer _ b _⟩

/-- Every stamp of a schedule is read back, by the issuer at its end, as what its poll found. -/
theorem readsBack {s : SharedIssuer} (lawful : s.issuer.Lawful) {before later : List SharedMove}
    {m : SharedMove} {caller : Nat} {x : Stamp}
    (issued : .issued caller x ∈ ((s.run before).2.move m).1) :
    ∃ who now g sequence unixMillis, m = .poll who (.shows now) ∧
      ((s.run before).2.move m).2.issuer.bound = some g ∧
      Happening.latestBound s.issuer.machine? (SharedEvent.happenings (s.run before).1) =
        some g.rules.machine ∧
      g.progress = .issued now sequence ∧
      unixMillis.toNat = s.issuer.config.epoch.toNat + now.toNat ∧
      (s.run (before ++ m :: later)).2.issuer.ReadsBack x
        ⟨unixMillis, g.rules.machine, sequence⟩ := by
  have config := (Issuer.leads_of_reaches lawful (s.reaches_run (before ++ m :: later))).config
  obtain ⟨who, reading, rfl, answer, same⟩ := offer_of_issued issued
  obtain ⟨now, g, sequence, unixMillis, rfl, bound, rest⟩ :=
    Issuer.readsBack_of_offer lawful (s.reaches_run before) config answer
  exact ⟨who, now, g, sequence, unixMillis, rfl, by rw [same]; exact bound, rest⟩

end SharedIssuer
namespace Issuer

theorem ofSystemClock_eq_ok_iff (c : Config) (now : UInt64) (k : Issuer) (clock : SystemClock) :
    ofSystemClock c now = .ok (k, clock) ↔
      c.validate = .ok () ∧ c.epoch ≤ now ∧ k = { config := c } ∧ clock = ⟨c.epoch⟩ := by
  simp only [ofSystemClock, ofConfig, Fault.bind_eq_ok_iff, Config.systemClock_eq_ok_iff]
  constructor
  · rintro ⟨⟨⟩, valid, _, ⟨_, come, rfl⟩, _, ⟨_, _, made⟩, done⟩
    cases made
    cases done
    exact ⟨valid, come, rfl, rfl⟩
  · rintro ⟨valid, come, rfl, rfl⟩
    have positive := ((Config.validate_eq_ok_iff c).mp valid).1
    exact ⟨(), valid, _, ⟨positive, come, rfl⟩, _, ⟨(), valid, rfl⟩, rfl⟩

/-- Whatever an issuer goes through on whatever clock, every stamp that one of its polls hands out
is read back, from then on and in every form, as the reading of that poll moved to the epoch, the
machine that the latest binding has answered, and the sequence in the progress that the poll left;
so it is under every schedule of several callers. All requests are such polls and bindings. On the
system clock the moment that is read is the wall-clock time at that poll, or the epoch if that is
later. -/
theorem stamps_tell_origin {c : Config} {k : Issuer} (made : ofConfig c = .ok k) :
    (∀ {σ : Type} [Clock σ] {clock clock' : σ} {k' : Issuer} {before later : List (Occurrence σ)}
        {v : Visit σ} {x : Stamp},
      k.Timeline clock (before ++ .polled v :: later) k' clock' → v.answer = .ready x →
        ∃ now machine sequence unixMillis, v.reading = .shows now ∧
          Happening.latestBound none (before.flatMap Occurrence.happenings) = some machine ∧
          v.after.progress = .issued now sequence ∧
          unixMillis.toNat = c.epoch.toNat + now.toNat ∧
          k'.ReadsBack x ⟨unixMillis, machine, sequence⟩) ∧
    (∀ {σ : Type} [Clock σ] (patience : Nat) (clock : σ) (requests : List Operation),
      k.Unfolds clock (k.chronicle patience clock requests).1
        (k.chronicle patience clock requests).2.1 (k.chronicle patience clock requests).2.2) ∧
    (∀ {before later : List SharedMove} {m : SharedMove} {caller : Nat} {x : Stamp},
      let s : SharedIssuer := { issuer := k }
      .issued caller x ∈ ((s.run before).2.move m).1 →
        ∃ who now g sequence unixMillis, m = .poll who (.shows now) ∧
          ((s.run before).2.move m).2.issuer.bound = some g ∧
          Happening.latestBound none (SharedEvent.happenings (s.run before).1) =
            some g.rules.machine ∧
          g.progress = .issued now sequence ∧
          unixMillis.toNat = c.epoch.toNat + now.toNat ∧
          (s.run (before ++ m :: later)).2.issuer.ReadsBack x
            ⟨unixMillis, g.rules.machine, sequence⟩) ∧
    ∀ {σ : Type} [Clock σ] {start : UInt64} {systemClock : SystemClock} {wall : σ}
        {clock' : WallClock σ} {k' : Issuer} {before later : List (Occurrence (WallClock σ))}
        {v : Visit (WallClock σ)} {x : Stamp},
      ofSystemClock c start = .ok (k, systemClock) →
        k.Timeline ⟨systemClock, wall⟩ (before ++ .polled v :: later) k' clock' →
          v.answer = .ready x →
            ∃ wallMillis, (Clock.read v.clock.wall).1 = .shows wallMillis ∧
              ∀ origin, k'.decode x = .ok origin →
                origin.unixMillis.toNat = max wallMillis.toNat c.epoch.toNat := by
  obtain ⟨lawful, rfl, unbound⟩ := lawful_of_ofConfig made
  refine ⟨?_, ?_, ?_, ?_⟩
  · intro σ _ clock clock' k' before later v x course issued
    rw [← unbound]
    exact course.readsBack lawful issued
  · intro σ _ patience clock requests
    exact k.unfolds_chronicle patience clock requests
  · intro before later m caller x s issued
    rw [← unbound]
    exact SharedIssuer.readsBack lawful issued
  · intro σ _ start systemClock wall clock' k' before later v x started course issued
    obtain ⟨now, machine, sequence, unixMillis, shown, _, _, sum, back⟩ :=
      course.readsBack lawful issued
    obtain ⟨wallMillis, read, reading⟩ := WallClock.exists_wall shown
    refine ⟨wallMillis, read, ?_⟩
    intro origin decoded
    -- the visit still has the system clock that the issuer was made with
    obtain ⟨k₁, past, _⟩ := course.exists_before
    have same : v.clock.clock = systemClock := past.clock_eq
    obtain ⟨_, _, _, rfl⟩ := (ofSystemClock_eq_ok_iff ..).mp started
    rw [same] at reading
    rw [back.stamp] at decoded
    cases decoded
    rw [sum, ← reading]
    exact SystemClock.epoch_add_reading ⟨k.config.epoch⟩ wallMillis

/-- An issuer whose epoch leaves just enough room for its layout goes over from worker 2 to worker
1: its first stamp is issued before the epoch, and its second at the last moment there is. -/
theorem stamps_tell_origin_at_last_moment :
    ∃ (k : Issuer) (wall : Script) (before : List (Occurrence (WallClock Script)))
        (v : Visit (WallClock Script)) (k' : Issuer) (clock' : WallClock Script),
      ofSystemClock { epoch := 0xFFFFFE0000000000 } 0xFFFFFFFFFFFFFFFF =
          .ok (k, ⟨0xFFFFFE0000000000⟩) ∧
        k.Timeline ⟨⟨0xFFFFFE0000000000⟩, wall⟩ (before ++ [.polled v]) k' clock' ∧
        v.answer = .ready ⟨0x7FFFFFFFFFC01000⟩ ∧
        k'.ReadsBack ⟨0x7FFFFFFFFFC01000⟩ ⟨0xFFFFFFFFFFFFFFFF, 1, 0⟩ := by
  have valid : ({ epoch := 0xFFFFFE0000000000 } : Config).validate = .ok () := rfl
  have made : ofConfig { epoch := 0xFFFFFE0000000000 } =
      .ok { config := { epoch := 0xFFFFFE0000000000 } } := rfl
  have started := (ofSystemClock_eq_ok_iff { epoch := 0xFFFFFE0000000000 }
    0xFFFFFFFFFFFFFFFF _ _).mpr ⟨valid, by decide, rfl, rfl⟩
  have course : Timeline { config := { epoch := 0xFFFFFE0000000000 } }
      (⟨⟨0xFFFFFE0000000000⟩, { lines := [.shows 5, .shows 0xFFFFFFFFFFFFFFFF] }⟩ :
        WallClock Script)
      ([.bound 2, .polled ⟨⟨⟨.standard, 2, default, default⟩, .fresh, false⟩,
          ⟨⟨0xFFFFFE0000000000⟩, { lines := [.shows 5, .shows 0xFFFFFFFFFFFFFFFF] }⟩⟩, .bound 1] ++
        [.polled ⟨⟨⟨.standard, 1, default, default⟩, .issued 0 4095, false⟩,
          ⟨⟨0xFFFFFE0000000000⟩, { lines := [.shows 0xFFFFFFFFFFFFFFFF], last := 5 }⟩⟩]) _ _ :=
    .bind 2 (.poll rfl (.bind 1 (.poll rfl .refl)))
  have issued : (Visit.mk ⟨⟨.standard, 1, default, default⟩, .issued 0 4095, false⟩
    (⟨⟨0xFFFFFE0000000000⟩, { lines := [.shows 0xFFFFFFFFFFFFFFFF], last := 5 }⟩ :
      WallClock Script)).answer = .ready ⟨0x7FFFFFFFFFC01000⟩ := rfl
  refine ⟨_, _, _, _, _, _, started, course, issued, ?_⟩
  obtain ⟨now, machine, sequence, unixMillis, shown, latest, noted, sum, back⟩ :=
    (stamps_tell_origin made).1 course issued
  obtain rfl : 0x1FFFFFFFFFF = now := Reading.shows.inj shown
  obtain rfl : 1 = machine := Option.some.inj latest
  obtain rfl : 0 = sequence := (Progress.issued.inj noted).2
  obtain rfl : unixMillis = 0xFFFFFFFFFFFFFFFF := UInt64.toNat_inj.mp sum
  exact back

end Issuer
end Tickstamp
