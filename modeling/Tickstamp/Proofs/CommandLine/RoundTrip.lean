import Tickstamp.Proofs.CommandLine.Settings
import Tickstamp.Proofs.CommandLine.Phases
import Tickstamp.Proofs.Issuer.Origins
import Tickstamp.Proofs.Text.Integer

/-!
# Lines that are written can be read

The keys that one invocation writes are decoded by another with the same
configuration, line by line, to what the polls found that issued them, whether
keys are numbers or texts. An invocation that fails to issue all its keys writes
none. Only the configuration matters that the settings amount to, not where they
were given, and what a terminal does to a line is not considered.
-/

namespace Tickstamp.CommandLine

theorem Given.valid_of_config {given : Given} {c : Config} (accepted : given.config = .ok c) :
    c.validate = .ok () := by
  obtain ⟨_, _, valid, rfl⟩ := (config_eq_ok_iff ..).mp accepted
  exact valid

/-- A line that an invocation writes for a stamp, with the poll that issued the stamp and what the
line is decoded to. -/
structure Entry (σ : Type) where
  visit : Visit (WallClock σ)
  stamp : Stamp
  key : Key
  origin : Origin

variable {σ : Type} [Clock σ] {c : Config} {worker : Int}

/-- An entry that is decoded to what the poll found. -/
structure Entry.Faithful (e : Entry σ) (c : Config) (worker : Int) : Prop where
  issued : e.visit.answer = .ready e.stamp
  key : Issuer.keyOf { config := c } e.stamp = .ok e.key
  read : c.originOf e.stamp = .ok e.origin
  worker : (e.origin.machine.toNat : Int) = worker
  /-- The moment is the wall-clock time at the poll, or the epoch if that is later. -/
  moment : ∃ wallMillis, (Clock.read e.visit.clock.wall).1 = .shows wallMillis ∧
    e.origin.unixMillis.toNat = max wallMillis.toNat c.epoch.toNat
  /-- The sequence is the one that the poll has left in the progress. -/
  noted : ∃ now, e.visit.after.progress = .issued now e.origin.sequence

theorem exists_entries {visits : List (Visit (WallClock σ))}
    (each : ∀ v ∈ visits, ∀ x, v.answer = .ready x →
      ∃ key origin, Entry.Faithful ⟨v, x, key, origin⟩ c worker) :
    ∃ entries : List (Entry σ),
      entries.map (·.visit) = visits.filter (·.answer.stamp?.isSome) ∧
      entries.map (·.stamp) = Answer.stamps (visits.map Visit.answer) ∧
      ∀ e ∈ entries, e.Faithful c worker := by
  induction visits with
  | nil => exact ⟨[], rfl, rfl, by simp⟩
  | cons v rest ih =>
    obtain ⟨entries, polls, stamps, faithful⟩ := ih fun v hv => each v (List.mem_cons_of_mem _ hv)
    cases answered : v.answer with
    | ready x =>
      obtain ⟨key, origin, first⟩ := each v List.mem_cons_self x answered
      refine ⟨⟨v, x, key, origin⟩ :: entries, ?_, ?_, List.forall_mem_cons.mpr ⟨first, faithful⟩⟩
      · simp [answered, Answer.stamp?, polls]
      · simp [answered, Answer.stamps_cons, Answer.stamp?, stamps]
    | pending _ | refused _ | abandoned =>
      refine ⟨entries, ?_, ?_, faithful⟩
      · simp [answered, Answer.stamp?, polls]
      · simp [answered, Answer.stamps_cons, Answer.stamp?, stamps]

/-- The issuer of a worker, before its first poll. -/
def freshIssuer (r : Rules) (c : Config) : Issuer :=
  { config := c, bound := some { rules := r, progress := .fresh } }

/-- A worker's polls on the system clock are faithful, as far as they are answered with a stamp. -/
theorem exists_faithful {r : Rules} (accepted : Rules.ofConfig c worker = .ok r) {wall : σ}
    {times : Nat} {v : Visit (WallClock σ)} {x : Stamp}
    (made : v ∈ LockedGenerator.visits times { rules := r, progress := .fresh }
      (⟨⟨c.epoch⟩, wall⟩ : WallClock σ))
    (issued : v.answer = .ready x) :
    ∃ key origin, Entry.Faithful ⟨v, x, key, origin⟩ c worker := by
  have lawful : (freshIssuer r c).Lawful := by
    refine ⟨((Rules.ofConfig_eq_ok_iff ..).mp accepted).1, ?_⟩
    rintro _ ⟨⟩
    exact ⟨worker, accepted⟩
  have course := Issuer.timeline_visits (k := freshIssuer r c) rfl times
    (⟨⟨c.epoch⟩, wall⟩ : WallClock σ)
  obtain ⟨earlier, later, split⟩ := List.append_of_mem made
  rw [split, List.map_append, List.map_cons] at course
  obtain ⟨now, machine, sequence, unixMillis, shown, latest, noted, sum, back⟩ :=
    course.readsBack lawful issued
  obtain ⟨wallMillis, read, reading⟩ := WallClock.exists_wall shown
  obtain ⟨_, past, _⟩ := course.exists_before
  -- no other worker is bound between the polls
  rw [Issuer.happenings_polled, Happening.latestBound_map_issued] at latest
  obtain rfl : r.machine = machine := Option.some.inj latest
  have epoch : v.clock.clock = ⟨c.epoch⟩ := past.clock_eq
  rw [epoch] at reading
  have moment : unixMillis.toNat = max wallMillis.toNat c.epoch.toNat := by
    rw [sum, ← reading]
    exact SystemClock.epoch_add_reading ⟨c.epoch⟩ wallMillis
  have origin : c.originOf x = .ok ⟨unixMillis, r.machine, sequence⟩ := back.stamp
  obtain ⟨text, written, _⟩ := back.text
  refine ⟨if c.asString then .text text else .numeric x, _, issued, ?_, origin,
    (Rules.worker_eq accepted).symm, ⟨wallMillis, read, moment⟩, now, noted⟩
  have form : Issuer.textOf { config := c } x = .ok text := written
  by_cases asText : c.asString = true
  · simp [Issuer.keyOf, asText, form, Except.map]
  · simp [Issuer.keyOf, asText]

namespace Invocation

theorem issuer_eq {r : Rules} (accepted : Rules.ofConfig c worker = .ok r) {now : UInt64}
    (come : c.epoch ≤ now) (command : Command) :
    issuer ⟨c, some worker, command⟩ now = .ok (freshIssuer r c, ⟨c.epoch⟩) := by
  have valid := ((Rules.ofConfig_eq_ok_iff ..).mp accepted).1
  have started := (Issuer.ofSystemClock_eq_ok_iff ..).mpr ⟨valid, come, rfl, rfl⟩
  have bound : Issuer.bind { config := c } worker = (.ok r.machine, freshIssuer r c) := by
    simp [Issuer.bind, accepted, freshIssuer]
  simp [issuer, started, Issuer.bindFrom, bound, Except.mapError, bind, Except.bind, pure,
    Except.pure]

/-- Without a worker, or with one of the layout, an invocation has an issuer. -/
theorem exists_issuer (valid : c.validate = .ok ()) {now : UInt64} (come : c.epoch ≤ now)
    {worker : Option Int} (inRange : ∀ w ∈ worker, ∃ machine, c.layout.machineOf w = .ok machine)
    (command : Command) :
    ∃ k clock, issuer ⟨c, worker, command⟩ now = .ok (k, clock) ∧ k.config = c := by
  cases worker with
  | none =>
    have started := (Issuer.ofSystemClock_eq_ok_iff ..).mpr ⟨valid, come, rfl, rfl⟩
    refine ⟨{ config := c }, ⟨c.epoch⟩, ?_, rfl⟩
    simp only [issuer, started]
    rfl
  | some w =>
    obtain ⟨machine, known⟩ := inRange w rfl
    have accepted := (Rules.ofConfig_eq_ok_iff c w ⟨c.layout, machine, c.lag, c.carryOver⟩).mpr
      ⟨valid, known, rfl, rfl, rfl⟩
    exact ⟨_, _, issuer_eq accepted come command, rfl⟩

theorem lines_issued {result : Except Halt (List Key)} (failed : (issued result).failure ≠ none) :
    (issued result).lines = [] := by
  cases result with
  | error _ => rfl
  | ok _ => exact absurd rfl failed

theorem lines_eq_nil_of_failure {config : Config} {worker : Option Int} {count : UInt64}
    {patience : Nat} {wall : σ}
    (failed : (run ⟨config, worker, .generate count⟩ patience wall).failure ≠ none) :
    (run ⟨config, worker, .generate count⟩ patience wall).lines = [] := by
  rcases read : Clock.read wall with ⟨reading, later⟩
  cases reading with
  | breaksDown => rw [run_of_breakdown read]
  | shows now =>
    cases made : issuer ⟨config, worker, .generate count⟩ now with
    | error failure => rw [run_of_failure read made]
    | ok issuer =>
      rw [run_generate_of_issuer read made rfl] at failed ⊢
      exact lines_issued failed

theorem mapError_eq_ok_iff {α : Type} (rename : Fault → Failure) (x : Except Fault α) (a : α) :
    x.mapError rename = .ok a ↔ x = .ok a := by
  cases x with
  | error fault => simp [Except.mapError]
  | ok b => simp [Except.mapError]

theorem decodeOne_of_textual {k : Issuer} (textual : k.config.asString = true) (input : String)
    (origin : Origin) :
    decodeOne k input = .ok origin ↔
      ∃ s, k.config.layout.decodeKey input = .ok s ∧ k.config.originOf s = .ok origin := by
  rw [decodeOne, if_pos textual, mapError_eq_ok_iff, Issuer.decodeText, Fault.bind_eq_ok_iff]

theorem decodeOne_of_numeric {k : Issuer} (numeric : k.config.asString = false) (input : String)
    (origin : Origin) :
    decodeOne k input = .ok origin ↔
      ∃ s, Text.Literal input s.word.toNat ∧ k.config.originOf s = .ok origin := by
  have positive : 0 < UInt64.size := by decide
  have reads := Text.readNatural_eq_ok_iff positive input
  rw [decodeOne, if_neg (by simp [numeric])]
  cases read : Text.readNatural UInt64.size input with
  | error fault =>
    constructor
    · rintro ⟨⟩
    · rintro ⟨s, writes, _⟩
      rw [(reads _).mpr ⟨writes, s.word.toNat_lt_size⟩] at read
      cases read
  | ok n =>
    obtain ⟨writes, below⟩ := (reads n).mp read
    have word : (UInt64.ofNat n).toNat = n := UInt64.toNat_ofNat_of_lt' below
    dsimp only
    rw [mapError_eq_ok_iff, Issuer.decode]
    constructor
    · intro found
      exact ⟨⟨UInt64.ofNat n⟩, by rwa [word], found⟩
    · rintro ⟨s, other, found⟩
      have same := (reads _).mpr ⟨other, s.word.toNat_lt_size⟩
      rw [read] at same
      obtain rfl : n = s.word.toNat := Except.ok.inj same
      rwa [UInt64.ofNat_toNat]

theorem decodeOne_display {k : Issuer} {x : Stamp} {origin : Origin} {key : Key}
    (read : k.config.originOf x = .ok origin) (made : k.keyOf x = .ok key) :
    decodeOne k key.display = .ok origin := by
  rw [Issuer.keyOf] at made
  by_cases asText : k.config.asString = true
  · obtain ⟨text, written, back, _⟩ := (Issuer.readsBack_of_originOf read).text
    rw [if_pos asText, written] at made
    cases made
    exact (decodeOne_of_textual asText ..).mpr (Fault.bind_eq_ok_iff.mp back)
  · rw [if_neg asText] at made
    cases made
    exact (decodeOne_of_numeric (Bool.eq_false_iff.mpr asText) ..).mpr
      ⟨x, Text.literal_toString _, read⟩

theorem decodeAll_eq {k : Issuer} {α : Type} {line : α → String} {origin : α → Origin}
    {entries : List α} (each : ∀ e ∈ entries, decodeOne k (line e) = .ok (origin e)) :
    decodeAll k (entries.map line) = { lines := entries.map fun e => (origin e).text } := by
  induction entries with
  | nil => rfl
  | cons e rest ih =>
    have first := each e List.mem_cons_self
    have later := ih fun e he => each e (List.mem_cons_of_mem _ he)
    rw [List.map_cons, decodeAll, first]
    simp only [later, List.map_cons]

/-- Keys are decoded by the configuration alone, whichever worker is bound. -/
theorem decodeAll_congr {k k' : Issuer} (config : k.config = k'.config) (inputs : List String) :
    decodeAll k inputs = decodeAll k' inputs := by
  have each (input : String) : decodeOne k input = decodeOne k' input := by
    simp only [decodeOne, Issuer.decodeText, Issuer.decode, config]
  induction inputs with
  | nil => rfl
  | cons input rest ih => rw [decodeAll, decodeAll, each, ih]

theorem run_eq_decodeAll (valid : c.validate = .ok ()) {τ : Type} [Clock τ] {wall : τ}
    {now : UInt64} (shown : (Clock.read wall).1 = .shows now) (come : c.epoch ≤ now)
    {worker : Option Int} (inRange : ∀ w ∈ worker, ∃ machine, c.layout.machineOf w = .ok machine)
    (inputs : List String) (patience : Nat) :
    run ⟨c, worker, .decode inputs⟩ patience wall = decodeAll { config := c } inputs := by
  obtain ⟨k, clock, made, config⟩ := exists_issuer valid come inRange (.decode inputs)
  rcases read : Clock.read wall with ⟨reading, later⟩
  rw [read] at shown
  obtain rfl : reading = .shows now := shown
  rw [run_decode_of_issuer read made rfl]
  exact decodeAll_congr config inputs

theorem run_decode (valid : c.validate = .ok ()) {entries : List (Entry σ)} {issuedBy : Int}
    (faithful : ∀ e ∈ entries, e.Faithful c issuedBy) {τ : Type} [Clock τ] {wall : τ}
    {now : UInt64} (shown : (Clock.read wall).1 = .shows now) (come : c.epoch ≤ now)
    {worker : Option Int} (inRange : ∀ w ∈ worker, ∃ machine, c.layout.machineOf w = .ok machine)
    (patience : Nat) :
    run ⟨c, worker, .decode (entries.map (·.key.display))⟩ patience wall =
      { lines := entries.map (·.origin.text) } := by
  rw [run_eq_decodeAll valid shown come inRange]
  refine decodeAll_eq ?_
  intro e he
  have entry := faithful e he
  exact decodeOne_display entry.read entry.key

theorem keys_eq {k : Issuer} {α : Type} {stamp : α → Stamp} {key : α → Key} {entries : List α}
    (each : ∀ e ∈ entries, k.keyOf (stamp e) = .ok (key e)) :
    (entries.map stamp).mapM k.keyOf = .ok (entries.map key) := by
  rw [List.mapM_map]
  exact Halt.mapM_eq_ok each

/-- The entries of one worker, in the order of their stamps, are in the order of their origins. -/
theorem pairwise_precedes {entries : List (Entry σ)}
    (faithful : ∀ e ∈ entries, e.Faithful c worker)
    (increase : (entries.map (·.stamp)).Pairwise (· < ·)) :
    entries.Pairwise fun a b => a.origin.Precedes b.origin := by
  refine (List.pairwise_map.mp increase).imp_of_mem ?_
  intro a b ha hb less
  have same : a.origin.machine = b.origin.machine := by
    have numbers := (faithful a ha).worker.trans (faithful b hb).worker.symm
    exact UInt64.toNat_inj.mp (Int.ofNat_inj.mp numbers)
  exact Config.precedes_of_lt (faithful a ha).read (faithful b hb).read same less

/-- If keys are issued, each of them stands for a poll that is answered with a stamp. -/
theorem exists_entries_of_generateKeys {r : Rules} (accepted : Rules.ofConfig c worker = .ok r)
    {patience count : Nat} {wall : σ} {keys : List Key}
    (made : ((freshIssuer r c).generateKeys patience count
      (⟨⟨c.epoch⟩, wall⟩ : WallClock σ)).result = .ok keys) :
    keys.length = count ∧ ∃ (times : Nat) (entries : List (Entry σ)),
      entries.map (·.visit) = (LockedGenerator.visits times { rules := r, progress := .fresh }
        (⟨⟨c.epoch⟩, wall⟩ : WallClock σ)).filter (·.answer.stamp?.isSome) ∧
      (∀ e ∈ entries, e.Faithful c worker) ∧ keys = entries.map (·.key) ∧
      entries.Pairwise fun a b => a.origin.Precedes b.origin := by
  cases batch : (Call.batch LockedGenerator.poll patience count
      { rules := r, progress := .fresh } (⟨⟨c.epoch⟩, wall⟩ : WallClock σ)).result with
  | error halt =>
    simp [Issuer.generateKeys, Issuer.generateBatch, freshIssuer, Issuer.Run.andThen, batch,
      Except.bind] at made
  | ok stamps =>
    have each : stamps.mapM (freshIssuer r c).keyOf = .ok keys := by
      simpa [Issuer.generateKeys, Issuer.generateBatch, freshIssuer, Issuer.Run.andThen, batch,
        Except.bind] using made
    obtain ⟨length, answers, serve, polled⟩ := Call.exists_polls_of_batch _ batch
    obtain ⟨readings, history, _⟩ := LockedGenerator.exists_history_polls answers.length
      { rules := r, progress := .fresh } (⟨⟨c.epoch⟩, wall⟩ : WallClock σ)
    obtain ⟨entries, visits, issued, faithful⟩ :=
      exists_entries fun v (hv : v ∈ LockedGenerator.visits answers.length
        { rules := r, progress := .fresh } ⟨⟨c.epoch⟩, wall⟩) x => exists_faithful accepted hv
    rw [LockedGenerator.answers_visits, polled, serve.stamps_eq] at issued
    rw [polled] at history
    have climb := LockedGenerator.history_climb { rules := r, progress := .fresh } readings
    rw [← history, serve.stamps_eq, ← issued] at climb
    have written := keys_eq (k := freshIssuer r c) fun e he => (faithful e he).key
    rw [issued, each] at written
    obtain rfl : keys = entries.map (·.key) := Except.ok.inj written
    refine ⟨?_, answers.length, entries, visits, faithful, rfl,
      pairwise_precedes faithful climb.increasing⟩
    rw [← length, ← issued, List.length_map, List.length_map]

theorem run_generate {r : Rules} (accepted : Rules.ofConfig c worker = .ok r) {wall later : σ}
    {start : UInt64} (read : Clock.read wall = (.shows start, later)) (come : c.epoch ≤ start)
    (patience : Nat) (count : UInt64) :
    run ⟨c, some worker, .generate count⟩ patience wall =
      issued ((freshIssuer r c).generateKeys patience count.toNat
        (⟨⟨c.epoch⟩, later⟩ : WallClock σ)).result :=
  run_generate_of_issuer read (issuer_eq accepted come _) rfl patience

/-- Whatever settings are accepted, an invocation that fails to issue keys writes nothing. If it
does not fail, for a worker of the layout and from the epoch on, then it writes as many lines as
were asked for: one for each of its polls that was answered with a stamp, in that order. Another
invocation with the same configuration and any or no worker of the layout, made at any other time
from the epoch on, decodes them line by line to three numbers with blanks between them: the
wall-clock time of the poll, or the epoch if that is later, the worker, and the sequence that the
poll has noted; these origins stand in strict order. -/
theorem written_lines_decode {given : Given} {c : Config} (accepted : given.config = .ok c)
    (wall : σ) (count : UInt64) (patience : Nat) :
    (∀ worker, (run ⟨c, worker, .generate count⟩ patience wall).failure ≠ none →
      (run ⟨c, worker, .generate count⟩ patience wall).lines = []) ∧
    ∀ (worker : Int) (machine start : UInt64) (later : σ),
      c.layout.machineOf worker = .ok machine → Clock.read wall = (.shows start, later) →
      c.epoch ≤ start →
      let output := run ⟨c, some worker, .generate count⟩ patience wall
      output.failure = none →
        output.lines.length = count.toNat ∧
        ∃ (r : Rules) (times : Nat) (entries : List (Entry σ)),
          Rules.ofConfig c worker = .ok r ∧
          entries.map (·.visit) = (LockedGenerator.visits times { rules := r, progress := .fresh }
            (⟨⟨c.epoch⟩, later⟩ : WallClock σ)).filter (·.answer.stamp?.isSome) ∧
          (∀ e ∈ entries, e.Faithful c worker) ∧
          output.lines = entries.map (·.key.display) ∧
          entries.Pairwise (fun a b => a.origin.Precedes b.origin) ∧
          ∀ {τ : Type} [Clock τ] (reader : τ) (now : UInt64) (bound : Option Int)
              (readerPatience : Nat),
            (Clock.read reader).1 = .shows now → c.epoch ≤ now →
            (∀ w ∈ bound, ∃ machine, c.layout.machineOf w = .ok machine) →
            run ⟨c, bound, .decode output.lines⟩ readerPatience reader =
              { lines := entries.map fun e => " ".intercalate [toString e.origin.unixMillis,
                  toString e.origin.machine, toString e.origin.sequence] } := by
  have valid := Given.valid_of_config accepted
  refine ⟨fun worker => lines_eq_nil_of_failure, ?_⟩
  intro worker machine start later known read come output succeeded
  have rules := (Rules.ofConfig_eq_ok_iff c worker ⟨c.layout, machine, c.lag, c.carryOver⟩).mpr
    ⟨valid, known, rfl, rfl, rfl⟩
  have made : output = _ := run_generate rules read come patience count
  cases result : ((freshIssuer ⟨c.layout, machine, c.lag, c.carryOver⟩ c).generateKeys patience
      count.toNat (⟨⟨c.epoch⟩, later⟩ : WallClock σ)).result with
  | error halt =>
    rw [made, result] at succeeded
    cases succeeded
  | ok keys =>
    obtain ⟨length, times, entries, visits, faithful, rfl, order⟩ :=
      exists_entries_of_generateKeys rules result
    have written : output.lines = entries.map (·.key.display) := by
      rw [made, result]
      exact List.map_map
    refine ⟨?_, _, times, entries, rules, visits, faithful, written, order, ?_⟩
    · rw [written, ← length, List.length_map, List.length_map]
    · intro τ _ reader now bound readerPatience shown epoch inRange
      simp only [written, run_decode valid faithful shown epoch inRange, Origin.text_eq]

/-- Text keys of worker 7: at the first poll the wall clock is before the epoch, and at the third
it has fallen back. -/
theorem written_lines_decode_before_epoch :
    ∃ (c : Config) (wall : Script) (lines : List String) (origins : List Origin),
      Given.config { epochMillis := some 1000, asString := some true } = .ok c ∧
      run ⟨c, some 7, .generate 3⟩ 2 wall = { lines } ∧ lines.length = 3 ∧
      origins.Pairwise Origin.Precedes ∧
      run ⟨c, none, .decode lines⟩ 0 wall = { lines := ["1000 7 0", "1002 7 1", "1002 7 2"] } ∧
      origins.map (fun o => " ".intercalate [toString o.unixMillis, toString o.machine,
        toString o.sequence]) = ["1000 7 0", "1002 7 1", "1002 7 2"] := by
  have accepted : Given.config { epochMillis := some 1000, asString := some true } =
    .ok { epoch := 1000, asString := true } := rfl
  have issued : (run ⟨{ epoch := 1000, asString := true }, some 7, .generate 3⟩ 2
      ({ lines := [.shows 1000, .shows 900, .shows 1002, .shows 900, .shows 1002] } :
        Script)).failure = none := rfl
  obtain ⟨length, _, _, entries, _, _, _, _, order, decoded⟩ :=
    (written_lines_decode accepted _ 3 2).2 7 7 1000 _ rfl rfl (by decide) issued
  have read := decoded
    ({ lines := [.shows 1000, .shows 900, .shows 1002, .shows 900, .shows 1002] } : Script)
    1000 none 0 rfl (by decide) (by simp)
  refine ⟨_, { lines := [.shows 1000, .shows 900, .shows 1002, .shows 900, .shows 1002] }, _,
    entries.map (·.origin), accepted, rfl, length, List.pairwise_map.mpr order, rfl, ?_⟩
  rw [List.map_map]
  exact (congrArg Output.lines read).symm

end Invocation
end Tickstamp.CommandLine
