import Tickstamp.CommandLine.Invocation

/-!
# From reading to reading

A program that looks at the clock itself goes from phase to phase. It ends with
the output of a run that follows the clock, provided that this has the patience
for all polls, and with nothing else. How long a pause lasts is not considered.
-/

namespace Tickstamp
namespace Call

variable {γ σ : Type} (poll : Poll γ σ)

/-- A batch in the middle of a call, for which only `left` polls may still be made. -/
def batchFrom (left patience : Nat) (done : List Stamp) (more : Nat) (g : γ) (clock : σ) :
    Batch γ σ :=
  let one := next poll idle left g clock
  match one.result with
  | .ok stamp => batchAfter poll patience (stamp :: done) more one.generator one.clock
  | .error halt => ⟨done.reverse, some halt, one.generator, one.clock⟩

end Call
namespace CommandLine

open Call (batchFrom)

variable {σ : Type} [Clock σ]

/-- The phase after so many more readings of a clock. -/
def Phase.follow : (readings : Nat) → Phase → σ → Phase
  | 0, s, _ => s
  | _ + 1, .finished output, _ => .finished output
  | readings + 1, .waits _ j, wall =>
    follow readings (j.poll (Clock.read wall).1) (Clock.read wall).2

theorem Phase.follow_finished (readings : Nat) (output : Output) (wall : σ) :
    follow readings (.finished output) wall = .finished output := by
  cases readings <;> rfl

/-! ## Jobs -/

namespace Job

variable {j : Job} {g : LockedGenerator}

/-- What a job comes to on a clock if `left` polls may be made for the next key. -/
def outcome (j : Job) (g : LockedGenerator) (left patience : Nat) (wall : σ) : Output :=
  Invocation.issued ((batchFrom LockedGenerator.poll left patience j.done (j.left - 1) g
    ({ clock := j.clock, wall } : WallClock σ)).result.bind (·.mapM j.issuer.keyOf))

theorem outcome_zero (j : Job) (g : LockedGenerator) (patience : Nat) (wall : σ) :
    (j.outcome g 0 patience wall).failure = some (.notIssued .outOfPatience) :=
  rfl

/-- A job that is left of another: it has a poll less for its next key, or a key less to issue. -/
structure Follows (j' : Job) (g' : LockedGenerator) (j : Job) (left left' patience : Nat) :
    Prop where
  bound : j'.issuer.bound = some g'
  unfinished : 0 < j'.left
  less : left' = left ∧ j'.left = j.left ∨ left' = patience ∧ j'.left < j.left

/-- One poll ends a job with what it comes to, or leaves a job that comes to the same. -/
theorem outcome_succ (bound : j.issuer.bound = some g) (unfinished : 0 < j.left)
    (left patience : Nat) (wall : σ) :
    j.poll (Clock.read wall).1 = .finished (j.outcome g (left + 1) patience wall) ∨
    ∃ millis j' g' left', j.poll (Clock.read wall).1 = .waits millis j' ∧
      Follows j' g' j left left' patience ∧
      j.outcome g (left + 1) patience wall = j'.outcome g' left' patience (Clock.read wall).2 := by
  obtain ⟨⟨config, _⟩, clock, count, done⟩ := j
  obtain rfl : _ = some g := bound
  obtain ⟨more, rfl⟩ : ∃ more, count = more + 1 := Nat.exists_eq_add_one.mpr unfinished
  cases poisoned : g.poisoned with
  | true =>
    refine Or.inl ?_
    simp only [poll, Issuer.offer, outcome, batchFrom, Call.next, LockedGenerator.poll,
      LockedGenerator.attempt, poisoned, if_true]
    rfl
  | false =>
    simp only [poll, Issuer.offer, outcome, batchFrom, Call.next, LockedGenerator.poll,
      LockedGenerator.attempt, poisoned, Bool.false_eq_true, if_false, WallClock.read_eq]
    rcases g.offer (clock.onWall (Clock.read wall).1) with ⟨answer, g'⟩
    cases answer with
    | refused fault => exact Or.inl rfl
    | abandoned => exact Or.inl rfl
    | pending millis =>
      exact Or.inr ⟨millis, _, g', left, rfl, ⟨rfl, unfinished, Or.inl ⟨rfl, rfl⟩⟩, rfl⟩
    | ready stamp =>
      cases more with
      | zero => exact Or.inl rfl
      | succ more =>
        exact Or.inr ⟨0, _, g', patience, rfl,
          ⟨rfl, Nat.succ_pos more, Or.inr ⟨rfl, Nat.lt_succ_self _⟩⟩, rfl⟩

/-- What the phases of a job end with is what it comes to, if there are as many polls for every key
as there are readings. -/
theorem outcome_of_follow {readings left patience : Nat} {millis : UInt64} {wall : σ}
    {output : Output} (bound : j.issuer.bound = some g) (unfinished : 0 < j.left)
    (now : readings ≤ left) (enough : readings ≤ patience)
    (ended : Phase.follow readings (.waits millis j) wall = .finished output) :
    j.outcome g left patience wall = output := by
  induction readings generalizing j g left millis wall with
  | zero => cases ended
  | succ readings ih =>
    obtain ⟨left, rfl⟩ : ∃ more, left = more + 1 := Nat.exists_eq_add_one.mpr (by omega)
    rw [Phase.follow] at ended
    rcases outcome_succ bound unfinished left patience wall with
      finished | ⟨_, j', g', left', next, rest, same⟩
    · rw [finished, Phase.follow_finished] at ended
      exact Phase.finished.inj ended
    · rw [next] at ended
      rw [same]
      refine ih rest.bound rest.unfinished ?_ (by omega) ended
      rcases rest.less with ⟨rfl, _⟩ | ⟨rfl, _⟩ <;> omega

/-- The phases of a job end with what it comes to, unless it runs out of patience. -/
theorem exists_follow {left patience : Nat} {millis : UInt64} {wall : σ}
    (bound : j.issuer.bound = some g) (unfinished : 0 < j.left)
    (patient : (j.outcome g left patience wall).failure ≠ some (.notIssued .outOfPatience)) :
    ∃ readings, Phase.follow readings (.waits millis j) wall =
      .finished (j.outcome g left patience wall) := by
  -- a key less or, for the same key, a poll less
  induction keys : j.left using Nat.strongRecOn generalizing j g left millis wall with
  | ind keys fewerKeys =>
    induction left generalizing j g millis wall with
    | zero => exact absurd (j.outcome_zero g patience wall) patient
    | succ left fewerPolls =>
      rcases outcome_succ bound unfinished left patience wall with
        finished | ⟨millis', j', g', left', next, rest, same⟩
      · exact ⟨1, finished⟩
      · rw [same] at patient ⊢
        have ended : ∃ readings, Phase.follow readings (.waits millis' j') (Clock.read wall).2 =
            .finished (j'.outcome g' left' patience (Clock.read wall).2) := by
          rcases rest.less with ⟨rfl, equal⟩ | ⟨rfl, less⟩
          · exact fewerPolls rest.bound rest.unfinished patient (equal.trans keys)
          · exact fewerKeys _ (keys ▸ less) rest.bound rest.unfinished patient rfl
        obtain ⟨readings, ended⟩ := ended
        exact ⟨readings + 1, by rw [Phase.follow, next, ended]⟩

end Job

/-! ## Invocations -/

namespace Invocation

/-- An invocation that waits for its first poll is going to issue keys by a bound worker. -/
theorem start_cases (i : Invocation) (reading : Reading) :
    (∃ output, i.start reading = .finished output) ∨ ∃ j g, i.start reading = .waits 0 j ∧
      j.issuer.bound = some g ∧ 0 < j.left ∧ j.done = [] := by
  rw [start.eq_def]
  split
  · exact Or.inl ⟨_, rfl⟩
  · split
    · exact Or.inl ⟨_, rfl⟩
    · next k clock _ =>
      split
      · exact Or.inl ⟨_, rfl⟩
      · next count _ =>
        rw [Issuer.worker]
        cases bound : k.bound with
        | none => exact Or.inl ⟨_, rfl⟩
        | some g =>
          simp only [Job.phase]
          by_cases none : count.toNat = 0
          · rw [if_pos none]
            exact Or.inl ⟨_, rfl⟩
          · rw [if_neg none]
            exact Or.inr ⟨_, g, rfl, bound, Nat.pos_of_ne_zero none, rfl⟩

/-- Following a clock, an invocation does what its first phase says. -/
theorem run_of_finished {i : Invocation} {output : Output} {wall : σ}
    (started : i.start (Clock.read wall).1 = .finished output) (patience : Nat) :
    run i patience wall = output := by
  simp only [run, started]

theorem run_of_waits {i : Invocation} {j : Job} {g : LockedGenerator} {millis : UInt64} {wall : σ}
    (started : i.start (Clock.read wall).1 = .waits millis j) (bound : j.issuer.bound = some g)
    (unfinished : 0 < j.left) (none : j.done = []) (patience : Nat) :
    run i patience wall = j.outcome g patience patience (Clock.read wall).2 := by
  obtain ⟨k, clock, count, done⟩ := j
  obtain ⟨more, rfl⟩ : ∃ more, count = more + 1 := Nat.exists_eq_add_one.mpr unfinished
  obtain rfl : done = [] := none
  replace bound : k.bound = some g := bound
  simp only [run, started, Issuer.generateKeys, Issuer.generateBatch, bound]
  rfl

variable {i : Invocation} {wall later : σ} {now : UInt64}

theorem run_of_breakdown (read : Clock.read wall = (.breaksDown, later)) (patience : Nat) :
    run i patience wall = { lines := [], failure := some (.notIssued .abandoned) } := by
  rw [run, read]
  rfl

theorem run_of_failure {failure : Failure} (read : Clock.read wall = (.shows now, later))
    (refused : i.issuer now = .error failure) (patience : Nat) :
    run i patience wall = { lines := [], failure := some failure } := by
  refine run_of_finished ?_ patience
  rw [read, start, refused]

theorem run_decode_of_issuer {k : Issuer} {clock : SystemClock} {ids : List String}
    (read : Clock.read wall = (.shows now, later)) (made : i.issuer now = .ok (k, clock))
    (asked : i.command = .decode ids) (patience : Nat) :
    run i patience wall = decodeAll k ids := by
  refine run_of_finished ?_ patience
  simp only [read, start, made, asked]

theorem run_generate_of_issuer {k : Issuer} {clock : SystemClock} {count : UInt64}
    (read : Clock.read wall = (.shows now, later)) (made : i.issuer now = .ok (k, clock))
    (asked : i.command = .generate count) (patience : Nat) :
    run i patience wall = issued
      (k.generateKeys patience count.toNat ({ clock, wall := later } : WallClock σ)).result := by
  simp only [run, read, start, made, asked, Issuer.worker]
  cases bound : k.bound with
  | none =>
    simp only [Issuer.generateKeys, Issuer.generateBatch, bound]
    rfl
  | some g =>
    simp only [Job.phase]
    by_cases none : count.toNat = 0
    · rw [if_pos none, none]
      simp only [Issuer.generateKeys, Issuer.generateBatch, bound]
      rfl
    · rw [if_neg none]

/-- The phases of an invocation end with an output on some readings of a clock exactly if following
that clock, with enough patience, ends with the same. -/
theorem follow_iff_run (output : Output)
    (patient : output.failure ≠ some (.notIssued .outOfPatience)) :
    (∃ readings,
      (i.start (Clock.read wall).1).follow readings (Clock.read wall).2 = .finished output) ↔
      ∃ enough, ∀ patience ≥ enough, run i patience wall = output := by
  rcases i.start_cases (Clock.read wall).1 with
    ⟨ended, started⟩ | ⟨j, g, started, bound, unfinished, none⟩
  · rw [started]
    constructor
    · rintro ⟨readings, ended⟩
      rw [Phase.follow_finished] at ended
      exact ⟨0, fun patience _ => Phase.finished.inj ended ▸ run_of_finished started patience⟩
    · rintro ⟨enough, same⟩
      have ended := run_of_finished started enough
      exact ⟨0, congrArg Phase.finished (ended.symm.trans (same _ (Nat.le_refl _)))⟩
  · have whole := run_of_waits started bound unfinished none
    rw [started]
    constructor
    · rintro ⟨readings, ended⟩
      refine ⟨readings, fun patience enough => ?_⟩
      rw [whole]
      exact Job.outcome_of_follow bound unfinished enough enough ended
    · rintro ⟨enough, same⟩
      have last := whole enough
      rw [same enough (Nat.le_refl _)] at last
      rw [last] at patient ⊢
      exact Job.exists_follow bound unfinished patient

end Invocation
end CommandLine
end Tickstamp
