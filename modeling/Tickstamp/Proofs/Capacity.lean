import Tickstamp.Proofs.Issuer.Reachable

/-!
# What a tick holds

The first stamp of a tick has a sequence up to the threshold, whatever the tick
before has left. From there polls at the same reading use up the sequences one by
one, each of them once, and when the last one is gone they are told to wait for
the next tick. So no tick holds less than the sequences above the threshold, and
that one. How many polls come before the next tick is up to the callers.
-/

namespace Tickstamp
namespace Progress

/-- Nothing has been issued at this reading, or at a later one. -/
def Before (p : Progress) (now : UInt64) : Prop :=
  ∀ timestamp sequence, p = .issued timestamp sequence → timestamp < now

/-- The sequence with which the next tick begins. -/
def opening (p : Progress) (l : Layout) (carryOver : CarryOver) : UInt64 :=
  match p with
  | .fresh => 0
  | .issued _ sequence => carryOver.start sequence l.maxSequence

variable {p : Progress} {now : UInt64}

theorem advance_of_before (before : p.Before now) (l : Layout) (carryOver : CarryOver) :
    p.advance now l.maxSequence carryOver = .issue now (p.opening l carryOver) := by
  cases p with
  | fresh => rfl
  | issued timestamp sequence =>
    exact (advance_issued_eq_issue_iff ..).mpr
      ⟨rfl, Or.inr ⟨before timestamp sequence rfl, rfl⟩⟩

theorem opening_le_threshold (p : Progress) (l : Layout) (carryOver : CarryOver) :
    (p.opening l carryOver).toNat ≤ carryOver.threshold l := by
  cases p with
  | fresh => exact Nat.zero_le _
  | issued timestamp sequence => exact carryOver.start_le_threshold l sequence

end Progress
namespace Rules

variable {r : Rules} {p : Progress} {now sequence : UInt64}

theorem respond_of_before (suited : r.Suited) (inside : now ≤ r.layout.maxTimestamp)
    (before : p.Before now) :
    let first := p.opening r.layout r.carryOver
    r.respond p now =
      .ok (.commit (.issued now first) (r.layout.pack ⟨now, r.machine, first⟩)) := by
  have low : p.opening r.layout r.carryOver ≤ r.layout.maxSequence :=
    UInt64.le_iff_toNat_le.mpr (Nat.le_trans (p.opening_le_threshold r.layout r.carryOver)
      (CarryOver.threshold_le suited.carryOver))
  exact (respond_eq_commit_iff ..).mpr
    ⟨_, Progress.advance_of_before before r.layout r.carryOver, ⟨inside, suited.machine, low⟩,
      rfl, rfl⟩

theorem respond_of_room (suited : r.Suited) (inside : now ≤ r.layout.maxTimestamp)
    (room : sequence < r.layout.maxSequence) :
    r.respond (.issued now sequence) now = .ok (.commit (.issued now (sequence + 1))
      (r.layout.pack ⟨now, r.machine, sequence + 1⟩)) := by
  have low : sequence + 1 ≤ r.layout.maxSequence := by
    rw [UInt64.le_iff_toNat_le, toNat_add_one_of_lt room]
    exact UInt64.lt_iff_toNat_lt.mp room
  have issue := (Progress.advance_issued_eq_issue_iff now sequence now r.layout.maxSequence
    r.carryOver now (sequence + 1)).mpr ⟨rfl, Or.inl ⟨rfl, room, rfl⟩⟩
  exact (respond_eq_commit_iff ..).mpr ⟨_, issue, ⟨inside, suited.machine, low⟩, rfl, rfl⟩

/-- The stamps of a tick, from this sequence on. -/
def stampsFrom (r : Rules) (now : UInt64) (first : Nat) : List Stamp :=
  (List.range' first (r.layout.maxSequence.toNat + 1 - first)).map fun sequence =>
    r.layout.pack ⟨now, r.machine, .ofNat sequence⟩

theorem stampsFrom_eq_cons (low : sequence ≤ r.layout.maxSequence) :
    r.stampsFrom now sequence.toNat =
      r.layout.pack ⟨now, r.machine, sequence⟩ :: r.stampsFrom now (sequence.toNat + 1) := by
  have le := UInt64.le_iff_toNat_le.mp low
  have count : r.layout.maxSequence.toNat + 1 - sequence.toNat =
      r.layout.maxSequence.toNat + 1 - (sequence.toNat + 1) + 1 := by omega
  rw [stampsFrom, count, List.range'_succ, List.map_cons, UInt64.ofNat_toNat]
  rfl

theorem map_decode_stampsFrom (suited : r.Suited) (inside : now ≤ r.layout.maxTimestamp)
    (first : Nat) :
    (r.stampsFrom now first).map r.layout.decode =
      (List.range' first (r.layout.maxSequence.toNat + 1 - first)).map fun sequence =>
        ⟨now, r.machine, .ofNat sequence⟩ := by
  rw [stampsFrom, List.map_map]
  apply List.map_congr_left
  intro sequence given
  obtain ⟨above, below⟩ := List.mem_range'_1.mp given
  have word := r.layout.maxSequence.toNat_lt
  have same : (UInt64.ofNat sequence).toNat = sequence := by
    rw [UInt64.toNat_ofNat', Nat.mod_eq_of_lt (by omega)]
  refine Layout.decode_pack ⟨inside, suited.machine, ?_⟩
  rw [UInt64.le_iff_toNat_le, same]
  omega

/-- In a tick that is used up, every poll is told to wait for the next. -/
theorem answers_of_usedUp (r : Rules) (now : UInt64) (more : Nat) :
    r.answers (.issued now r.layout.maxSequence) (List.replicate more now) =
      List.replicate more (.pending 1) := by
  induction more with
  | zero => rfl
  | succ more ih =>
    rw [List.replicate_succ, answers, respond_of_usedUp]
    exact congrArg (Answer.pending 1 :: ·) ih

theorem answers_of_same (suited : r.Suited) (inside : now ≤ r.layout.maxTimestamp) {left : Nat}
    (room : sequence.toNat + left = r.layout.maxSequence.toNat) (more : Nat) :
    r.answers (.issued now sequence) (List.replicate (left + more) now) =
      (r.stampsFrom now (sequence.toNat + 1)).map .ready ++ List.replicate more (.pending 1) := by
  induction left generalizing sequence with
  | zero =>
    obtain rfl := UInt64.toNat_inj.mp room
    have nothing : r.stampsFrom now (r.layout.maxSequence.toNat + 1) = [] := by
      rw [stampsFrom, Nat.sub_self]
      rfl
    rw [Nat.zero_add, answers_of_usedUp, nothing]
    rfl
  | succ left ih =>
    have less : sequence < r.layout.maxSequence := UInt64.lt_iff_toNat_lt.mpr (by omega)
    have next := toNat_add_one_of_lt less
    have low : sequence + 1 ≤ r.layout.maxSequence := UInt64.le_iff_toNat_le.mpr (by omega)
    rw [Nat.succ_add, List.replicate_succ, answers, respond_of_room suited inside less, ← next,
      stampsFrom_eq_cons low]
    exact congrArg (Answer.ready _ :: ·) (ih (by omega))

/-- Polls at a reading in a new tick use up its sequences from the first one on. -/
theorem answers_of_before (suited : r.Suited) (inside : now ≤ r.layout.maxTimestamp)
    (before : p.Before now) (more : Nat) :
    let stamps := r.stampsFrom now (p.opening r.layout r.carryOver).toNat
    r.answers p (List.replicate (stamps.length + more) now) =
      stamps.map .ready ++ List.replicate more (.pending 1) := by
  have le := Nat.le_trans (p.opening_le_threshold r.layout r.carryOver)
    (CarryOver.threshold_le suited.carryOver)
  have first := respond_of_before suited inside before
  generalize p.opening r.layout r.carryOver = opening at le first
  have rest : (r.stampsFrom now (opening.toNat + 1)).length =
      r.layout.maxSequence.toNat - opening.toNat := by
    rw [stampsFrom, List.length_map, List.length_range']
    omega
  have onward := answers_of_same suited inside (Nat.add_sub_cancel' le) more
  rw [← rest] at onward
  simp only [stampsFrom_eq_cons (UInt64.le_iff_toNat_le.mpr le), List.length_cons, Nat.succ_add,
    List.replicate_succ, answers, first]
  exact congrArg (Answer.ready _ :: ·) onward

end Rules

/-- Polls at one reading, in a tick in which nothing has been issued so far, get these stamps. -/
structure FillsTick (c : Config) (machine : UInt64) (p : Progress) (now : UInt64)
    (answers : List UInt64 → List Answer) (first : Nat) (stamps : List Stamp) : Prop where
  low : first ≤ c.carryOver.threshold c.layout
  zero : p = .fresh → first = 0
  fields : stamps.map c.layout.decode =
    (List.range' first (c.layout.maxSequence.toNat + 1 - first)).map fun sequence =>
      ⟨now, machine, .ofNat sequence⟩
  /-- However many polls are made after these stamps, they are told to wait for the next tick. -/
  polls : ∀ more, answers (List.replicate (stamps.length + more) now) =
    stamps.map .ready ++ List.replicate more (.pending 1)
  capacity : c.layout.maxSequence.toNat - c.carryOver.threshold c.layout + 1 ≤ stamps.length
  half : c.carryOver = .half → 2 ^ c.layout.sequenceBits < 2 * stamps.length

/-- A generator in good order fills a new tick, if it answers as its rules do. -/
theorem LockedGenerator.Stands.fillsTick {c : Config} {g : LockedGenerator} (stands : Stands c g)
    {now : UInt64} (inside : now ≤ c.layout.maxTimestamp) (before : g.progress.Before now) :
    ∃ first stamps, FillsTick c g.rules.machine g.progress now
      (g.rules.answers g.progress) first stamps := by
  have suited := stands.suited
  have low := g.progress.opening_le_threshold c.layout c.carryOver
  have validated := CarryOver.threshold_le suited.carryOver
  rw [← stands.layout] at inside
  have fields := Rules.map_decode_stampsFrom suited inside
    (g.progress.opening g.rules.layout g.rules.carryOver).toNat
  have polls := Rules.answers_of_before suited inside before
  rw [stands.layout, stands.carryOver] at validated
  simp only [stands.layout, stands.carryOver] at fields polls
  have length := congrArg List.length fields
  rw [List.length_map, List.length_map, List.length_range'] at length
  refine ⟨_, _, low, ?_, fields, polls, ?_, ?_⟩
  · intro fresh
    rw [fresh]
    rfl
  · omega
  · intro half
    rw [half, CarryOver.threshold] at low
    rw [length, c.layout.toNat_maxSequence, half, c.layout.pow_sequenceBits]
    have positive := Nat.two_pow_pos (c.layout.sequenceBits - 1)
    omega

/-- In whatever state a generator has come to a tick, the first poll gets a sequence of at most the
threshold, and zero if it is the first poll of all; the polls that follow at the same reading get
the sequences after it, one by one and up to the last, and then all are told to wait for the next
tick. So no tick holds fewer stamps than there are sequences from the threshold on, and more than
half of all sequences if the lower half is carried over. -/
theorem ticks_filled (c : Config) :
    (∀ g, LockedGenerator.Reachable c g → ∀ now ≤ c.layout.maxTimestamp,
      g.progress.Before now → ∃ first stamps,
        FillsTick c g.rules.machine g.progress now (fun readings => g.answers (readings.map .shows))
          first stamps) ∧
    ∀ w, WordGenerator.Reachable c w → ∀ now ≤ c.layout.maxTimestamp,
      w.progress.Before now → ∃ first stamps,
        FillsTick c w.rules.machine w.progress now (fun readings => w.answers (readings.map .shows))
          first stamps := by
  constructor
  · intro g reached now inside before
    have stands := reached.stands
    simp only [LockedGenerator.answers_shows stands.sound]
    exact stands.fillsTick inside before
  · intro w reached now inside before
    obtain ⟨g, stands, mirrors⟩ := reached.mirrors
    have present : w.progress = g.progress := mirrors.unpack_word
    rw [present] at before ⊢
    simp only [mirrors.answers_shows, mirrors.rules]
    exact stands.fillsTick inside before

/-- The tick after one that ended below the last sequence, which is the threshold; the tick after
another worker has taken over; and the first tick of all, on a word. -/
theorem ticks_filled_from_threshold :
    (∃ g, LockedGenerator.Reachable { carryOver := .upTo 4095 } g ∧
      g.answers [.shows 7, .shows 7, .shows 7] =
        [.ready ⟨29368318⟩, .ready ⟨29368319⟩, .pending 1] ∧
      ∃ first stamps, FillsTick { carryOver := .upTo 4095 } 1 (.issued 5 4093) 7
        (fun readings => g.answers (readings.map .shows)) first stamps) ∧
    (∃ g, LockedGenerator.Reachable {} g ∧ g.progress = .issued 5 4095 ∧
      ∃ first stamps, FillsTick {} 2 (.issued 5 4095) 7
        (fun readings => g.answers (readings.map .shows)) first stamps ∧
          4096 < 2 * stamps.length) ∧
    ∃ w, WordGenerator.Reachable {} w ∧
      ∃ first stamps, FillsTick {} 1 .fresh 0
        (fun readings => w.answers (readings.map .shows)) first stamps ∧ first = 0 := by
  refine ⟨?_, ?_, ?_⟩
  · have begun : LockedGenerator.startAt { carryOver := .upTo 4095 } 1 (.issued 5 4093) = .ok _ :=
      rfl
    have reached := LockedGenerator.Reachable.polled begun [] rfl
    have before : (Progress.issued 5 4093).Before 7 := by
      rintro _ _ ⟨⟩
      decide
    exact ⟨_, reached, rfl, (ticks_filled _).1 _ reached 7 (by decide) before⟩
  · have made : Issuer.ofConfig {} = .ok { config := {} } := rfl
    have course := ((Issuer.reaches_bind { config := {} } 1).poll (.shows 5)).bind 2
    have reached := LockedGenerator.Reachable.bound made course rfl rfl
    have before : (Progress.issued 5 4095).Before 7 := by
      rintro _ _ ⟨⟩
      decide
    obtain ⟨first, stamps, fills⟩ := (ticks_filled {}).1 _ reached 7 (by decide) before
    exact ⟨_, reached, rfl, first, stamps, fills, fills.half rfl⟩
  · have begun : WordGenerator.startAt {} 1 .fresh = .ok _ := rfl
    have reached := WordGenerator.Reachable.polled begun []
    have before : Progress.fresh.Before 0 := by
      rintro _ _ ⟨⟩
    obtain ⟨first, stamps, fills⟩ := (ticks_filled {}).2 _ reached 0 (by decide) before
    exact ⟨_, reached, first, stamps, fills, fills.zero rfl⟩

end Tickstamp
