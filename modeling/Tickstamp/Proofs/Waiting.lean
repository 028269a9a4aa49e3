import Tickstamp.Proofs.Issuer.Standing

/-!
# How long a call waits

A wait that is heeded brings the clock to the tick of the last stamp, or past it
if that tick is used up. So a call is told to wait twice at the most: for a
clock that is behind, and for a tick without sequences. Neither wait could be
shorter. The back-off may let more time pass than it was told, but not less; a
clock that breaks down during the call is not considered, nor are polls that
overlap.
-/

namespace Tickstamp

/-- How often a call can still be told to wait, if its clock reads no less than this. -/
def Progress.waitsFrom (p : Progress) (earliest : Nat) : Nat :=
  match p with
  | .fresh => 0
  | .issued timestamp _ =>
    if earliest < timestamp.toNat then 2
    else if earliest = timestamp.toNat then 1
    else 0

theorem Progress.waitsFrom_le_two (p : Progress) (earliest : Nat) : p.waitsFrom earliest ≤ 2 := by
  cases p with
  | fresh => exact Nat.zero_le 2
  | issued timestamp sequence =>
    rw [waitsFrom]
    split
    · exact Nat.le_refl 2
    · split <;> omega

namespace Rules

variable {r : Rules} {p : Progress} {poll : UInt64 → Answer × Progress}

theorem Settles.answer_cases (h : r.Settles p poll) (now : UInt64) :
    (p.OpenAt r.layout now ∧ ∃ stamp, (poll now).1 = .ready stamp) ∨
      (r.layout.maxTimestamp < now ∧
        (poll now).1 = .refused (.fieldTooLarge .timestamp now r.layout.maxTimestamp)) ∨
      (∃ timestamp sequence, p = .issued timestamp sequence ∧ now < timestamp ∧
        ((poll now).1 = .pending (timestamp - now) ∨
          (poll now).1 = .refused (.clockBehind (timestamp - now)))) ∨
      (p = .issued now r.layout.maxSequence ∧ (poll now).1 = .pending 1) := by
  by_cases beyond : r.layout.maxTimestamp < now
  · exact Or.inr (Or.inl ⟨beyond, by rw [h.beyond now beyond]⟩)
  · have inside := UInt64.not_lt.mp beyond
    by_cases isOpen : p.OpenAt r.layout now
    · obtain ⟨_, stamp, _, _, ready⟩ := h.ready now inside isOpen
      exact Or.inl ⟨isOpen, stamp, by rw [ready]⟩
    · rcases Progress.not_openAt isOpen with ⟨timestamp, sequence, last, behind⟩ | usedUp
      · refine Or.inr (Or.inr (Or.inl ⟨timestamp, sequence, last, behind, ?_⟩))
        obtain ⟨tolerated, excessive⟩ := h.behind now timestamp sequence inside last behind
        by_cases tolerates : r.lag.Tolerates (timestamp - now)
        · exact Or.inl (by rw [tolerated tolerates])
        · exact Or.inr (by rw [excessive tolerates])
      · exact Or.inr (Or.inr (Or.inr ⟨usedUp, by rw [h.usedUp now inside usedUp]⟩))

/-- After a wait that is heeded, a call can be told to wait less often than before; and a clock can
be too far behind only before the first wait. -/
theorem Settles.wait_or_end (h : r.Settles p poll) {earliest : Nat} {now : UInt64}
    (reached : earliest ≤ now.toNat) :
    (∃ stamp, (poll now).1 = .ready stamp) ∨
      (r.layout.maxTimestamp < now ∧
        (poll now).1 = .refused (.fieldTooLarge .timestamp now r.layout.maxTimestamp)) ∨
      (p.waitsFrom earliest = 2 ∧ ∃ drift, (poll now).1 = .refused (.clockBehind drift)) ∨
      ∃ millis, (poll now).1 = .pending millis ∧
        p.waitsFrom (now.toNat + millis.toNat) < p.waitsFrom earliest := by
  rcases h.answer_cases now with
    ⟨_, ready⟩ | beyond | ⟨timestamp, sequence, rfl, behind, answer⟩ | ⟨rfl, answer⟩
  · exact Or.inl ready
  · exact Or.inr (Or.inl beyond)
  · have less := UInt64.lt_iff_toNat_lt.mp behind
    have drift := UInt64.toNat_sub_of_le _ _ (UInt64.le_of_lt behind)
    have before : (Progress.issued timestamp sequence).waitsFrom earliest = 2 :=
      if_pos (Nat.lt_of_le_of_lt reached less)
    rcases answer with pending | refused
    · refine Or.inr (Or.inr (Or.inr ⟨_, pending, ?_⟩))
      have caughtUp : now.toNat + (timestamp - now).toNat = timestamp.toNat := by omega
      rw [before, caughtUp, Progress.waitsFrom, if_neg (Nat.lt_irrefl _), if_pos rfl]
      exact Nat.one_lt_two
    · exact Or.inr (Or.inr (Or.inl ⟨before, _, refused⟩))
  · refine Or.inr (Or.inr (Or.inr ⟨1, answer, ?_⟩))
    have next : now.toNat + (1 : UInt64).toNat = now.toNat + 1 := rfl
    have after : (Progress.issued now r.layout.maxSequence).waitsFrom (now.toNat + 1) = 0 := by
      rw [Progress.waitsFrom, if_neg (by omega), if_neg (by omega)]
    rw [next, after, Progress.waitsFrom]
    split
    · exact Nat.two_pos
    · rw [if_pos (by omega)]
      exact Nat.one_pos

/-- No reading before the end of a wait would have got a stamp. -/
theorem Settles.wait_tight (h : r.Settles p poll) {now millis later : UInt64}
    (told : (poll now).1 = .pending millis) (le : now ≤ later)
    (early : later.toNat < now.toNat + millis.toNat) (stamp : Stamp) :
    (poll later).1 ≠ .ready stamp := by
  intro ready
  have isOpen : p.OpenAt r.layout later := by
    rcases h.answer_cases later with
      ⟨isOpen, _⟩ | ⟨_, refused⟩ | ⟨_, _, _, _, pending | refused⟩ | ⟨_, pending⟩
    · exact isOpen
    · cases ready.symm.trans refused
    · cases ready.symm.trans pending
    · cases ready.symm.trans refused
    · cases ready.symm.trans pending
  rcases h.answer_cases now with
    ⟨_, _, other⟩ | ⟨_, other⟩ | ⟨timestamp, sequence, last, behind, pending | other⟩ |
    ⟨usedUp, pending⟩
  · cases told.symm.trans other
  · cases told.symm.trans other
  · -- the wait is for the tick of the last stamp, which the later reading has not reached
    cases told.symm.trans pending
    have less := UInt64.lt_iff_toNat_lt.mp behind
    rw [UInt64.toNat_sub_of_le _ _ (UInt64.le_of_lt behind)] at early
    exact (isOpen timestamp sequence last).1 (UInt64.lt_iff_toNat_lt.mpr (by omega))
  · cases told.symm.trans other
  · -- the wait is for the next tick, so the later reading is still in this one
    cases told.symm.trans pending
    have one : (1 : UInt64).toNat = 1 := rfl
    have reached := UInt64.le_iff_toNat_le.mp le
    have same : later = now := UInt64.toNat_inj.mp (by omega)
    exact (isOpen now _ usedUp).2 ⟨same, rfl⟩

end Rules
namespace Call

variable {γ σ : Type} [Clock σ]

/-- The clock works while a call is under way, and heeds its waits: after each of them it reads no
less than before and the wait together. -/
def Heeds (poll : Poll γ σ) (backOff : UInt64 → σ → σ) :
    (polls : Nat) → (earliest : Nat) → γ → σ → Prop
  | 0, _, _, _ => True
  | polls + 1, earliest, g, clock =>
    ∃ now, (Clock.read clock).1 = .shows now ∧ earliest ≤ now.toNat ∧
      ∀ millis, (poll g clock).1 = .pending millis →
        Heeds poll backOff polls (now.toNat + millis.toNat) (poll g clock).2.1
          (backOff millis (poll g clock).2.2)

/-- A generator that answers the readings of a clock like this, and that a wait leaves alone. -/
structure AnswersLike (poll : Poll γ σ) (g : γ) (answer : UInt64 → Answer) : Prop where
  answers : ∀ clock now, (Clock.read clock).1 = .shows now → (poll g clock).1 = answer now
  waits : ∀ clock now millis, (Clock.read clock).1 = .shows now →
    (poll g clock).1 = .pending millis → (poll g clock).2.1 = g

/-- A call that ends with a stamp, or because its clock has come to the end of the layout. -/
def Outcome.Conclusive (l : Layout) (one : Outcome γ σ) : Prop :=
  (∃ stamp, one.result = .ok stamp) ∨
    ∃ now, l.maxTimestamp < now ∧
      one.result = .error (.refused (.fieldTooLarge .timestamp now l.maxTimestamp))

theorem next_of_heeds {r : Rules} {p : Progress} {pollAt : UInt64 → Answer × Progress}
    (settles : r.Settles p pollAt) {poll : Poll γ σ} {g : γ}
    (like : AnswersLike poll g fun now => (pollAt now).1) {backOff : UInt64 → σ → σ}
    {patience earliest : Nat} {clock : σ} (patient : p.waitsFrom earliest < patience)
    (heeds : Heeds poll backOff patience earliest g clock) :
    (next poll backOff patience g clock).waits.length ≤ p.waitsFrom earliest ∧
      ((next poll backOff patience g clock).Conclusive r.layout ∨
        p.waitsFrom earliest = 2 ∧ (next poll backOff patience g clock).waits = [] ∧
          ∃ drift, (poll g clock).1 = .refused (.clockBehind drift) ∧
            (next poll backOff patience g clock).result =
              .error (.refused (.clockBehind drift))) := by
  induction patience generalizing earliest clock with
  | zero => exact absurd patient (Nat.not_lt_zero _)
  | succ patience ih =>
    obtain ⟨now, shown, reached, onward⟩ := heeds
    have answer := like.answers clock now shown
    have still := like.waits clock now
    rw [next]
    rcases asked : poll g clock with ⟨given, g', clock'⟩
    simp only [asked] at answer still onward
    rcases settles.wait_or_end reached with
      ⟨stamp, ready⟩ | ⟨beyond, refused⟩ | ⟨first, drift, refused⟩ | ⟨millis, pending, fewer⟩
    · obtain rfl := answer.trans ready
      exact ⟨Nat.zero_le _, Or.inl (Or.inl ⟨stamp, rfl⟩)⟩
    · obtain rfl := answer.trans refused
      exact ⟨Nat.zero_le _, Or.inl (Or.inr ⟨now, beyond, rfl⟩)⟩
    · obtain rfl := answer.trans refused
      exact ⟨Nat.zero_le _, Or.inr ⟨first, rfl, drift, rfl, rfl⟩⟩
    · obtain rfl := answer.trans pending
      obtain rfl := still millis shown rfl
      obtain ⟨length, ended⟩ := ih (by omega) (onward millis rfl)
      refine ⟨Nat.le_trans (Nat.succ_le_succ length) fewer, Or.inl ?_⟩
      rcases ended with conclusive | ⟨again, _⟩
      · exact conclusive
      · -- a second wait for a clock that is behind is out of the question
        have most := p.waitsFrom_le_two earliest
        omega

/-- Calls of this generator end soon if their waits are heeded, and it asks for no wait that could
be shorter. -/
structure Prompt (l : Layout) (poll : ∀ {σ : Type} [Clock σ], Poll γ σ) (g : γ)
    (answer : UInt64 → Answer) : Prop where
  /-- There are at most two waits. Only the first poll can blame the clock for being behind. -/
  brief : ∀ {σ : Type} [Clock σ] (backOff : UInt64 → σ → σ) (clock : σ) (patience : Nat),
    2 < patience → Heeds poll backOff patience 0 g clock →
      let one := next poll backOff patience g clock
      one.waits.length ≤ 2 ∧
        (one.Conclusive l ∨ one.waits = [] ∧ ∃ drift,
          (poll g clock).1 = .refused (.clockBehind drift) ∧
            one.result = .error (.refused (.clockBehind drift)))
  /-- Before the end of a wait the generator has no stamp. -/
  tight : ∀ now millis later stamp, answer now = .pending millis → now ≤ later →
    later.toNat < now.toNat + millis.toNat → answer later ≠ .ready stamp

theorem prompt_of_settles {r : Rules} {p : Progress} {pollAt : UInt64 → Answer × Progress}
    (settles : r.Settles p pollAt) {poll : ∀ {σ : Type} [Clock σ], Poll γ σ} {g : γ}
    (like : ∀ {σ : Type} [Clock σ], AnswersLike (poll (σ := σ)) g fun now => (pollAt now).1) :
    Prompt r.layout poll g fun now => (pollAt now).1 := by
  constructor
  case brief =>
    intro σ _ backOff clock patience patient heeds
    have most := p.waitsFrom_le_two 0
    obtain ⟨length, ended⟩ := next_of_heeds settles like (by omega) heeds
    refine ⟨Nat.le_trans length most, ?_⟩
    rcases ended with conclusive | ⟨_, first⟩
    · exact Or.inl conclusive
    · exact Or.inr first
  case tight =>
    intro now millis later stamp told le early
    exact settles.wait_tight told le early stamp

end Call

open Call (AnswersLike Prompt)

namespace LockedGenerator

theorem answersLike {g : LockedGenerator} (sound : g.poisoned = false) {σ : Type} [Clock σ] :
    AnswersLike (poll (σ := σ)) g fun now => (g.pollAt now).1 := by
  have polled (clock : σ) {now : UInt64} (shown : (Clock.read clock).1 = .shows now) :
      (g.poll clock).1 = (g.attempt (.shows now)).1 ∧
        (g.poll clock).2.1 = (g.attempt (.shows now)).2 := by
    simp [poll, attempt, sound, shown]
  constructor
  · intro clock now shown
    exact (polled clock shown).1
  · intro clock now millis shown told
    obtain ⟨answer, after⟩ := polled clock shown
    rw [after]
    refine g.attempt_still now ?_
    rw [← answer, told]
    rfl

theorem prompt_after {c : Config} {worker : Int} {start : Progress} {g : LockedGenerator}
    (begun : startAt c worker start = .ok g) (readings : List UInt64) :
    Prompt c.layout poll (g.after (readings.map .shows)) fun now =>
      ((g.after (readings.map .shows)).pollAt now).1 := by
  obtain ⟨r, accepted, within, rfl⟩ := (startAt_eq_ok_iff ..).mp begun
  have mirrors : (WordGenerator.resume r start).Mirrors ⟨r, start, false⟩ := ⟨rfl, within, rfl⟩
  have reached := (mirrors.history readings).2
  have rules : r = _ := (after_rules ⟨r, start, false⟩ (readings.map .shows)).symm
  rw [rules] at accepted
  rw [← Rules.layout_eq accepted]
  exact Call.prompt_of_settles
    (settles (Rules.suited_of_ofConfig accepted) reached.within reached.sound)
    (answersLike reached.sound)

end LockedGenerator
namespace WordGenerator

theorem answersLike (w : WordGenerator) {σ : Type} [Clock σ] :
    AnswersLike (poll (σ := σ)) w fun now => (w.pollAt now).1 := by
  have polled (clock : σ) {now : UInt64} (shown : (Clock.read clock).1 = .shows now) :
      (w.poll clock).1 = (w.offer (.shows now)).1 ∧
        (w.poll clock).2.1 = (w.offer (.shows now)).2 := by
    simp [poll, shown]
  constructor
  · intro clock now shown
    exact (polled clock shown).1
  · intro clock now millis shown told
    obtain ⟨answer, after⟩ := polled clock shown
    rw [after]
    refine w.offer_still now ?_
    rw [← answer, told]
    rfl

theorem prompt_after {c : Config} {worker : Int} {start : Progress} {w : WordGenerator}
    (begun : startAt c worker start = .ok w) (readings : List Reading) :
    Prompt c.layout poll (w.after readings) fun now => ((w.after readings).pollAt now).1 := by
  obtain ⟨g, locked, mirrors⟩ := mirrors_of_startAt begun
  obtain ⟨g', rules, reached⟩ := mirrors.after readings
  have accepted := LockedGenerator.accepted_of_startAt locked
  rw [← rules] at accepted
  have settled := reached.settles (Rules.suited_of_ofConfig accepted)
  rw [← reached.rules] at accepted
  rw [← Rules.layout_eq accepted]
  exact Call.prompt_of_settles settled (answersLike _)

end WordGenerator

theorem Issuer.prompt_of_reaches {c : Config} {k₀ k : Issuer} {happenings : List Happening}
    (made : ofConfig c = .ok k₀) (course : k₀.Reaches happenings k) {g : LockedGenerator}
    (bound : k.bound = some g) (sound : g.poisoned = false) :
    Prompt c.layout LockedGenerator.poll g fun now => (g.pollAt now).1 := by
  obtain ⟨lawful, config, _⟩ := lawful_of_ofConfig made
  have leads := leads_of_reaches lawful course
  have nothingBound : k₀.Within := by
    obtain ⟨_, _, done⟩ := Fault.bind_eq_ok_iff.mp made
    cases done
    rintro _ ⟨⟩
  have within := within_of_reaches lawful course nothingBound g bound
  obtain ⟨worker, accepted⟩ := leads.lawful.rules g bound
  rw [leads.config, config] at accepted
  rw [← Rules.layout_eq accepted]
  exact Call.prompt_of_settles
    (LockedGenerator.settles (Rules.suited_of_ofConfig accepted) within sound)
    (LockedGenerator.answersLike sound)

/-- If a clock lets as much time pass in every back-off as it is told to, then a call backs off at
most twice and ends with a stamp, unless the clock has come to the end of the layout, or was too
far behind for the lag policy at the first poll. No wait is longer than it has to be. So it is in
every state that a generator of either kind can come to without polls that overlap, and for the
one inside an issuer after any bindings, as long as no clock has broken down under the lock. -/
theorem two_waits_suffice (c : Config) :
    (∀ (worker : Int) (start : Progress) (g : LockedGenerator),
      LockedGenerator.startAt c worker start = .ok g → ∀ readings : List UInt64,
        let reached := g.after (readings.map .shows)
        Prompt c.layout LockedGenerator.poll reached fun now => (reached.pollAt now).1) ∧
    (∀ (worker : Int) (start : Progress) (w : WordGenerator),
      WordGenerator.startAt c worker start = .ok w → ∀ readings : List Reading,
        let reached := w.after readings
        Prompt c.layout WordGenerator.poll reached fun now => (reached.pollAt now).1) ∧
    ∀ (k₀ k : Issuer) (happenings : List Happening) (g : LockedGenerator),
      Issuer.ofConfig c = .ok k₀ → k₀.Reaches happenings k → k.bound = some g →
        g.poisoned = false →
          Prompt c.layout LockedGenerator.poll g fun now => (g.pollAt now).1 := by
  refine ⟨?_, ?_, ?_⟩
  · intro worker start g begun readings
    exact LockedGenerator.prompt_after begun readings
  · intro worker start w begun readings
    exact WordGenerator.prompt_after begun readings
  · intro k₀ k happenings g made course bound sound
    exact Issuer.prompt_of_reaches made course bound sound

/-- A clock that is behind a tick which is used up; the last tick of the layout, on a word; and the
used-up tick that a worker has left to the next, under a policy that never waits for the clock. -/
theorem two_waits_suffice_in_full_tick :
    (∃ g, LockedGenerator.startAt {} 7 (.issued 5 4095) = .ok g ∧
      let clock : Script := { lines := [.shows 3] }
      let one := Call.next LockedGenerator.poll (fun millis s => s.skip millis) 3 g clock
      one.waits = [2, 1] ∧ one.result = .ok ⟨25194496⟩ ∧ one.waits.length ≤ 2) ∧
    (∃ w, WordGenerator.startAt {} 7 (.issued 2199023255551 4095) = .ok w ∧
      let clock : Script := { last := 2199023255551 }
      let one := Call.next WordGenerator.poll (fun millis s => s.skip millis) 3 w clock
      one.waits = [1] ∧ one.waits.length ≤ 2 ∧ one.result =
        .error (.refused (.fieldTooLarge .timestamp 2199023255552 2199023255551))) ∧
    ∃ k happenings g, Issuer.Reaches { config := { lag := .fail } } happenings k ∧
      k.bound = some g ∧ (g.pollAt 4).1 = .refused (.clockBehind 1) ∧
      (g.pollAt 5).1 = .pending 1 ∧ ∀ stamp, (g.pollAt 5).1 ≠ .ready stamp := by
  refine ⟨?_, ?_, ?_⟩
  · have begun : LockedGenerator.startAt {} 7 (.issued 5 4095) = .ok _ := rfl
    refine ⟨_, begun, rfl, rfl, ?_⟩
    have prompt := (two_waits_suffice {}).1 7 _ _ begun []
    refine (prompt.brief _ _ 3 (by decide) ?_).1
    refine ⟨3, rfl, by decide, ?_⟩
    rintro _ ⟨⟩
    refine ⟨5, rfl, by decide, ?_⟩
    rintro _ ⟨⟩
    refine ⟨6, rfl, by decide, ?_⟩
    rintro _ ⟨⟩
  · have begun : WordGenerator.startAt {} 7 (.issued 2199023255551 4095) = .ok _ := rfl
    refine ⟨_, begun, rfl, ?_, rfl⟩
    have prompt := (two_waits_suffice {}).2.1 7 _ _ begun []
    refine (prompt.brief _ _ 3 (by decide) ?_).1
    refine ⟨2199023255551, rfl, by decide, ?_⟩
    rintro _ ⟨⟩
    refine ⟨2199023255552, rfl, by decide, ?_⟩
    rintro _ ⟨⟩
  · have made : Issuer.ofConfig { lag := .fail } = .ok { config := { lag := .fail } } := rfl
    have course :=
      ((Issuer.reaches_bind { config := { lag := .fail } } 7).poll (.shows 5)).bind 8
    have prompt := (two_waits_suffice { lag := .fail }).2.2 _ _ _ _ made course rfl rfl
    refine ⟨_, _, _, course, rfl, rfl, rfl, ?_⟩
    intro stamp
    exact prompt.tight 5 1 5 stamp rfl (by decide) (by decide)

end Tickstamp
