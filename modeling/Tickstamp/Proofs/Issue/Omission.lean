import Tickstamp.Proofs.Issue.SteadyClock

/-!
# Polls that leave no trace

A poll that hands out no stamp leaves its generator as it was, whether it is
told to wait or is refused. So any of those polls can be left out of a run, and
the others are answered as before. Readings beyond the layout, or before the
tick of the last stamp, can only be answered in this way. Polls that overlap
are not considered here, nor is a clock that breaks down under a lock.
-/

namespace Tickstamp

/-- A list without some of its elements, each of which may be left out. -/
inductive Omits {α : Type} (may : α → Prop) : List α → List α → Prop where
  | nil : Omits may [] []
  | keep {whole rest : List α} (a : α) (others : Omits may whole rest) :
      Omits may (a :: whole) (a :: rest)
  | drop {whole rest : List α} {a : α} (allowed : may a) (others : Omits may whole rest) :
      Omits may (a :: whole) rest

section
variable {γ : Type} {offer : γ → Reading → Answer × γ}

/-- The polls at these readings, each with its answer. -/
def transcript (offer : γ → Reading → Answer × γ) (g : γ) (readings : List Reading) :
    List (Reading × Answer) :=
  readings.zip (history offer g readings).1

theorem transcript_cons (g : γ) (reading : Reading) (rest : List Reading) :
    transcript offer g (reading :: rest) =
      (reading, (offer g reading).1) :: transcript offer (offer g reading).2 rest :=
  rfl

/-- Polls that change nothing can be left out: what is left is the transcript of its own
readings, and leads to the same generator. -/
theorem transcript_of_omits (may : Answer → Prop) {g : γ} {readings : List Reading}
    {kept : List (Reading × Answer)}
    (idle : ∀ g, ∀ reading ∈ readings, may (offer g reading).1 → (offer g reading).2 = g)
    (omits : Omits (fun poll => may poll.2) (transcript offer g readings) kept) :
    transcript offer g (kept.map Prod.fst) = kept ∧
      (history offer g (kept.map Prod.fst)).2 = (history offer g readings).2 := by
  induction readings generalizing g kept with
  | nil =>
    cases omits
    exact ⟨rfl, rfl⟩
  | cons reading rest ih =>
    have idleRest := fun g reading h => idle g reading (List.mem_cons_of_mem _ h)
    rw [transcript_cons] at omits
    cases omits with
    | keep _ others =>
      obtain ⟨same, after⟩ := ih idleRest others
      rw [List.map_cons, transcript_cons, same]
      exact ⟨rfl, after⟩
    | drop allowed others =>
      -- the rest of the run starts from the generator as it was
      have unchanged := idle g reading List.mem_cons_self allowed
      rw [unchanged] at others
      obtain ⟨same, after⟩ := ih idleRest others
      refine ⟨same, after.trans ?_⟩
      rw [history_cons, unchanged]

/-- Polls at such readings, of which none hands out a stamp, leave no trace in this kind of
generator. -/
structure Traceless (offer : γ → Reading → Answer × γ) (unusable : γ → UInt64 → Prop) : Prop where
  still : ∀ g now, (offer g (.shows now)).1.stamp? = none → (offer g (.shows now)).2 = g
  /-- Whichever of the polls without a stamp are left out, the others get the same answers. -/
  omissible : ∀ (g : γ) (readings : List UInt64) (kept : List (Reading × Answer)),
    Omits (fun poll => poll.2.stamp? = none) (transcript offer g (readings.map .shows)) kept →
      transcript offer g (kept.map Prod.fst) = kept ∧
        (history offer g (kept.map Prod.fst)).2 = (history offer g (readings.map .shows)).2
  /-- After any number of unusable readings the generator goes on as if there had been none. -/
  recovers : ∀ (g : γ) (bad later : List UInt64), (∀ now ∈ bad, unusable g now) →
    (∀ answer ∈ (history offer g (bad.map .shows)).1, answer.stamp? = none) ∧
      (history offer g ((bad ++ later).map .shows)).1 =
        (history offer g (bad.map .shows)).1 ++ (history offer g (later.map .shows)).1

variable {unusable : γ → UInt64 → Prop}

theorem history_of_unusable
    (still : ∀ g now, (offer g (.shows now)).1.stamp? = none → (offer g (.shows now)).2 = g)
    (silent : ∀ g now, unusable g now → (offer g (.shows now)).1.stamp? = none)
    {g : γ} {bad : List UInt64} (h : ∀ now ∈ bad, unusable g now) :
    (∀ answer ∈ (history offer g (bad.map .shows)).1, answer.stamp? = none) ∧
      (history offer g (bad.map .shows)).2 = g := by
  induction bad with
  | nil => exact ⟨by simp [history], rfl⟩
  | cons now rest ih =>
    have none := silent g now (h now List.mem_cons_self)
    obtain ⟨answers, after⟩ := ih fun later hl => h later (List.mem_cons_of_mem _ hl)
    rw [List.map_cons, history_cons, still g now none]
    exact ⟨List.forall_mem_cons.mpr ⟨none, answers⟩, after⟩

/-- It is enough that a poll without a stamp changes nothing, and that unusable readings are
answered without one. -/
theorem traceless_of_still
    (still : ∀ g now, (offer g (.shows now)).1.stamp? = none → (offer g (.shows now)).2 = g)
    (silent : ∀ g now, unusable g now → (offer g (.shows now)).1.stamp? = none) :
    Traceless offer unusable := by
  refine ⟨still, ?_, ?_⟩
  · intro g readings kept omits
    refine transcript_of_omits (fun answer => answer.stamp? = none) ?_ omits
    intro g reading given none
    obtain ⟨now, _, rfl⟩ := List.mem_map.mp given
    exact still g now none
  · intro g bad later h
    obtain ⟨answers, after⟩ := history_of_unusable still silent h
    refine ⟨answers, ?_⟩
    rw [List.map_append, history_append, after]

end

/-- A reading at which nothing can be issued: it is beyond the layout, or before the tick of the
last stamp. -/
def Rules.Unusable (r : Rules) (p : Progress) (now : UInt64) : Prop :=
  r.layout.maxTimestamp < now ∨ now < p.tick

theorem Rules.usable_of_commit {r : Rules} {p next : Progress} {now : UInt64} {stamp : Stamp}
    (h : r.respond p now = .ok (.commit next stamp)) : ¬ r.Unusable p now := by
  obtain ⟨sequence, issue, fits, _, _⟩ := (respond_eq_commit_iff ..).mp h
  rintro (beyond | behind)
  · exact UInt64.not_lt.mpr fits.timestamp beyond
  · cases p with
    | fresh => exact UInt64.not_lt_zero behind
    | issued last used =>
      rcases ((Progress.advance_issued_eq_issue_iff ..).mp issue).2 with ⟨rfl, _⟩ | ⟨later, _⟩
      · exact UInt64.lt_irrefl _ behind
      · exact UInt64.lt_asymm later behind

theorem Progress.following_of_stamp?_eq_none {response : Except Fault Decision}
    (none : (Answer.ofResponse response).stamp? = none) (p : Progress) :
    p.following response = p := by
  cases response with
  | error fault => rfl
  | ok decision =>
    cases decision with
    | wait millis => rfl
    | commit next stamp => cases none

theorem LockedGenerator.attempt_still (g : LockedGenerator) (now : UInt64)
    (none : (g.attempt (.shows now)).1.stamp? = none) : (g.attempt (.shows now)).2 = g := by
  cases locked : g.poisoned with
  | true => simp [attempt, locked]
  | false =>
    rw [attempt_shows locked] at none ⊢
    rw [Progress.following_of_stamp?_eq_none none]

theorem LockedGenerator.attempt_of_unusable (g : LockedGenerator) (now : UInt64)
    (h : g.rules.Unusable g.progress now) : (g.attempt (.shows now)).1.stamp? = none := by
  rcases g.attempt_cases (.shows now) with ⟨_, _, _, ⟨⟩, _, response, _⟩ | ⟨none, _, _⟩
  · exact absurd h (Rules.usable_of_commit response)
  · exact none

namespace WordGenerator

/-- A reading at which a generator on a word can issue nothing. -/
def Unusable (w : WordGenerator) (now : UInt64) : Prop :=
  w.rules.Unusable (.unpack w.word w.rules.layout.sequenceBits) now

theorem offer_still (w : WordGenerator) (now : UInt64)
    (none : (w.offer (.shows now)).1.stamp? = none) : (w.offer (.shows now)).2 = w := by
  rcases w.conclude_cases w.word now with ⟨next, stamp, _, _, commit⟩ | ⟨_, same⟩
  · rw [offer, commit] at none
    cases none
  · exact same

theorem offer_of_unusable (w : WordGenerator) (now : UInt64) (h : w.Unusable now) :
    (w.offer (.shows now)).1.stamp? = none := by
  rcases w.conclude_cases w.word now with ⟨_, _, _, decided, _⟩ | ⟨none, _⟩
  · exact absurd h (Rules.usable_of_commit decided)
  · exact none

end WordGenerator

/-- Whatever state a generator is in, a poll that is told to wait or is refused leaves it as it
was; such polls can be left out of a run without a change to the other answers, and after
readings beyond the layout or before the last tick it goes on as if there had been none. This
holds under a lock as on a word. -/
theorem unanswered_polls_traceless :
    Traceless LockedGenerator.attempt (fun g now => g.rules.Unusable g.progress now) ∧
      Traceless WordGenerator.offer WordGenerator.Unusable := by
  constructor
  · exact traceless_of_still LockedGenerator.attempt_still LockedGenerator.attempt_of_unusable
  · exact traceless_of_still WordGenerator.offer_still WordGenerator.offer_of_unusable

/-- A full tick, a reading beyond the layout and one before the tick, and then the next tick. -/
example :
    (LockedGenerator.restore {} 7 5 4095).map (fun g =>
      (g.answers [.shows 5, .shows 0x20000000000, .shows 4, .shows 6],
        g.answers [.shows 6])) =
    .ok ([.pending 1, .refused (.fieldTooLarge .timestamp 0x20000000000 0x1FFFFFFFFFF),
      .pending 1, .ready ⟨25194496⟩], [.ready ⟨25194496⟩]) :=
  rfl

end Tickstamp
