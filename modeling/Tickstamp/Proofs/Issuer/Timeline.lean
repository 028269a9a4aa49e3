import Tickstamp.Proofs.Issue.Calls
import Tickstamp.Proofs.Issuer.Course

/-!
# Requests on their clock

On a clock, whatever is asked of an issuer is a row of bindings and of polls,
each of which finds the generator and the clock as the one before has left them.
A timeline keeps what each poll found, so that a stamp can be traced to the
reading it was issued at. Its bindings and polls may belong to the requests of
one caller or of many; that they are requests at all is not asked.
-/

namespace Tickstamp

/-- A poll of a generator on a clock, both as the poll finds them. -/
structure Visit (σ : Type) where
  generator : LockedGenerator
  clock : σ

inductive Occurrence (σ : Type) where
  /-- A binding answered with this machine number. -/
  | bound (machine : UInt64)
  | polled (visit : Visit σ)

variable {σ : Type}

def Occurrence.ofBinding : Except Fault UInt64 → List (Occurrence σ)
  | .ok machine => [.bound machine]
  | .error _ => []

variable [Clock σ]

namespace Visit

def reading (v : Visit σ) : Reading := (Clock.read v.clock).1

def answer (v : Visit σ) : Answer := (v.generator.poll v.clock).1

/-- The generator after the poll. -/
def after (v : Visit σ) : LockedGenerator := (v.generator.poll v.clock).2.1

/-- The clock after the poll. -/
def later (v : Visit σ) : σ := (v.generator.poll v.clock).2.2

end Visit
namespace Occurrence

/-- What an occurrence brings about. -/
def happenings : Occurrence σ → List Happening
  | .bound machine => [.bound machine]
  | .polled visit => visit.answer.stamp?.toList.map .issued

theorem happenings_ofBinding (result : Except Fault UInt64) :
    (ofBinding result : List (Occurrence σ)).flatMap happenings = Issuer.boundBy result := by
  cases result <;> rfl

end Occurrence

/-- The visits that a number of polls in a row make. -/
def LockedGenerator.visits : (times : Nat) → LockedGenerator → σ → List (Visit σ)
  | 0, _, _ => []
  | times + 1, g, clock =>
    let visit : Visit σ := ⟨g, clock⟩
    visit :: visits times visit.after visit.later

theorem LockedGenerator.answers_visits (times : Nat) (g : LockedGenerator) (clock : σ) :
    (visits times g clock).map Visit.answer = (Call.polls poll times g clock).1 := by
  induction times generalizing g clock with
  | zero => rfl
  | succ times ih => exact congrArg (_ :: ·) (ih _ _)

namespace Issuer

/-- Bindings and polls that lead from one state of an issuer and its clock to another. -/
inductive Timeline : Issuer → σ → List (Occurrence σ) → Issuer → σ → Prop where
  | refl {k : Issuer} {clock : σ} : Timeline k clock [] k clock
  | bind {k k' : Issuer} {clock clock' : σ} {occurrences : List (Occurrence σ)} (worker : Int)
      (rest : Timeline (k.bind worker).2 clock occurrences k' clock') :
      Timeline k clock (Occurrence.ofBinding (k.bind worker).1 ++ occurrences) k' clock'
  | poll {k k' : Issuer} {clock clock' : σ} {occurrences : List (Occurrence σ)}
      {g : LockedGenerator} (bound : k.bound = some g)
      (rest : Timeline { k with bound := some (Visit.mk g clock).after } (Visit.mk g clock).later
        occurrences k' clock') :
      Timeline k clock (.polled ⟨g, clock⟩ :: occurrences) k' clock'

namespace Timeline

theorem trans {k k' k'' : Issuer} {clock clock' clock'' : σ} {earlier later : List (Occurrence σ)}
    (first : Timeline k clock earlier k' clock') (second : Timeline k' clock' later k'' clock'') :
    Timeline k clock (earlier ++ later) k'' clock'' := by
  induction first with
  | refl => exact second
  | bind worker _ ih =>
    rw [List.append_assoc]
    exact (ih second).bind worker
  | poll bound _ ih => exact (ih second).poll bound

/-- Every poll of a timeline finds what the occurrences before it lead to. -/
theorem exists_before {k k' : Issuer} {clock clock' : σ} {before later : List (Occurrence σ)}
    {v : Visit σ} (course : Timeline k clock (before ++ .polled v :: later) k' clock') :
    ∃ k₁, Timeline k clock before k₁ v.clock ∧ k₁.bound = some v.generator := by
  generalize whole : before ++ .polled v :: later = occurrences at course
  induction course generalizing before with
  | refl => simp at whole
  | @bind k _ _ _ _ worker _ ih =>
    cases answered : (k.bind worker).1 with
    | error fault =>
      rw [answered] at whole
      obtain ⟨k₁, rest, bound⟩ := ih whole
      have first := rest.bind worker
      rw [answered] at first
      exact ⟨k₁, first, bound⟩
    | ok machine =>
      rw [answered] at whole
      cases before with
      | nil => cases whole
      | cons o before =>
        obtain ⟨rfl, others⟩ := List.cons.inj whole
        obtain ⟨k₁, rest, bound⟩ := ih others
        have first := rest.bind worker
        rw [answered] at first
        exact ⟨k₁, first, bound⟩
  | @poll k _ _ _ _ g bound _ ih =>
    cases before with
    | nil =>
      cases whole
      exact ⟨k, refl, bound⟩
    | cons o before =>
      obtain ⟨rfl, others⟩ := List.cons.inj whole
      obtain ⟨k₁, rest, found⟩ := ih others
      exact ⟨k₁, rest.poll bound, found⟩

theorem reaches {k k' : Issuer} {clock clock' : σ} {occurrences : List (Occurrence σ)}
    (course : Timeline k clock occurrences k' clock') :
    k.Reaches (occurrences.flatMap Occurrence.happenings) k' := by
  induction course with
  | refl => exact Reaches.refl
  | @bind k _ _ _ _ worker _ ih =>
    rw [List.flatMap_append, Occurrence.happenings_ofBinding]
    exact (k.reaches_bind worker).trans ih
  | @poll k _ clock _ _ g bound _ ih =>
    obtain ⟨reading, answer, after⟩ := g.exists_attempt clock
    have polled := k.reaches_offer reading
    rw [offer_of_bound bound, ← answer, ← after] at polled
    exact polled.trans ih

end Timeline

theorem timeline_visits {k : Issuer} {g : LockedGenerator} (bound : k.bound = some g)
    (times : Nat) (clock : σ) :
    k.Timeline clock ((g.visits times clock).map .polled)
      { k with bound := some (Call.polls LockedGenerator.poll times g clock).2.1 }
      (Call.polls LockedGenerator.poll times g clock).2.2 := by
  induction times generalizing k g clock with
  | zero =>
    change k.Timeline clock [] { k with bound := some g } clock
    rw [with_bound bound]
    exact Timeline.refl
  | succ times ih => exact (ih rfl _).poll bound

/-- Visits bring about the stamps among their answers. -/
theorem happenings_polled (visits : List (Visit σ)) :
    (visits.map .polled).flatMap Occurrence.happenings =
      (Answer.stamps (visits.map Visit.answer)).map .issued := by
  induction visits with
  | nil => rfl
  | cons v rest ih =>
    rw [List.map_cons, List.map_cons, List.flatMap_cons, Answer.stamps_cons, List.map_append, ih]
    rfl

/-- Some timeline brings these happenings about. -/
def Unfolds (k : Issuer) (clock : σ) (happenings : List Happening) (k' : Issuer) (clock' : σ) :
    Prop :=
  ∃ occurrences, Timeline k clock occurrences k' clock' ∧
    occurrences.flatMap Occurrence.happenings = happenings

theorem Unfolds.refl {k : Issuer} {clock : σ} : k.Unfolds clock [] k clock :=
  ⟨[], Timeline.refl, rfl⟩

theorem Unfolds.trans {k k' k'' : Issuer} {clock clock' clock'' : σ}
    {earlier later : List Happening} (first : k.Unfolds clock earlier k' clock')
    (second : k'.Unfolds clock' later k'' clock'') :
    k.Unfolds clock (earlier ++ later) k'' clock'' := by
  obtain ⟨past, course, rfl⟩ := first
  obtain ⟨future, onward, rfl⟩ := second
  exact ⟨past ++ future, course.trans onward, List.flatMap_append⟩

theorem Unfolds.reaches {k k' : Issuer} {clock clock' : σ} {happenings : List Happening}
    (h : k.Unfolds clock happenings k' clock') : k.Reaches happenings k' := by
  obtain ⟨occurrences, course, rfl⟩ := h
  exact course.reaches

theorem unfolds_bind (k : Issuer) (clock : σ) (worker : Int) :
    k.Unfolds clock (boundBy (k.bind worker).1) (k.bind worker).2 clock := by
  refine ⟨_, Timeline.refl.bind worker, ?_⟩
  rw [List.append_nil, Occurrence.happenings_ofBinding]

theorem unfolds_bindFrom (k : Issuer) (clock : σ) (source : Except String Int) :
    k.Unfolds clock (boundBy (k.bindFrom source).1) (k.bindFrom source).2 clock := by
  cases source with
  | error text => exact Unfolds.refl
  | ok worker => exact k.unfolds_bind clock worker

/-- Polls in a row unfold the stamps among their answers. -/
theorem unfolds_of_polls {k : Issuer} {g g' : LockedGenerator} (bound : k.bound = some g)
    {clock clock' : σ} {answers : List Answer}
    (made : Call.polls LockedGenerator.poll answers.length g clock = (answers, g', clock')) :
    k.Unfolds clock ((Answer.stamps answers).map .issued) { k with bound := some g' } clock' := by
  have course := timeline_visits bound answers.length clock
  have told := g.answers_visits answers.length clock
  rw [made] at course told
  refine ⟨_, course, ?_⟩
  rw [happenings_polled, told]

theorem unfolds_generate (k : Issuer) (patience : Nat) (clock : σ) :
    k.Unfolds clock ((k.generate patience clock).issued.map .issued)
      (k.generate patience clock).issuer (k.generate patience clock).clock := by
  rw [generate]
  cases bound : k.bound with
  | none => exact Unfolds.refl
  | some g =>
    obtain ⟨answers, made, stamps, _⟩ :=
      Call.exists_polls_next LockedGenerator.poll patience g clock
    simp only [← stamps]
    exact unfolds_of_polls bound made

/-- A batch unfolds its stamps, also if it ends early. -/
theorem unfolds_generateBatch (k : Issuer) (patience count : Nat) (clock : σ) :
    k.Unfolds clock ((k.generateBatch patience count clock).issued.map .issued)
      (k.generateBatch patience count clock).issuer
      (k.generateBatch patience count clock).clock := by
  rw [generateBatch]
  cases bound : k.bound with
  | none => exact Unfolds.refl
  | some g =>
    obtain ⟨answers, made, issued, _⟩ :=
      Call.exists_polls_batchAfter LockedGenerator.poll patience count [] g clock
    rw [List.reverse_nil, List.nil_append] at issued
    simp only [Call.batch, issued]
    exact unfolds_of_polls bound made

omit [Clock σ] in
/-- A binding that answers brings about that its worker is bound, and nothing else. -/
theorem happenings_quietly (result : Except Fault UInt64) (after : Issuer) (clock : σ)
    {request : Operation} (binds : (∃ worker, request = .bind worker) ∨
      ∃ source, request = .bindFrom source) :
    (Performed.quietly .machine result after clock).happenings request = boundBy result := by
  rcases binds with ⟨_, rfl⟩ | ⟨_, rfl⟩
  · cases result <;> rfl
  · cases result <;> rfl

theorem unfolds_perform (k : Issuer) (patience : Nat) (clock : σ) (request : Operation) :
    k.Unfolds clock ((k.perform patience clock request).happenings request)
      (k.perform patience clock request).issuer (k.perform patience clock request).clock := by
  cases request with
  | bind worker =>
    rw [perform, happenings_quietly _ _ _ (Or.inl ⟨worker, rfl⟩)]
    exact k.unfolds_bind clock worker
  | bindFrom source =>
    rw [perform, happenings_quietly _ _ _ (Or.inr ⟨source, rfl⟩)]
    exact k.unfolds_bindFrom clock source
  | generate | generateText | generateKey => exact k.unfolds_generate patience clock
  | generateBatch count | generateTexts count | generateKeys count =>
    exact k.unfolds_generateBatch patience count clock
  | worker | decode _ | decodeText _ | decodeKey _ => exact Unfolds.refl

theorem unfolds_chronicle (k : Issuer) (patience : Nat) (clock : σ) (requests : List Operation) :
    k.Unfolds clock (k.chronicle patience clock requests).1
      (k.chronicle patience clock requests).2.1 (k.chronicle patience clock requests).2.2 := by
  induction requests generalizing k clock with
  | nil => exact Unfolds.refl
  | cons request rest ih => exact (k.unfolds_perform patience clock request).trans (ih _ _)

/-- A chronicle of any length consists of bindings and polls. -/
theorem reaches_chronicle (k : Issuer) (patience : Nat) (clock : σ) (requests : List Operation) :
    k.Reaches (k.chronicle patience clock requests).1 (k.chronicle patience clock requests).2.1 :=
  (k.unfolds_chronicle patience clock requests).reaches

end Issuer
end Tickstamp
