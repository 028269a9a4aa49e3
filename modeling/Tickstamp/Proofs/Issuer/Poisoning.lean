import Tickstamp.Issue.Request
import Tickstamp.Proofs.Issue.Omission
import Tickstamp.Proofs.Issuer.Schedules

/-!
# A clock that breaks down

If the clock breaks down under a lock, the lock is poisoned for good: whatever is
asked of the generator from then on is refused before the clock is read. An issuer
with a poisoned generator keeps it, since every other worker would have to take
over its progress; it still replies to what needs neither a stamp nor the
progress. A generator on a word has nothing to poison. A clock that breaks down
while no lock is held is not considered.
-/

namespace Tickstamp

theorem LockedGenerator.poisoned_of_attempt {g : LockedGenerator} {reading : Reading}
    (abandoned : (g.attempt reading).1 = .abandoned) :
    (g.attempt reading).2.poisoned = true := by
  cases locked : g.poisoned with
  | true => simp [attempt, locked] at abandoned
  | false =>
    cases reading with
    | breaksDown => simp [attempt, locked, offer]
    | shows now =>
      rw [attempt_shows locked] at abandoned
      cases response : g.rules.respond g.progress now with
      | error fault => simp [response, Answer.ofResponse] at abandoned
      | ok decision => cases decision <;> simp [response, Answer.ofResponse] at abandoned

namespace Call

variable {σ : Type}

/-- The clock broke down while the request was under way. -/
def Response.Broken (response : Response) : Prop :=
  response = .polled .abandoned ∨ ∃ waits, response = .called (.error .abandoned) waits

/-- The response to a request at a poisoned lock. -/
def Request.refusal : Request σ → Response
  | .poll => .polled (.refused .lockPoisoned)
  | .next _ _ => .called (.error (.refused .lockPoisoned)) []

variable [Clock σ] {g : LockedGenerator} {clock : σ}

open LockedGenerator (poll)

theorem poisoned_of_poll (abandoned : (g.poll clock).1 = .abandoned) :
    (g.poll clock).2.1.poisoned = true := by
  obtain ⟨reading, answer, after⟩ := g.exists_attempt clock
  rw [answer] at abandoned
  rw [after]
  exact LockedGenerator.poisoned_of_attempt abandoned

theorem poisoned_of_next {backOff : UInt64 → σ → σ} {patience : Nat}
    (abandoned : (next poll backOff patience g clock).result = .error .abandoned) :
    (next poll backOff patience g clock).generator.poisoned = true := by
  induction patience generalizing g clock with
  | zero => cases abandoned
  | succ patience ih =>
    have single : (g.poll clock).1 = .abandoned → (g.poll clock).2.1.poisoned = true :=
      poisoned_of_poll
    rw [next] at abandoned ⊢
    generalize g.poll clock = polled at abandoned single ⊢
    obtain ⟨answer, after, later⟩ := polled
    cases answer with
    | ready stamp => cases abandoned
    | refused fault => cases abandoned
    | abandoned => exact single rfl
    | pending millis => exact ih abandoned

theorem poisoned_of_respond {request : Request σ}
    (broken : (respond poll g clock request).1.Broken) :
    (respond poll g clock request).2.1.poisoned = true := by
  cases request with
  | poll =>
    rcases broken with polled | ⟨_, called⟩
    · exact poisoned_of_poll (Response.polled.inj polled)
    · cases called
  | next more backOff =>
    rcases broken with polled | ⟨_, called⟩
    · cases polled
    · exact poisoned_of_next (Response.called.inj called).1

theorem poll_of_poisoned (poisoned : g.poisoned = true) (clock : σ) :
    g.poll clock = (.refused .lockPoisoned, g, clock) := by
  simp [poll, poisoned]

theorem next_of_poisoned (poisoned : g.poisoned = true) (backOff : UInt64 → σ → σ)
    {patience : Nat} (patient : 0 < patience) (clock : σ) :
    next poll backOff patience g clock = ⟨.error (.refused .lockPoisoned), [], g, clock⟩ := by
  cases patience with
  | zero => cases patient
  | succ more => rw [next, poll_of_poisoned poisoned]

theorem respond_of_poisoned (poisoned : g.poisoned = true) (clock : σ) (request : Request σ) :
    respond poll g clock request = (request.refusal, g, clock) := by
  cases request with
  | poll => simp [respond, poll_of_poisoned poisoned, Request.refusal]
  | next more backOff =>
    simp [respond, next_of_poisoned poisoned backOff more.succ_pos, Request.refusal]

/-- All that is asked at a poisoned lock is refused, and the clock is not read for it. -/
theorem session_of_poisoned (poisoned : g.poisoned = true) (clock : σ)
    (requests : List (Request σ)) :
    session poll g clock requests = (requests.map Request.refusal, g, clock) := by
  induction requests with
  | nil => rfl
  | cons request rest ih => simp [session_cons, respond_of_poisoned poisoned, ih]

theorem poisoned_of_session {requests : List (Request σ)}
    (broken : ∃ response ∈ (session poll g clock requests).1, response.Broken) :
    (session poll g clock requests).2.1.poisoned = true := by
  induction requests generalizing g clock with
  | nil =>
    obtain ⟨_, none, _⟩ := broken
    cases none
  | cons request rest ih =>
    rw [session_cons] at broken ⊢
    obtain ⟨response, given, broken⟩ := broken
    rcases List.mem_cons.mp given with rfl | later
    · have poisoned := poisoned_of_respond broken
      simp only [session_of_poisoned poisoned]
      exact poisoned
    · exact ih ⟨response, later, broken⟩

end Call

namespace Issuer

/-- What a binding answers at a poisoned lock, while this machine is bound. -/
def poisonedBinding (k : Issuer) (machine : UInt64) (worker : Int) : Except Fault UInt64 :=
  if worker = machine.toNat then .ok machine
  else if 0 ≤ worker ∧ worker ≤ k.config.layout.maxMachine.toNat then .error .lockPoisoned
  else .error (.workerOutOfRange worker k.config.layout.maxMachine)

/-- What an issuer replies at a poisoned lock, while this machine is bound: a stamp to nobody, and
to everything else what it would reply otherwise. -/
def poisonedReply (k : Issuer) (machine : UInt64) : Operation → Reply
  | .bind worker => .ofExcept .machine (k.poisonedBinding machine worker)
  | .bindFrom (.ok worker) => .ofExcept .machine (k.poisonedBinding machine worker)
  | .bindFrom (.error text) => .halted (.refused (.workerProvider text))
  | .worker => .machine machine
  | .generateBatch 0 => .stamps []
  | .generateTexts 0 => .texts []
  | .generateKeys 0 => .keys []
  | .generate | .generateBatch _ | .generateText | .generateTexts _ | .generateKey
  | .generateKeys _ => .halted (.refused .lockPoisoned)
  | .decode stamp => .ofExcept .origin (k.decode stamp)
  | .decodeText text => .ofExcept .origin (k.decodeText text)
  | .decodeKey key => .ofExcept .origin (k.decodeKey key)

variable {k : Issuer} {g : LockedGenerator}

/-- Bindings and polls change nothing at a poisoned lock, and issue nothing. -/
theorem eq_of_reaches_of_poisoned {k' : Issuer} {happenings : List Happening}
    (bound : k.bound = some g) (poisoned : g.poisoned = true) (course : k.Reaches happenings k') :
    k' = k ∧ Happening.stamps happenings = [] := by
  induction course with
  | refl => exact ⟨rfl, rfl⟩
  | bind before worker ih =>
    obtain ⟨rfl, none⟩ := ih
    rw [Happening.stamps_append, none, Happening.stamps_boundBy]
    refine ⟨?_, rfl⟩
    rcases bind_cases _ worker with
      ⟨fault, refused⟩ | ⟨_, _, same⟩ | ⟨_, _, _, _, ⟨unbound, _⟩ | ⟨g', bound', sound, _⟩⟩
    · rw [refused]
    · rw [same]
    · rw [bound] at unbound
      cases unbound
    · rw [bound] at bound'
      cases bound'
      rw [poisoned] at sound
      cases sound
  | poll before reading ih =>
    obtain ⟨rfl, none⟩ := ih
    have refused : g.attempt reading = (.refused .lockPoisoned, g) := by
      simp [LockedGenerator.attempt, poisoned]
    rw [offer_of_bound bound, refused, Happening.stamps_append, none]
    exact ⟨with_bound bound, rfl⟩

/-- A binding finds out first whether the worker is in range, then whether it is bound already, and
only then that the lock is poisoned. -/
theorem bind_of_poisoned (h : k.Lawful) (bound : k.bound = some g) (poisoned : g.poisoned = true)
    (worker : Int) : k.bind worker = (k.poisonedBinding g.rules.machine worker, k) := by
  obtain ⟨former, before⟩ := h.rules g bound
  have machine := Rules.machine_le before
  rw [h.layout bound, UInt64.le_iff_toNat_le] at machine
  rw [bind, poisonedBinding, Rules.ofConfig_of_valid h.valid]
  cases known : k.config.layout.machineOf worker with
  | error fault =>
    rw [Layout.machineOf] at known
    split at known
    · cases known
    · rename_i outside
      cases known
      have other : worker ≠ g.rules.machine.toNat := by
        rintro rfl
        exact outside ⟨by omega, by omega⟩
      rw [if_neg other, if_neg outside]
      rfl
  | ok number =>
    obtain ⟨rfl, fits⟩ := (Layout.machineOf_eq_ok_iff ..).mp known
    rw [UInt64.le_iff_toNat_le] at fits
    simp only [Except.map, bound]
    by_cases same : g.rules.machine = number
    · rw [if_pos same, if_pos (by rw [same]), same]
    · have other : (number.toNat : Int) ≠ g.rules.machine.toNat := by
        intro equal
        exact same (UInt64.toNat_inj.mp (Int.ofNat_inj.mp equal)).symm
      rw [if_neg same, if_neg other, if_pos ⟨by omega, by omega⟩]
      simp [LockedGenerator.progress?, poisoned]

variable {σ : Type} [Clock σ]

theorem generate_of_poisoned (bound : k.bound = some g) (poisoned : g.poisoned = true)
    {patience : Nat} (patient : 0 < patience) (clock : σ) :
    k.generate patience clock = ⟨.error (.refused .lockPoisoned), [], k, clock⟩ := by
  simp [generate, bound, Call.next_of_poisoned poisoned _ patient, Except.toOption,
    with_bound bound]

theorem generateBatch_of_poisoned (bound : k.bound = some g) (poisoned : g.poisoned = true)
    {patience : Nat} (patient : 0 < patience) (count : Nat) (clock : σ) :
    k.generateBatch patience count clock =
      ⟨if count = 0 then .ok [] else .error (.refused .lockPoisoned), [], k, clock⟩ := by
  cases count with
  | zero => exact generateBatch_zero bound patience clock
  | succ count =>
    simp [generateBatch, bound, Call.batch, Call.batchAfter,
      Call.next_of_poisoned poisoned _ patient, Call.Batch.result, with_bound bound]

/-- Every request is answered without the clock, and leaves the issuer as it was. -/
theorem perform_of_poisoned (h : k.Lawful) (bound : k.bound = some g)
    (poisoned : g.poisoned = true) {patience : Nat} (patient : 0 < patience) (clock : σ)
    (request : Operation) :
    k.perform patience clock request =
      ⟨k.poisonedReply g.rules.machine request, [], k, clock⟩ := by
  cases request with
  | bind worker =>
    rw [perform, bind_of_poisoned h bound poisoned]
    rfl
  | bindFrom source =>
    cases source with
    | error text => rfl
    | ok worker =>
      rw [perform, bindFrom, bind_of_poisoned h bound poisoned]
      rfl
  | worker =>
    rw [perform, worker, bound]
    rfl
  | generate =>
    rw [perform, generate_of_poisoned bound poisoned patient]
    rfl
  | generateText =>
    rw [perform, generateText, generate_of_poisoned bound poisoned patient]
    rfl
  | generateKey =>
    rw [perform, generateKey, generate_of_poisoned bound poisoned patient]
    rfl
  | generateBatch count =>
    rw [perform, generateBatch_of_poisoned bound poisoned patient]
    cases count <;> rfl
  | generateTexts count =>
    rw [perform, generateTexts, generateBatch_of_poisoned bound poisoned patient]
    cases count <;> rfl
  | generateKeys count =>
    rw [perform, generateKeys, generateBatch_of_poisoned bound poisoned patient]
    cases count <;> rfl
  | decode stamp => rfl
  | decodeText text => rfl
  | decodeKey key => rfl

theorem performAll_of_poisoned (h : k.Lawful) (bound : k.bound = some g)
    (poisoned : g.poisoned = true) {patience : Nat} (patient : 0 < patience) (clock : σ)
    (requests : List Operation) :
    k.performAll patience clock requests =
      requests.map fun request => ⟨k.poisonedReply g.rules.machine request, [], k, clock⟩ := by
  induction requests with
  | nil => rfl
  | cons request rest ih =>
    rw [performAll, perform_of_poisoned h bound poisoned patient]
    exact congrArg (_ :: ·) ih

theorem poisonedReply_congr {k' : Issuer} (same : k'.config = k.config) :
    k'.poisonedReply = k.poisonedReply := by
  obtain ⟨config, bound⟩ := k
  obtain ⟨config', bound'⟩ := k'
  cases same
  rfl

end Issuer

/-- A poll on a word is abandoned only if the clock breaks down, and then the word is as it was. -/
theorem WordGenerator.offer_of_abandoned {w : WordGenerator} {reading : Reading}
    (abandoned : (w.offer reading).1 = .abandoned) : (w.offer reading).2 = w := by
  cases reading with
  | breaksDown => rfl
  | shows now =>
    refine w.offer_still now ?_
    rw [abandoned]
    rfl

/-- Once the clock has broken down under a lock, all that is asked of the generator is refused, and
the clock is not read again. An issuer whose generator is poisoned issues nothing more, in whatever
order and by however many callers it is asked; it replies to every request without a change to
itself or to the clock, and decodes as it did when it was made. From a run of a generator on a word
the polls at which the clock broke down can be left out. -/
theorem poisoning_permanent :
    (∀ {σ : Type} [Clock σ] (g : LockedGenerator) (clock : σ) (earlier : List (Call.Request σ)),
      (∃ response ∈ (Call.session LockedGenerator.poll g clock earlier).1, response.Broken) →
        ∀ later, Call.session LockedGenerator.poll g clock (earlier ++ later) =
          ((Call.session LockedGenerator.poll g clock earlier).1 ++ later.map Call.Request.refusal,
            (Call.session LockedGenerator.poll g clock earlier).2)) ∧
    (∀ {c : Config} {k₀ k : Issuer} {happenings : List Happening} {g : LockedGenerator},
      Issuer.ofConfig c = .ok k₀ → k₀.Reaches happenings k → k.bound = some g →
      g.poisoned = true →
        (∀ {σ : Type} [Clock σ] (patience : Nat), 0 < patience → ∀ (clock : σ) requests,
          k.performAll patience clock requests = requests.map fun request =>
            ⟨k₀.poisonedReply g.rules.machine request, [], k, clock⟩) ∧
        ∀ batches moves, SharedEvent.stamps (SharedIssuer.run ⟨k, batches⟩ moves).1 = [] ∧
          (SharedIssuer.run ⟨k, batches⟩ moves).2.issuer = k) ∧
    ∀ (w : WordGenerator) (readings : List Reading) (kept : List (Reading × Answer)),
      Omits (fun poll => poll.2 = .abandoned) (transcript WordGenerator.offer w readings) kept →
        transcript WordGenerator.offer w (kept.map Prod.fst) = kept ∧
          w.after (kept.map Prod.fst) = w.after readings := by
  refine ⟨?_, ?_, ?_⟩
  · intro σ _ g clock earlier broken later
    have poisoned := Call.poisoned_of_session broken
    rw [Call.session_append]
    simp only [Call.session_of_poisoned poisoned]
  · intro c k₀ k happenings g made course bound poisoned
    have leads := Issuer.leads_of_reaches (Issuer.lawful_of_ofConfig made).1 course
    constructor
    · intro σ _ patience patient clock requests
      rw [← Issuer.poisonedReply_congr leads.config]
      exact Issuer.performAll_of_poisoned leads.lawful bound poisoned patient clock requests
    · intro batches moves
      obtain ⟨same, none⟩ := Issuer.eq_of_reaches_of_poisoned bound poisoned
        (SharedIssuer.reaches_run ⟨k, batches⟩ moves)
      exact ⟨none, same⟩
  · intro w readings kept omits
    refine transcript_of_omits (fun answer => answer = .abandoned) ?_ omits
    intro w reading _ abandoned
    exact WordGenerator.offer_of_abandoned abandoned

/-- The clock breaks down in a batch of worker 7, and works again afterwards; likewise while a
caller waits for the tick after a full one. -/
theorem poisoning_permanent_after_breakdown :
    let clock : Script := { lines := [.shows 5, .shows 5, .breaksDown, .shows 6] }
    (∃ k, Issuer.ofConfig {} = .ok k ∧
      let past := k.chronicle 9 clock [.bind 7, .generateBatch 3]
      past.1 = [.bound 7, .issued ⟨21000192⟩, .issued ⟨21000193⟩] ∧
        (past.2.1.performAll 9 past.2.2 [.generateKey, .generateTexts 0, .bind 7, .bind 8,
          .bind 1024, .worker, .decode ⟨21000193⟩]).map Issuer.Performed.reply =
            [.halted (.refused .lockPoisoned), .texts [], .machine 7,
              .halted (.refused .lockPoisoned), .halted (.refused (.workerOutOfRange 1024 1023)),
              .machine 7, .origin ⟨1477958400005, 7, 1⟩]) ∧
    ∃ g, LockedGenerator.startAt {} 7 (.issued 5 4095) = .ok g ∧
      (Call.session LockedGenerator.poll g clock
        ([.next 8 Call.idle] ++ [.poll, .next 8 Call.idle])).1 =
          [.called (.error .abandoned) [1, 1], .polled (.refused .lockPoisoned),
            .called (.error (.refused .lockPoisoned)) []] := by
  intro clock
  constructor
  · have made : Issuer.ofConfig {} = .ok { config := {} } := rfl
    refine ⟨_, made, by decide, ?_⟩
    generalize past : Issuer.chronicle { config := {} } 9 clock [.bind 7, .generateBatch 3] = after
    have course := Issuer.reaches_chronicle { config := {} } 9 clock [.bind 7, .generateBatch 3]
    have state : (Issuer.chronicle { config := {} } 9 clock
        [.bind 7, .generateBatch 3]).2.1.bound.map (fun g => (g.poisoned, g.rules.machine)) =
          some (true, 7) := by
      decide
    rw [past] at course state
    obtain ⟨g, bound, same⟩ := Option.map_eq_some_iff.mp state
    obtain ⟨poisoned, machine⟩ := Prod.mk.inj same
    rw [(poisoning_permanent.2.1 made course bound poisoned).1 9 (by decide), machine, List.map_map]
    simp only [Function.comp_def]
    decide
  · have begun : LockedGenerator.startAt {} 7 (.issued 5 4095) = .ok _ := rfl
    refine ⟨_, begun, ?_⟩
    rw [poisoning_permanent.1 _ clock [.next 8 Call.idle]
      ⟨_, List.mem_singleton_self _, .inr ⟨_, rfl⟩⟩]
    rfl

end Tickstamp
