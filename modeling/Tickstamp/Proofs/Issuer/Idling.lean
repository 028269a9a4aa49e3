import Tickstamp.Proofs.Issue.Omission
import Tickstamp.Proofs.Issuer.Workers

/-!
# Requests that do nothing

Some requests leave an issuer and its clock as they were, whatever they reply:
bindings that fail or name the worker that is bound, all that asks for stamps
while no worker is bound, batches of no stamps, and questions about the worker
or about a stamp. They can be left out of a run without a trace. Requests that
fail because of the clock are not among these: they have read it, and a batch
may have issued stamps before it failed.
-/

namespace Tickstamp

/-- All that may be left out can be left out at once. -/
theorem Omits.filter {α : Type} {may : α → Prop} [DecidablePred may] (whole : List α) :
    Omits may whole (whole.filter fun a => ¬ may a) := by
  induction whole with
  | nil => exact .nil
  | cons a rest ih =>
    by_cases allowed : may a
    · rw [List.filter_cons_of_neg (by simpa using allowed)]
      exact .drop allowed ih
    · rw [List.filter_cons_of_pos (by simpa using allowed)]
      exact .keep a ih

namespace Issuer

/-- An issuer in this state has nothing to do for the request. -/
def Idle (k : Issuer) : Operation → Prop
  | .bind worker | .bindFrom (.ok worker) =>
    (k.bind worker).1.isOk = false ∨ k.worker.map (fun machine => (machine.toNat : Int)) = .ok worker
  | .bindFrom (.error _) => True
  | .generate | .generateText | .generateKey => k.worker.isOk = false
  | .generateBatch count | .generateTexts count | .generateKeys count =>
    k.worker.isOk = false ∨ count = 0
  | .worker | .decode _ | .decodeText _ | .decodeKey _ => True

instance (k : Issuer) : DecidablePred k.Idle
  | .bind _ | .bindFrom (.ok _) => inferInstanceAs (Decidable (_ ∨ _))
  | .bindFrom (.error _) => inferInstanceAs (Decidable True)
  | .generate | .generateText | .generateKey => inferInstanceAs (Decidable (_ = _))
  | .generateBatch _ | .generateTexts _ | .generateKeys _ => inferInstanceAs (Decidable (_ ∨ _))
  | .worker | .decode _ | .decodeText _ | .decodeKey _ => inferInstanceAs (Decidable True)

theorem bind_of_idle {k : Issuer} {worker : Int} (idle : k.Idle (.bind worker)) :
    (k.bind worker).2 = k := by
  rcases k.bind_cases worker with
    ⟨_, refused⟩ | ⟨_, _, same⟩ | ⟨rules, _, accepted, placed, origin⟩
  · rw [refused]
  · rw [same]
  · -- a new generator is put in place only for another worker than the one that is bound
    rcases idle with failed | bound
    · rw [placed] at failed
      cases failed
    · rcases origin with ⟨unbound, _⟩ | ⟨g, former, _, other, _⟩
      · rw [Issuer.worker, unbound] at bound
        cases bound
      · rw [Issuer.worker, former, Rules.worker_eq accepted] at bound
        exact absurd (UInt64.toNat_inj.mp (Int.ofNat_inj.mp (Except.ok.inj bound))) other

theorem bound_eq_none_of_worker {k : Issuer} (failed : k.worker.isOk = false) :
    k.bound = none := by
  cases bound : k.bound with
  | none => rfl
  | some g =>
    rw [worker, bound] at failed
    cases failed

/-- A request of a run: the issuer and the clock as it finds them, and how it ends. -/
structure Turn (σ : Type) where
  request : Operation
  issuer : Issuer
  clock : σ
  done : Performed σ

/-- The request had nothing to do. -/
def Turn.Idle {σ : Type} (turn : Turn σ) : Prop :=
  turn.issuer.Idle turn.request

instance {σ : Type} : DecidablePred (Turn.Idle (σ := σ)) :=
  fun turn => inferInstanceAs (Decidable (turn.issuer.Idle turn.request))

variable {σ : Type} [Clock σ]

theorem generate_of_unbound {k : Issuer} (unbound : k.bound = none) (patience : Nat) (clock : σ) :
    k.generate patience clock = ⟨.error (.refused .workerUnbound), [], k, clock⟩ := by
  rw [generate, unbound]

theorem generateBatch_of_unbound {k : Issuer} (unbound : k.bound = none) (patience count : Nat)
    (clock : σ) :
    k.generateBatch patience count clock =
      ⟨.error (.refused .workerUnbound), [], k, clock⟩ := by
  rw [generateBatch, unbound]

theorem generateBatch_of_idle {k : Issuer} {count : Nat} (idle : k.Idle (.generateBatch count))
    (patience : Nat) (clock : σ) :
    (k.generateBatch patience count clock).issuer = k ∧
      (k.generateBatch patience count clock).clock = clock := by
  cases bound : k.bound with
  | none => simp [generateBatch_of_unbound bound]
  | some g =>
    rcases idle with failed | rfl
    · rw [bound_eq_none_of_worker failed] at bound
      cases bound
    · simp [generateBatch_zero bound]

/-- A request that an issuer has nothing to do for leaves the issuer and the clock alone. -/
theorem perform_of_idle {k : Issuer} {request : Operation} (idle : k.Idle request)
    (patience : Nat) (clock : σ) :
    (k.perform patience clock request).issuer = k ∧
      (k.perform patience clock request).clock = clock := by
  cases request with
  | bind worker => exact ⟨bind_of_idle idle, rfl⟩
  | bindFrom source =>
    cases source with
    | error text => exact ⟨rfl, rfl⟩
    | ok worker => exact ⟨bind_of_idle idle, rfl⟩
  | generate | generateText | generateKey =>
    have nothing := generate_of_unbound (bound_eq_none_of_worker idle) patience clock
    simp [perform, generateText, generateKey, nothing, Run.andThen, Performed.ofRun]
  | generateBatch count | generateTexts count | generateKeys count =>
    exact generateBatch_of_idle idle patience clock
  | worker | decode _ | decodeText _ | decodeKey _ => exact ⟨rfl, rfl⟩

/-- The requests of a run, each on the issuer and the clock that the one before has left. -/
def turns (k : Issuer) (patience : Nat) (clock : σ) : List Operation → List (Turn σ)
  | [] => []
  | request :: rest =>
    let done := k.perform patience clock request
    ⟨request, k, clock, done⟩ :: done.issuer.turns patience done.clock rest

theorem turns_cons (k : Issuer) (patience : Nat) (clock : σ) (request : Operation)
    (rest : List Operation) :
    k.turns patience clock (request :: rest) =
      ⟨request, k, clock, k.perform patience clock request⟩ ::
        (k.perform patience clock request).issuer.turns patience
          (k.perform patience clock request).clock rest :=
  rfl

theorem map_done_turns (k : Issuer) (patience : Nat) (clock : σ) (requests : List Operation) :
    (k.turns patience clock requests).map Turn.done = k.performAll patience clock requests := by
  induction requests generalizing k clock with
  | nil => rfl
  | cons request rest ih =>
    rw [turns_cons, List.map_cons, ih]
    rfl

/-- What is left of a run without requests that had nothing to do is the run of what is left. -/
theorem turns_of_omits {k : Issuer} {patience : Nat} {clock : σ} {requests : List Operation}
    {kept : List (Turn σ)} (omits : Omits Turn.Idle (k.turns patience clock requests) kept) :
    k.turns patience clock (kept.map Turn.request) = kept ∧
      (k.chronicle patience clock (kept.map Turn.request)).2 =
        (k.chronicle patience clock requests).2 := by
  induction requests generalizing k clock kept with
  | nil =>
    cases omits
    exact ⟨rfl, rfl⟩
  | cons request rest ih =>
    rw [turns_cons] at omits
    cases omits with
    | keep _ others =>
      obtain ⟨same, after⟩ := ih others
      rw [List.map_cons, turns_cons, same]
      exact ⟨rfl, after⟩
    | drop idle others =>
      -- the rest of the run starts from the issuer and the clock as they were
      obtain ⟨issuer, still⟩ := perform_of_idle idle patience clock
      rw [issuer, still] at others
      obtain ⟨same, after⟩ := ih others
      refine ⟨same, after.trans ?_⟩
      rw [chronicle, issuer, still]

/-- From a run any of the requests that had nothing to do can be left out: every other request
finds the issuer and the clock as it found them before, takes the same readings, issues the same
stamps and gets the same reply, and the run leads to the same state. -/
theorem idle_requests_omissible (k : Issuer) (patience : Nat) (clock : σ)
    (requests : List Operation) (kept : List (Turn σ))
    (omits : Omits Turn.Idle (k.turns patience clock requests) kept) :
    k.turns patience clock (kept.map Turn.request) = kept ∧
      k.performAll patience clock (kept.map Turn.request) = kept.map Turn.done ∧
        (k.chronicle patience clock (kept.map Turn.request)).2 =
          (k.chronicle patience clock requests).2 := by
  obtain ⟨same, after⟩ := turns_of_omits omits
  refine ⟨same, ?_, after⟩
  rw [← map_done_turns, same]

/-- A request before any worker is bound, bindings that fail and one of the bound worker, an empty
batch and questions; then the clock breaks down, and another worker is refused for that. -/
theorem idle_requests_omissible_at_poisoned_lock :
    let k : Issuer := { config := {} }
    let clock : Script := { lines := [.shows 5, .shows 5, .breaksDown] }
    let run := k.turns 9 clock [.generateKeys 2, .bindFrom (.error "no lease"), .bind 7,
      .bind 1024, .generate, .bind 7, .generateBatch 0, .worker, .decode ⟨0⟩, .generateTexts 2,
      .bind 8, .generate]
    let kept := run.filter fun turn => ¬ turn.Idle
    Omits Turn.Idle run kept ∧ k.turns 9 clock (kept.map Turn.request) = kept ∧
      kept.map (·.done.reply) = [.machine 7, .stamp ⟨21000192⟩, .halted .abandoned,
        .halted (.refused .lockPoisoned)] := by
  intro k clock run kept
  have omits : Omits Turn.Idle run kept := Omits.filter run
  exact ⟨omits, (idle_requests_omissible k 9 clock _ kept omits).1, by decide +kernel⟩

end Issuer
end Tickstamp
