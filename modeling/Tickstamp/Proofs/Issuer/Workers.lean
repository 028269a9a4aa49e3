import Tickstamp.Proofs.Issuer.Schedules

/-!
# Workers and their numbers

A worker id that is accepted is not changed: its machine number is the id
itself. So the workers that requests bind can be read from a chronicle, and the
worker that a stamp shows is one of them. A binding that is refused binds no
worker, and a worker that is bound again counts again.
-/

namespace Tickstamp
namespace Happening

/-- The worker id that goes with a machine number that was bound. -/
def worker? : Happening → Option Int
  | .bound machine => some machine.toNat
  | .issued _ => none

def workers (happenings : List Happening) : List Int :=
  happenings.filterMap worker?

theorem workers_append (earlier later : List Happening) :
    workers (earlier ++ later) = workers earlier ++ workers later :=
  List.filterMap_append

theorem workers_map_issued (stamps : List Stamp) : workers (stamps.map .issued) = [] := by
  simp [workers, worker?]

theorem worker_mem_of_attributed {l : Layout} {earlier : Option UInt64}
    {happenings : List Happening} (h : Attributed l earlier happenings) :
    ∀ s ∈ stamps happenings, ((l.decode s).machine.toNat : Int) ∈
      workers (earlier.toList.map .bound) ++ workers happenings := by
  induction happenings generalizing earlier with
  | nil => simp [stamps]
  | cons first rest ih =>
    cases first with
    | bound machine =>
      intro s hs
      exact List.mem_append_right _ (ih h s hs)
    | issued stamp =>
      obtain ⟨rfl, attributed⟩ := h
      intro s hs
      rcases List.mem_cons.mp hs with rfl | hs
      · exact List.mem_append_left _ (List.mem_singleton_self _)
      · exact ih attributed s hs

end Happening

open Happening

theorem Rules.worker_eq {c : Config} {worker : Int} {r : Rules}
    (h : Rules.ofConfig c worker = .ok r) : worker = r.machine.toNat := by
  obtain ⟨_, known, _⟩ := (ofConfig_eq_ok_iff ..).mp h
  exact ((Layout.machineOf_eq_ok_iff ..).mp known).1

namespace Issuer

/-- An answer to a binding is the number of the worker that was to be bound. -/
theorem eq_of_bind {k k' : Issuer} {worker : Int} {machine : UInt64}
    (answered : k.bind worker = (.ok machine, k')) : worker = machine.toNat := by
  rw [bind] at answered
  cases accepted : Rules.ofConfig k.config worker with
  | error fault =>
    rw [accepted] at answered
    cases answered
  | ok rules =>
    rw [Rules.worker_eq accepted]
    simp only [accepted] at answered
    -- whichever generator is bound afterwards, the answer comes from these rules
    split at answered
    · cases answered
      rfl
    · split at answered
      · cases answered
        rfl
      · split at answered
        · cases answered
        · cases answered
          rfl

variable {σ : Type}

/-- The worker that a request has bound, if it has bound one. -/
def Performed.worker? (done : Performed σ) (request : Operation) : Option Int :=
  match request, done.reply with
  | .bind worker, .machine _ | .bindFrom (.ok worker), .machine _ => some worker
  | _, _ => none

variable [Clock σ]

/-- The workers that requests bind, in order. -/
def workers (k : Issuer) (patience : Nat) (clock : σ) : List Operation → List Int
  | [] => []
  | request :: rest =>
    let done := k.perform patience clock request
    (done.worker? request).toList ++ done.issuer.workers patience done.clock rest

/-- A request binds the worker whose number it brings about. -/
theorem worker?_perform (k : Issuer) (patience : Nat) (clock : σ) (request : Operation) :
    ((k.perform patience clock request).worker? request).toList =
      Happening.workers ((k.perform patience clock request).happenings request) := by
  cases request with
  | bind worker =>
    rw [perform]
    rcases answered : k.bind worker with ⟨fault | machine, after⟩
    · rfl
    · rw [eq_of_bind answered]
      rfl
  | bindFrom source =>
    cases source with
    | error text => rfl
    | ok worker =>
      rw [perform, bindFrom]
      rcases answered : k.bind worker with ⟨fault | machine, after⟩
      · rfl
      · rw [eq_of_bind answered]
        rfl
  | worker | decode _ | decodeText _ | decodeKey _ => rfl
  | generate | generateBatch _ | generateText | generateTexts _ | generateKey | generateKeys _ =>
    exact (workers_map_issued _).symm

theorem workers_eq (k : Issuer) (patience : Nat) (clock : σ) (requests : List Operation) :
    k.workers patience clock requests =
      Happening.workers (k.chronicle patience clock requests).1 := by
  induction requests generalizing k clock with
  | nil => rfl
  | cons request rest ih =>
    rw [workers, chronicle, workers_append, ← worker?_perform, ih]

end Issuer

/-- The worker that a move has bound, if what it makes known is that it has bound one. -/
def SharedMove.worker? (m : SharedMove) (events : List SharedEvent) : Option Int :=
  match m, events with
  | .bind _ worker, [.bound _ (.ok _)] => some worker
  | _, _ => none

namespace SharedIssuer

/-- The workers that are bound under a schedule, in order. -/
def workers (s : SharedIssuer) : List SharedMove → List Int
  | [] => []
  | m :: rest => (m.worker? (s.move m).1).toList ++ (s.move m).2.workers rest

/-- A move binds the worker whose number it makes known. -/
theorem worker?_move (s : SharedIssuer) (m : SharedMove) :
    (m.worker? (s.move m).1).toList =
      Happening.workers (SharedEvent.happenings (s.move m).1) := by
  cases m with
  | bind caller worker =>
    rw [move]
    split
    · rcases answered : s.issuer.bind worker with ⟨fault | machine, after⟩
      · rfl
      · rw [Issuer.eq_of_bind answered]
        rfl
    · rfl
  | openBatch caller count =>
    rw [move]
    unfold startBatch
    split <;> rfl
  | poll caller reading =>
    rw [move]
    split
    · rfl
    · rcases s.issuer.offer reading with ⟨answer, issuer⟩
      cases answer with
      | pending _ | refused _ | abandoned => rfl
      | ready stamp =>
        simp only [settlePoll]
        split <;> rfl

theorem workers_eq (s : SharedIssuer) (moves : List SharedMove) :
    s.workers moves = Happening.workers (SharedEvent.happenings (s.run moves).1) := by
  induction moves generalizing s with
  | nil => rfl
  | cons m rest ih =>
    rw [workers, run, SharedEvent.happenings_append, workers_append, ← worker?_move, ih]

end SharedIssuer

end Tickstamp
