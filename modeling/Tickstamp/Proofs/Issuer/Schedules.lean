import Mathlib.Data.List.Induction
import Tickstamp.Issuer.Sharing
import Tickstamp.Proofs.Issuer.Rebinding

/-!
# Batches on a shared issuer

Under every schedule the stamps of all callers together ascend, since each move
leads the issuer on like a request made alone. What a caller gets is what was
issued to it since its last batch, and no worker is bound while any caller has
stamps of a batch that is under way; so each batch has one machine. Nothing is
said about fairness: a schedule may keep a binding waiting for ever.
-/

namespace Tickstamp
namespace SharedEvent

/-- What an event means for the issuer alone. -/
def happening? : SharedEvent → Option Happening
  | .bound _ (.ok machine) => some (.bound machine)
  | .bound _ (.error _) => none
  | .issued _ stamp => some (.issued stamp)
  | .returned _ _ => none

def happenings (events : List SharedEvent) : List Happening :=
  events.filterMap happening?

/-- The stamps that are issued, to whichever caller. -/
def stamps (events : List SharedEvent) : List Stamp :=
  Happening.stamps (happenings events)

/-- The stamps of the batch that a caller has under way, after one more event. -/
def extend (caller : Nat) (done : List Stamp) : SharedEvent → List Stamp
  | .bound _ _ => done
  | .issued receiver stamp => if receiver = caller then done ++ [stamp] else done
  | .returned receiver _ => if receiver = caller then [] else done

/-- The stamps issued to a caller since its last batch came to an end. -/
def underWay (caller : Nat) (events : List SharedEvent) : List Stamp :=
  events.foldl (extend caller) []

/-- No binding succeeds while a batch is under way, and what a batch returns is what was
issued for it. -/
def Orderly (before : List SharedEvent) : SharedEvent → Prop
  | .bound _ (.ok _) => ∀ caller, underWay caller before = []
  | .returned caller (.ok stamps) => stamps = underWay caller before
  | _ => True

theorem happenings_append (earlier later : List SharedEvent) :
    happenings (earlier ++ later) = happenings earlier ++ happenings later :=
  List.filterMap_append

theorem happenings_snoc (events : List SharedEvent) (e : SharedEvent) :
    happenings (events ++ [e]) = happenings events ++ (happening? e).toList := by
  rw [happenings_append]
  cases h : happening? e <;> simp [happenings, h]

theorem underWay_snoc (caller : Nat) (events : List SharedEvent) (e : SharedEvent) :
    underWay caller (events ++ [e]) = extend caller (underWay caller events) e := by
  rw [underWay, List.foldl_append]
  rfl

theorem extend_sublist (caller : Nat) (done : List Stamp) (e : SharedEvent) :
    List.Sublist (extend caller done e) (done ++ Happening.stamps (happening? e).toList) := by
  cases e with
  | bound other result => exact List.sublist_append_left _ _
  | issued receiver stamp =>
    rw [extend]
    split
    · exact List.Sublist.refl _
    · exact List.sublist_append_left _ _
  | returned receiver result =>
    rw [extend]
    split
    · exact List.nil_sublist _
    · exact List.sublist_append_left _ _

/-- A batch under way is a selection of all stamps, in their order. -/
theorem underWay_sublist (caller : Nat) (events : List SharedEvent) :
    List.Sublist (underWay caller events) (stamps events) := by
  induction events using List.reverseRecOn with
  | nil => exact List.Sublist.refl _
  | append_singleton earlier e ih =>
    rw [underWay_snoc, stamps, happenings_snoc, Happening.stamps_append]
    exact (extend_sublist caller _ e).trans (ih.append_right _)

theorem machine_of_mem_underWay {l : Layout} {events : List SharedEvent}
    (attributed : Happening.Attributed l none (happenings events))
    (orderly : ∀ before e after, events = before ++ e :: after → Orderly before e)
    (caller : Nat) :
    ∀ x ∈ underWay caller events,
      Happening.latestBound none (happenings events) = some (l.decode x).machine := by
  induction events using List.reverseRecOn with
  | nil =>
    intro x hx
    cases hx
  | append_singleton earlier e ih =>
    rw [happenings_snoc, Happening.attributed_append] at attributed
    have before := ih attributed.1 fun b e' a split =>
      orderly b e' (a ++ [e]) (by rw [split, List.append_assoc]; rfl)
    have now := orderly earlier e [] rfl
    intro x hx
    rw [underWay_snoc] at hx
    rw [happenings_snoc, Happening.latestBound_append]
    rcases e with ⟨other, fault | machine⟩ | ⟨receiver, stamp⟩ | ⟨receiver, result⟩
    · exact before x hx
    · -- the only event that changes the machine finds no batch under way
      rw [extend, now caller] at hx
      cases hx
    · rw [extend] at hx
      split at hx
      · rcases List.mem_append.mp hx with old | new
        · exact before x old
        · rw [List.mem_singleton.mp new]
          exact attributed.2.1
      · exact before x hx
    · rw [extend] at hx
      split at hx
      · cases hx
      · exact before x hx

end SharedEvent

theorem Issuer.bind_of_refuses (k : Issuer) {worker : Int} (h : k.refuses worker = true) :
    ∃ fault, k.bind worker = (.error fault, k) := by
  rw [refuses] at h
  rw [bind]
  cases accepted : Rules.ofConfig k.config worker with
  | error fault => exact ⟨fault, rfl⟩
  | ok rules =>
    rw [accepted] at h
    cases h

namespace SharedIssuer

open SharedEvent

/-- A move of a schedule is a binding, a poll, or nothing for the issuer. -/
theorem reaches_move (s : SharedIssuer) (m : SharedMove) :
    s.issuer.Reaches (happenings (s.move m).1) (s.move m).2.issuer := by
  cases m with
  | bind caller worker =>
    rw [move]
    split
    · have tried := s.issuer.reaches_bind worker
      generalize s.issuer.bind worker = asked at tried ⊢
      obtain ⟨fault | machine, issuer⟩ := asked
      · exact tried
      · exact tried
    · exact Issuer.Reaches.refl
  | openBatch caller count =>
    rw [move]
    unfold startBatch
    split <;> exact Issuer.Reaches.refl
  | poll caller reading =>
    rw [move]
    split
    · exact Issuer.Reaches.refl
    · have polled := s.issuer.reaches_offer reading
      generalize s.issuer.offer reading = asked at polled ⊢
      obtain ⟨answer, issuer⟩ := asked
      cases answer with
      | pending _ | refused _ | abandoned => exact polled
      | ready stamp =>
        simp only [settlePoll]
        split <;> exact polled

theorem reaches_run (s : SharedIssuer) (moves : List SharedMove) :
    s.issuer.Reaches (happenings (s.run moves).1) (s.run moves).2.issuer := by
  induction moves generalizing s with
  | nil => exact Issuer.Reaches.refl
  | cons m rest ih =>
    rw [run, happenings_append]
    exact (s.reaches_move m).trans (ih _)

/-- The stamps of the batch that a caller has under way. -/
def collected (s : SharedIssuer) (caller : Nat) : List Stamp :=
  ((s.batchOf? caller).map (·.done.reverse)).getD []

theorem caller_of_batchOf? {s : SharedIssuer} {caller : Nat} {b : OpenBatch}
    (h : s.batchOf? caller = some b) : b.caller = caller := by
  simpa using List.find?_some h

theorem collected_of_batchOf? {s : SharedIssuer} {caller : Nat} {b : OpenBatch}
    (h : s.batchOf? caller = some b) : s.collected caller = b.done.reverse := by
  rw [collected, h]
  rfl

theorem batchOf?_closeBatch (s : SharedIssuer) (closed caller : Nat) :
    (s.closeBatch closed).batchOf? caller = if closed = caller then none else s.batchOf? caller := by
  rw [batchOf?, closeBatch, List.find?_filter]
  split
  · rename_i same
    rw [List.find?_eq_none]
    rintro b _ found
    simp [same] at found
  · rename_i other
    refine congrArg (s.batches.find? ·) (funext fun b => ?_)
    by_cases found : b.caller = caller
    · simp [found, Ne.symm other]
    · simp [found]

theorem collected_closeBatch (s : SharedIssuer) (closed caller : Nat) :
    (s.closeBatch closed).collected caller = if closed = caller then [] else s.collected caller := by
  rw [collected, batchOf?_closeBatch]
  split
  · rfl
  · rfl

theorem collected_putBatch (s : SharedIssuer) (b : OpenBatch) (caller : Nat) :
    (s.putBatch b).collected caller =
      if b.caller = caller then b.done.reverse else s.collected caller := by
  rw [collected, batchOf?, putBatch, List.find?_cons]
  split
  · rename_i same
    rw [if_pos (beq_iff_eq.mp same)]
    rfl
  · rename_i other
    have closed := s.collected_closeBatch b.caller caller
    rw [if_neg (beq_eq_false_iff_ne.mp other)] at closed ⊢
    exact closed

theorem closeBatch_putBatch (s : SharedIssuer) (b : OpenBatch) :
    (s.putBatch b).closeBatch b.caller = s.closeBatch b.caller := by
  simp [putBatch, closeBatch, List.filter_filter]

theorem collected_of_none {s : SharedIssuer} {caller : Nat} (h : s.batchOf? caller = none) :
    s.collected caller = [] := by
  rw [collected, h]
  rfl

theorem closeBatch_of_none {s : SharedIssuer} {caller : Nat} (h : s.batchOf? caller = none) :
    s.closeBatch caller = s := by
  rw [batchOf?, List.find?_eq_none] at h
  have kept : s.batches.filter (·.caller != caller) = s.batches := by
    rw [List.filter_eq_self]
    intro b hb
    simpa using h b hb
  rw [closeBatch, kept]

theorem collected_of_isEmpty {s : SharedIssuer} (h : s.batches.isEmpty) (caller : Nat) :
    s.collected caller = [] := by
  rw [collected, batchOf?, List.isEmpty_iff.mp h]
  rfl

/-- The events that lead from an issuer without batches to a shared state. -/
structure Tracks (k : Issuer) (events : List SharedEvent) (s : SharedIssuer) : Prop where
  leads : k.Leads (happenings events) s.issuer
  batches : ∀ caller, underWay caller events = s.collected caller
  orderly : ∀ before e after, events = before ++ e :: after → Orderly before e

theorem Tracks.start {k : Issuer} (h : k.Lawful) : Tracks k [] { issuer := k } := by
  refine ⟨Issuer.Leads.refl h, fun _ => rfl, ?_⟩
  intro before e after split
  cases before <;> cases split

theorem Tracks.silent {k : Issuer} {events : List SharedEvent} {s : SharedIssuer}
    (h : Tracks k events s) : Tracks k (events ++ []) s := by
  rw [List.append_nil]
  exact h

/-- One more event, which does to the batches what the state says. -/
theorem Tracks.snoc {k : Issuer} {events : List SharedEvent} {s s' : SharedIssuer}
    (h : Tracks k events s) {e : SharedEvent}
    (leads : s.issuer.Leads (happening? e).toList s'.issuer)
    (batches : ∀ caller, extend caller (s.collected caller) e = s'.collected caller)
    (orderly : Orderly events e) : Tracks k (events ++ [e]) s' := by
  refine ⟨?_, ?_, ?_⟩
  · rw [happenings_snoc]
    exact h.leads.trans leads
  · intro caller
    rw [underWay_snoc, h.batches]
    exact batches caller
  · intro before e' after split
    rcases List.eq_nil_or_concat after with rfl | ⟨between, last, rfl⟩
    · obtain ⟨rfl, same⟩ := List.append_inj' split rfl
      cases same
      exact orderly
    · rw [List.concat_eq_append, ← List.cons_append, ← List.append_assoc] at split
      exact h.orderly before e' between (List.append_inj' split rfl).1

/-- A binding is orderly, whether it waited for the batches or is refused. -/
theorem Tracks.bind {k : Issuer} {events : List SharedEvent} {s : SharedIssuer}
    (h : Tracks k events s) (caller : Nat) {worker : Int}
    (ready : (s.batches.isEmpty || s.issuer.refuses worker) = true) :
    Tracks k (events ++ [.bound caller (s.issuer.bind worker).1])
      { s with issuer := (s.issuer.bind worker).2 } := by
  have leads := Issuer.leads_bind h.leads.lawful worker
  cases result : (s.issuer.bind worker).1 with
  | error fault =>
    rw [result] at leads
    exact h.snoc leads (fun _ => rfl) trivial
  | ok machine =>
    rw [result] at leads
    refine h.snoc leads (fun _ => rfl) ?_
    intro other
    have empty : s.batches.isEmpty := by
      rcases Bool.or_eq_true_iff.mp ready with empty | refused
      · exact empty
      · obtain ⟨fault, refusal⟩ := s.issuer.bind_of_refuses refused
        rw [refusal] at result
        cases result
    rw [h.batches]
    exact collected_of_isEmpty empty other

/-- A batch that ends with a fault or is abandoned leaves nothing behind. -/
theorem Tracks.close {k : Issuer} {events : List SharedEvent} {s : SharedIssuer}
    (h : Tracks k events s) (caller : Nat) (result : Except Halt (List Stamp))
    (complete : ∀ stamps, result = .ok stamps → stamps = s.collected caller) :
    Tracks k (events ++ [.returned caller result]) (s.closeBatch caller) := by
  refine h.snoc (Issuer.Leads.refl h.leads.lawful) ?_ ?_
  · intro other
    exact (s.collected_closeBatch caller other).symm
  · cases result with
    | error halt => exact trivial
    | ok stamps => exact (complete stamps rfl).trans (h.batches caller).symm

theorem Tracks.open {k : Issuer} {events : List SharedEvent} {s : SharedIssuer}
    (h : Tracks k events s) {caller : Nat} (idle : s.batchOf? caller = none) (left : Nat) :
    Tracks k events (s.putBatch ⟨caller, left, []⟩) := by
  refine ⟨h.leads, ?_, h.orderly⟩
  intro other
  rw [h.batches, collected_putBatch]
  split
  · rename_i same
    rw [← same, collected_of_none idle]
    rfl
  · rfl

/-- A batch that cannot begin, or has nothing to wait for, ends at once. -/
theorem Tracks.begin {k : Issuer} {events : List SharedEvent} {s : SharedIssuer}
    (h : Tracks k events s) (caller count : Nat) :
    Tracks k (events ++ (s.startBatch caller count).1) (s.startBatch caller count).2 := by
  unfold startBatch
  cases idle : s.batchOf? caller with
  | some b => exact h.silent
  | none =>
    have ended (result : Except Halt (List Stamp))
        (complete : ∀ stamps, result = .ok stamps → stamps = []) :
        Tracks k (events ++ [.returned caller result]) s := by
      have closed := h.close caller result fun stamps ok =>
        (complete stamps ok).trans (collected_of_none idle).symm
      rwa [closeBatch_of_none idle] at closed
    cases s.issuer.bound with
    | none => exact ended _ nofun
    | some g =>
      cases count with
      | zero =>
        refine ended (.ok []) ?_
        rintro _ ⟨⟩
        rfl
      | succ left => exact (h.open idle (left + 1)).silent

theorem Tracks.quiet {k issuer : Issuer} {events : List SharedEvent} {s : SharedIssuer}
    (h : Tracks k events s) (leads : s.issuer.Leads [] issuer) :
    Tracks k events { s with issuer } := by
  refine ⟨?_, h.batches, h.orderly⟩
  have both := h.leads.trans leads
  rwa [List.append_nil] at both

/-- A stamp goes to the batch for which it was polled. -/
theorem Tracks.issue {k issuer : Issuer} {events : List SharedEvent} {s : SharedIssuer}
    (h : Tracks k events s) {b : OpenBatch} (found : s.batchOf? b.caller = some b) {stamp : Stamp}
    (leads : s.issuer.Leads [.issued stamp] issuer) (left : Nat) :
    Tracks k (events ++ [.issued b.caller stamp])
      ({ s with issuer }.putBatch ⟨b.caller, left, stamp :: b.done⟩) := by
  refine h.snoc leads ?_ trivial
  intro caller
  rw [extend, collected_putBatch]
  split
  · rename_i same
    rw [← same, collected_of_batchOf? found, List.reverse_cons]
  · rfl

/-- Whatever a poll answers, its batch takes it in good order. -/
theorem Tracks.settle {k : Issuer} {events : List SharedEvent} {s : SharedIssuer}
    (h : Tracks k events s) {b : OpenBatch} (found : s.batchOf? b.caller = some b)
    (reading : Reading) :
    let settled := { s with issuer := (s.issuer.offer reading).2 }.settlePoll b
      (s.issuer.offer reading).1
    Tracks k (events ++ settled.1) settled.2 := by
  have leads := Issuer.leads_offer h.leads.lawful reading
  generalize s.issuer.offer reading = polled at leads ⊢
  obtain ⟨answer, issuer⟩ := polled
  cases answer with
  | pending millis => exact (h.quiet leads).silent
  | refused fault => exact (h.quiet leads).close b.caller _ nofun
  | abandoned => exact (h.quiet leads).close b.caller _ nofun
  | ready stamp =>
    have issued := h.issue found leads (b.left - 1)
    simp only [settlePoll]
    split
    · -- the last stamp of the batch: it is issued, and then the batch returns
      rw [← List.singleton_append, ← List.append_assoc]
      rw [← closeBatch_putBatch _ ⟨b.caller, b.left - 1, stamp :: b.done⟩]
      refine issued.close b.caller _ ?_
      rintro _ ⟨⟩
      rw [collected_putBatch, if_pos rfl]
    · exact issued

theorem Tracks.move {k : Issuer} {events : List SharedEvent} {s : SharedIssuer}
    (h : Tracks k events s) (m : SharedMove) :
    Tracks k (events ++ (s.move m).1) (s.move m).2 := by
  cases m with
  | bind caller worker =>
    rw [SharedIssuer.move]
    split
    · rename_i ready
      exact h.bind caller ready
    · exact h.silent
  | openBatch caller count => exact h.begin caller count
  | poll caller reading =>
    rw [SharedIssuer.move]
    cases found : s.batchOf? caller with
    | none => exact h.silent
    | some b =>
      obtain rfl := caller_of_batchOf? found
      exact h.settle found reading

theorem Tracks.run {k : Issuer} {events : List SharedEvent} {s : SharedIssuer}
    (h : Tracks k events s) (moves : List SharedMove) :
    Tracks k (events ++ (s.run moves).1) (s.run moves).2 := by
  induction moves generalizing events s with
  | nil => exact h.silent
  | cons m rest ih =>
    have later := ih (h.move m)
    rw [List.append_assoc] at later
    exact later

/-- Whatever the schedule and the readings of the clock, the stamps of all callers together
increase in the order in which they are issued; a batch returns what was issued for it, in
increasing order; while a batch is under way, all its stamps carry the machine that was bound
last, and no binding succeeds from its first stamp to its end. -/
theorem batches_increase {c : Config} {k : Issuer} (made : Issuer.ofConfig c = .ok k)
    (moves : List SharedMove) :
    let events := (run { issuer := k } moves).1
    (stamps events).Pairwise (· < ·) ∧
      (∀ before caller returned after, events = before ++ .returned caller (.ok returned) :: after →
        returned = underWay caller before ∧ returned.Pairwise (· < ·)) ∧
      (∀ before after, events = before ++ after → ∀ caller, ∀ x ∈ underWay caller before,
        Happening.latestBound none (happenings before) = some (c.layout.decode x).machine) ∧
      ∀ before binder machine after, events = before ++ .bound binder (.ok machine) :: after →
        ∀ caller, underWay caller before = [] := by
  intro events
  obtain ⟨lawful, rfl, unbound⟩ := Issuer.lawful_of_ofConfig made
  have tracks : Tracks k events _ := (Tracks.start lawful).run moves
  have increasing := tracks.leads.climb.increasing
  refine ⟨increasing, ?_, ?_, ?_⟩
  · intro before caller returned after split
    have whole : returned = underWay caller before := tracks.orderly _ _ _ split
    refine ⟨whole, ?_⟩
    rw [split, happenings_append, Happening.stamps_append, List.pairwise_append] at increasing
    rw [whole]
    exact increasing.1.sublist (underWay_sublist caller before)
  · intro before after split caller
    have attributed := tracks.leads.attributed
    rw [unbound, split, happenings_append, Happening.attributed_append] at attributed
    refine machine_of_mem_underWay attributed.1 ?_ caller
    intro earlier e later inner
    exact tracks.orderly earlier e (later ++ after) (by rw [split, inner, List.append_assoc]; rfl)
  · intro before binder machine after split
    exact tracks.orderly _ _ _ split

/-- Two batches take turns, and a binding has to wait until both are done. -/
theorem batches_increase_in_turns :
    ∃ k, Issuer.ofConfig {} = .ok k ∧
      let events := (run { issuer := k } [.bind 0 2, .openBatch 0 2, .openBatch 1 1,
        .poll 0 (.shows 5), .bind 2 1, .poll 1 (.shows 5), .poll 0 (.shows 6), .bind 2 1]).1
      events.length = 7 ∧ (stamps events).Pairwise (· < ·) := by
  have made : Issuer.ofConfig {} = .ok { config := {} } := rfl
  exact ⟨_, made, rfl, (batches_increase made _).1⟩

end SharedIssuer
end Tickstamp
