import Mathlib.Algebra.GroupWithZero.Nat
import Mathlib.Tactic.ByContra
import Tickstamp.Issue.Queue
import Tickstamp.Proofs.Issue.Calls

/-!
# Turns do not change what is handed out

A locked generator does not know its callers: the polls of all turns together
are the polls of one caller that makes all the calls. So if that caller would be
served, then the calls of many are served the same stamps in the same order,
however their turns fall; only who gets which stamp depends on the turns.
Nothing is said of schedules under which one caller waits for ever.
-/

namespace Tickstamp
namespace Queue

variable {σ : Type} [Clock σ]

open Answer (Serve)

/-- A queue whose outstanding calls are served these stamps by these answers. -/
structure Due (q : Queue σ) (answers : List Answer) (stamps : List Stamp) : Prop where
  serve : Serve answers stamps
  polls : (Call.polls LockedGenerator.poll answers.length q.generator q.clock).1 = answers
  left : q.left.sum = stamps.length

theorem sum_set {left : List Nat} {caller more : Nat} (has : left[caller]? = some (more + 1)) :
    (left.set caller more).sum + 1 = left.sum := by
  obtain ⟨bound, entry⟩ := List.getElem?_eq_some_iff.mp has
  induction left generalizing caller with
  | nil => cases bound
  | cons n rest ih =>
    cases caller with
    | zero =>
      obtain rfl : n = more + 1 := entry
      simp only [List.set_cons_zero, List.sum_cons]
      omega
    | succ caller =>
      have later := ih has (Nat.lt_of_succ_lt_succ bound) entry
      simp only [List.set_cons_succ, List.sum_cons]
      omega

/-- A caller without calls lets its turn pass; the turn of another is the next poll, and either
goes on waiting or ends a call with the next stamp. -/
theorem Due.turn_cases {q : Queue σ} {answers : List Answer} {stamps : List Stamp}
    (due : q.Due answers stamps) (caller : Nat) :
    (q.left[caller]?.getD 0 = 0 ∧ q.turn caller = (none, q)) ∨
      (∃ after others, q.turn caller = (none, after) ∧ after.left = q.left ∧
        answers.length = others.length + 1 ∧ after.Due others stamps) ∨
      ∃ after others s later more, q.turn caller = (some ⟨caller, .ok s⟩, after) ∧
        q.left[caller]? = some (more + 1) ∧ after.left = q.left.set caller more ∧
        answers.length = others.length + 1 ∧ stamps = s :: later ∧ after.Due others later := by
  rw [turn]
  rcases has : q.left[caller]? with _ | _ | more
  · exact Or.inl ⟨rfl, rfl⟩
  · exact Or.inl ⟨rfl, rfl⟩
  · have sum := sum_set has
    obtain ⟨serve, polls, left⟩ := due
    rcases asked : q.generator.poll q.clock with ⟨answer, g, clock⟩
    cases serve with
    | nil =>
      -- there is a call to make, so a stamp is due
      rw [List.length_nil] at left
      omega
    | @wait others s later millis rest =>
      rw [List.length_cons, Call.polls_succ] at polls
      simp only [asked, List.cons.injEq] at polls
      obtain ⟨rfl, polls⟩ := polls
      exact Or.inr (Or.inl ⟨_, others, rfl, rfl, rfl, rest, polls, left⟩)
    | @ready others later s rest =>
      rw [List.length_cons, Call.polls_succ] at polls
      simp only [asked, List.cons.injEq] at polls
      obtain ⟨rfl, polls⟩ := polls
      refine Or.inr (Or.inr ⟨_, others, s, later, more, rfl, rfl, rfl, rfl, rfl, rest, polls, ?_⟩)
      rw [List.length_cons] at left
      exact Nat.succ_inj.mp (sum.trans left)

theorem Due.increasing {q : Queue σ} {answers : List Answer} {stamps : List Stamp}
    (due : q.Due answers stamps) : stamps.Pairwise (· < ·) := by
  obtain ⟨readings, told, _⟩ :=
    q.generator.exists_history_polls answers.length q.clock
  rw [due.polls] at told
  rw [← due.serve.stamps_eq, told]
  exact (q.generator.history_climb readings).increasing

/-- Under every schedule the calls that have ended were served the first of the stamps that are
due, and the others are still due. -/
theorem Due.run {q : Queue σ} {answers : List Answer} {stamps : List Stamp}
    (due : q.Due answers stamps) (schedule : List Nat) :
    ∃ others served later, stamps = served ++ later ∧
      (q.run schedule).1.map (·.result) = served.map .ok ∧
      (q.run schedule).2.Due others later := by
  induction schedule generalizing q answers stamps with
  | nil => exact ⟨answers, [], stamps, rfl, rfl, due⟩
  | cons caller rest ih =>
    rw [Queue.run]
    rcases due.turn_cases caller with ⟨_, passed⟩ | ⟨after, others, waited, _, _, dueAfter⟩ |
      ⟨after, others, s, later, more, ended, _, _, _, rfl, dueAfter⟩
    · rw [passed]
      exact ih due
    · rw [waited]
      exact ih dueAfter
    · rw [ended]
      obtain ⟨unfinished, served, last, rfl, results, dueLast⟩ := ih dueAfter
      exact ⟨unfinished, s :: served, last, rfl, congrArg (_ :: ·) results, dueLast⟩

theorem Due.calls {q : Queue σ} {answers : List Answer} {stamps : List Stamp}
    (due : q.Due answers stamps) (schedule : List Nat) (caller : Nat) :
    (CallRecord.resultsOf caller (q.run schedule).1).length +
        ((q.run schedule).2.left[caller]?).getD 0 = q.left[caller]?.getD 0 := by
  induction schedule generalizing q answers stamps with
  | nil => exact Nat.zero_add _
  | cons other rest ih =>
    rw [Queue.run]
    rcases due.turn_cases other with ⟨_, passed⟩ | ⟨after, others, waited, same, _, dueAfter⟩ |
      ⟨after, others, s, later, more, ended, has, left, _, rfl, dueAfter⟩
    · rw [passed]
      exact ih due
    · rw [waited, ← same]
      exact ih dueAfter
    · have counted := ih dueAfter
      rw [ended]
      rw [left] at counted
      by_cases own : other = caller
      · subst own
        have bound := (List.getElem?_eq_some_iff.mp has).1
        rw [List.getElem?_set_self bound, Option.getD_some] at counted
        simp only [CallRecord.resultsOf, Option.toList_some, List.singleton_append,
          beq_self_eq_true, List.filter_cons_of_pos, List.map_cons, List.length_cons, has,
          Option.getD_some] at counted ⊢
        omega
      · rw [List.getElem?_set_ne own] at counted
        have foreign : (other == caller) = false := beq_eq_false_iff_ne.mpr own
        simpa [CallRecord.resultsOf, foreign] using counted

theorem exists_left_of_sum_ne_zero {left : List Nat} (some : left.sum ≠ 0) :
    ∃ caller : Nat, left[caller]?.getD 0 ≠ 0 := by
  by_contra none
  apply some
  rw [List.sum_eq_zero_iff_forall_eq_nat]
  intro n hn
  obtain ⟨caller, entry⟩ := List.mem_iff_getElem?.mp hn
  by_contra ne
  apply none
  exact ⟨caller, by rwa [entry]⟩

/-- If each caller that has a call to make still gets as many turns as answers are due, no call is
left over in the end. -/
theorem Due.completes {q : Queue σ} {answers : List Answer} {stamps : List Stamp}
    (due : q.Due answers stamps) {schedule : List Nat}
    (turns : ∀ caller, q.left[caller]?.getD 0 ≠ 0 → answers.length ≤ schedule.count caller) :
    (q.run schedule).2.left.sum = 0 := by
  induction schedule generalizing q answers stamps with
  | nil =>
    by_contra unfinished
    obtain ⟨caller, has⟩ := exists_left_of_sum_ne_zero unfinished
    -- no answer is due, hence no stamp, hence no call
    obtain rfl := List.length_eq_zero_iff.mp (Nat.le_zero.mp (turns caller has))
    obtain ⟨⟨⟩, _, left⟩ := due
    exact unfinished left
  | cons next rest ih =>
    -- of the turns of any caller, the first one takes away at most one
    have fewer (caller : Nat) : (next :: rest).count caller ≤ rest.count caller + 1 := by
      rw [List.count_cons]
      split <;> omega
    rw [Queue.run]
    rcases due.turn_cases next with
      ⟨idle, passed⟩ | ⟨after, others, waited, same, length, dueAfter⟩ |
      ⟨after, others, s, later, more, ended, has, left, length, rfl, dueAfter⟩
    · rw [passed]
      refine ih due ?_
      intro caller has
      have other : next ≠ caller := by
        rintro rfl
        exact has idle
      have enough := turns caller has
      rwa [List.count_cons_of_ne other] at enough
    · rw [waited]
      refine ih dueAfter ?_
      intro caller has
      rw [same] at has
      have enough := turns caller has
      have taken := fewer caller
      omega
    · rw [ended]
      refine ih dueAfter ?_
      intro caller still
      have before : q.left[caller]?.getD 0 ≠ 0 := by
        by_cases own : next = caller
        · subst own
          rw [has]
          exact Nat.succ_ne_zero more
        · rwa [left, List.getElem?_set_ne own] at still
      have enough := turns caller before
      have taken := fewer caller
      omega

/-- How the calls of several callers end, when these stamps are due: `records` are the calls that
have ended, and `left` counts those that have not. -/
structure Shares (calls : List Nat) (stamps : List Stamp) (records : List CallRecord)
    (left : List Nat) : Prop where
  /-- Every call that ends succeeds, and with the next stamp. -/
  inOrder : records.map (·.result) <+: stamps.map .ok
  /-- The stamps of each caller increase. -/
  increasing : ∀ caller, ∃ own : List Stamp,
    CallRecord.resultsOf caller records = own.map .ok ∧ own.Pairwise (· < ·)
  /-- Each caller ends its own calls, one by one. -/
  counted : ∀ caller : Nat, (CallRecord.resultsOf caller records).length +
    left[caller]?.getD 0 = calls[caller]?.getD 0
  /-- When no call is left, the callers together have all the stamps, and no others. -/
  complete : left.sum = 0 → records.map (·.result) = stamps.map .ok ∧
    ∀ s, s ∈ stamps ↔ ∃ caller < calls.length, .ok s ∈ CallRecord.resultsOf caller records

theorem Due.shares {q : Queue σ} {answers : List Answer} {stamps : List Stamp}
    (due : q.Due answers stamps) (schedule : List Nat) :
    Shares q.left stamps (q.run schedule).1 (q.run schedule).2.left := by
  have increasing := due.increasing
  have counted := due.calls schedule
  obtain ⟨others, served, later, rfl, results, rest⟩ := due.run schedule
  refine ⟨?_, ?_, counted, ?_⟩
  · rw [results, List.map_append]
    exact List.prefix_append _ _
  · intro caller
    have own : (CallRecord.resultsOf caller (q.run schedule).1).Sublist (served.map .ok) := by
      rw [← results]
      exact List.filter_sublist.map _
    obtain ⟨mine, among, same⟩ := List.sublist_map_iff.mp own
    exact ⟨mine, same, (List.pairwise_append.mp increasing).1.sublist among⟩
  · intro complete
    have none : later = [] := List.length_eq_zero_iff.mp (rest.left.symm.trans complete)
    rw [none, List.append_nil]
    refine ⟨results, ?_⟩
    intro s
    constructor
    · intro hs
      have ended : (.ok s : Except Halt Stamp) ∈ (q.run schedule).1.map (·.result) := by
        rw [results]
        exact List.mem_map_of_mem hs
      obtain ⟨record, among, result⟩ := List.mem_map.mp ended
      have own : .ok s ∈ CallRecord.resultsOf record.caller (q.run schedule).1 :=
        List.mem_map.mpr ⟨record, List.mem_filter.mpr ⟨among, beq_self_eq_true _⟩, result⟩
      refine ⟨record.caller, ?_, own⟩
      -- a caller whose call has ended had one to make
      by_contra outside
      have bound := counted record.caller
      rw [List.getElem?_eq_none (Nat.not_lt.mp outside), Option.getD_none] at bound
      have some := List.length_pos_of_mem own
      omega
    · rintro ⟨caller, _, own⟩
      obtain ⟨record, among, result⟩ := List.mem_map.mp own
      have ended : record.result ∈ (q.run schedule).1.map (·.result) :=
        List.mem_map_of_mem (List.mem_filter.mp among).1
      rw [results, result] at ended
      obtain ⟨s', hs, same⟩ := List.mem_map.mp ended
      cases same
      exact hs

/-- If one caller that made all the calls would succeed on this clock, then so do any number of
callers among whom the calls are divided, whatever the order of their turns: every call that ends
succeeds, each caller's stamps increase, and once no call is left all of them together have exactly
the stamps of the one. There is a number of turns after which no caller has a call left, whatever
the order in which they are taken. -/
theorem turns_share_stamps {calls : List Nat} {patience : Nat} {g : LockedGenerator} {clock : σ}
    {stamps : List Stamp}
    (alone : (Call.batch LockedGenerator.poll patience calls.sum g clock).result = .ok stamps) :
    (∀ schedule, let ended := run ⟨g, clock, calls⟩ schedule
      Shares calls stamps ended.1 ended.2.left) ∧
    ∃ enough, ∀ schedule : List Nat, (∀ caller < calls.length, enough ≤ schedule.count caller) →
      (run ⟨g, clock, calls⟩ schedule).2.left.sum = 0 := by
  obtain ⟨length, answers, serve, made⟩ := Call.exists_polls_of_batch _ alone
  have due : Due ⟨g, clock, calls⟩ answers stamps := ⟨serve, by rw [made], length.symm⟩
  refine ⟨due.shares, answers.length, ?_⟩
  intro schedule turns
  refine due.completes ?_
  intro caller has
  apply turns
  by_contra outside
  exact has (by rw [List.getElem?_eq_none (Nat.not_lt.mp outside)]; rfl)

/-- The last sequence of a tick goes to caller 1, so that caller 0 is told to wait; caller 1, which
has nothing more to do, lets its turn pass. -/
theorem turns_share_stamps_at_end_of_tick :
    ∃ g, LockedGenerator.restore {} 7 5 4094 = .ok g ∧
      let clock : Script := { lines := [.shows 5, .shows 5, .shows 6, .shows 6] }
      let stamps : List Stamp := [⟨21004287⟩, ⟨25194496⟩, ⟨25194497⟩]
      (Call.batch LockedGenerator.poll 9 3 g clock).result = .ok stamps ∧
        let ended := run ⟨g, clock, [2, 1]⟩ [1, 0, 1, 0, 0]
        ended.2.left = [0, 0] ∧ Shares [2, 1] stamps ended.1 ended.2.left ∧
          CallRecord.resultsOf 0 ended.1 = [.ok ⟨25194496⟩, .ok ⟨25194497⟩] := by
  have begun : LockedGenerator.restore {} 7 5 4094 =
      .ok ⟨⟨.standard, 7, default, default⟩, .issued 5 4094, false⟩ := rfl
  have alone : (Call.batch LockedGenerator.poll 9 3
      (⟨⟨.standard, 7, default, default⟩, .issued 5 4094, false⟩ : LockedGenerator)
      ({ lines := [.shows 5, .shows 5, .shows 6, .shows 6] } : Script)).result =
        .ok [⟨21004287⟩, ⟨25194496⟩, ⟨25194497⟩] := rfl
  have all : [2, 1].sum = 3 := by decide
  refine ⟨_, begun, alone, rfl, ?_, rfl⟩
  rw [← all] at alone
  exact (turns_share_stamps alone).1 [1, 0, 1, 0, 0]

end Queue
end Tickstamp
