import Tickstamp.Proofs.Issuer.Schedules

/-!
# A batch that nobody interrupts

A batch requested from an issuer alone is a schedule: it opens, its polls follow
one another, and what the schedule makes known is what the request issues and
answers. So whatever holds of schedules holds of requests one after another. A
request that runs out of patience is left out, since its batch is still open.
-/

namespace Tickstamp

/-- The answer on which a call ends; out of patience, it has only been told to wait. -/
def Answer.ofResult : Except Halt Stamp → Answer
  | .ok stamp => .ready stamp
  | .error (.refused fault) => .refused fault
  | .error .abandoned => .abandoned
  | .error .outOfPatience => .pending 0

namespace SharedIssuer

/-- The same batches, under way on this generator. -/
def withGenerator (s : SharedIssuer) (g : LockedGenerator) : SharedIssuer :=
  { s with issuer := { s.issuer with bound := some g } }

theorem run_append (s : SharedIssuer) (earlier later : List SharedMove) :
    s.run (earlier ++ later) =
      ((s.run earlier).1 ++ ((s.run earlier).2.run later).1,
        ((s.run earlier).2.run later).2) := by
  induction earlier generalizing s with
  | nil => rfl
  | cons m rest ih => simp [run, ih]

theorem run_cons (s : SharedIssuer) (m : SharedMove) (rest : List SharedMove) :
    s.run (m :: rest) =
      ((s.move m).1 ++ ((s.move m).2.run rest).1, ((s.move m).2.run rest).2) :=
  rfl

theorem batchOf?_putBatch (s : SharedIssuer) (b : OpenBatch) :
    (s.putBatch b).batchOf? b.caller = some b := by
  simp [batchOf?, putBatch]

theorem move_poll {s : SharedIssuer} {caller : Nat} {b : OpenBatch}
    (found : s.batchOf? caller = some b) (g : LockedGenerator) (reading : Reading) :
    (s.withGenerator g).move (.poll caller reading) =
      (s.withGenerator (g.attempt reading).2).settlePoll b (g.attempt reading).1 := by
  have same : (s.withGenerator g).batchOf? caller = some b := found
  rw [move, same]
  rfl

variable {σ : Type} [Clock σ]

theorem exists_polls_next {s : SharedIssuer} {caller : Nat} {b : OpenBatch}
    (found : s.batchOf? caller = some b) (patience : Nat) (g : LockedGenerator) (clock : σ) :
    ∃ readings : List Reading, (s.withGenerator g).run (readings.map (.poll caller)) =
      settlePoll
        (s.withGenerator (Call.next LockedGenerator.poll Call.idle patience g clock).generator) b
        (.ofResult (Call.next LockedGenerator.poll Call.idle patience g clock).result) := by
  induction patience generalizing g clock with
  | zero => exact ⟨[], rfl⟩
  | succ patience ih =>
    obtain ⟨reading, answer, after⟩ := g.exists_attempt clock
    have polled := move_poll found g reading
    rw [Call.next]
    generalize g.poll clock = asked at answer after ⊢
    obtain ⟨given, asked, later⟩ := asked
    simp only at answer after
    rw [← answer, ← after] at polled
    cases given with
    | ready _ | refused _ | abandoned =>
      refine ⟨[reading], ?_⟩
      rw [List.map_singleton, run_cons, polled]
      simp only [run, List.append_nil]
      rfl
    | pending millis =>
      obtain ⟨readings, rest⟩ := ih asked (Call.idle millis later)
      refine ⟨reading :: readings, ?_⟩
      rw [List.map_cons, run_cons, polled]
      exact rest

/-- The polls of a batch issue its stamps one by one, and the last one answers it. -/
theorem exists_polls_batch {s : SharedIssuer} {caller patience count : Nat} {done : List Stamp}
    {g : LockedGenerator} {clock : σ} {whole : Call.Batch LockedGenerator σ}
    (found : s.batchOf? caller = some ⟨caller, count + 1, done⟩)
    (made : Call.batchAfter LockedGenerator.poll patience done (count + 1) g clock = whole)
    (patient : whole.halt ≠ some .outOfPatience) :
    ∃ (readings : List Reading) (more : List Stamp), whole.issued = done.reverse ++ more ∧
      (s.withGenerator g).run (readings.map (.poll caller)) =
        (more.map (.issued caller) ++ [.returned caller whole.result],
          (s.closeBatch caller).withGenerator whole.generator) := by
  obtain ⟨readings, polls⟩ := exists_polls_next found patience g clock
  rw [Call.batchAfter] at made
  generalize Call.next LockedGenerator.poll Call.idle patience g clock = one at made polls
  obtain ⟨result, waits, asked, later⟩ := one
  cases result with
  | error halt =>
    subst made
    cases halt with
    | refused _ | abandoned => exact ⟨readings, [], (List.append_nil _).symm, polls⟩
    | outOfPatience => exact absurd rfl patient
  | ok stamp =>
    cases count with
    | zero =>
      subst made
      exact ⟨readings, [stamp], List.reverse_cons, polls⟩
    | succ count =>
      have settled : (s.withGenerator asked).settlePoll ⟨caller, count + 1 + 1, done⟩ (.ready stamp) =
          ([.issued caller stamp],
            (s.putBatch ⟨caller, count + 1, stamp :: done⟩).withGenerator asked) := by
        rw [settlePoll, if_neg (by simp only; omega)]
        rfl
      obtain ⟨others, more, issued, rest⟩ :=
        exists_polls_batch (s.batchOf?_putBatch ⟨caller, count + 1, stamp :: done⟩) made patient
      rw [closeBatch_putBatch s ⟨caller, count + 1, stamp :: done⟩] at rest
      refine ⟨readings ++ others, stamp :: more, ?_, ?_⟩
      · rw [issued, List.reverse_cons, List.append_assoc]
        rfl
      · rw [List.map_append, run_append, polls]
        simp only [Answer.ofResult, settled, rest]
        rfl
termination_by count

/-- A batch requested from an issuer alone is a schedule that makes known what the request
issues and answers, and leaves the issuer as the request does. -/
theorem exists_schedule_generateBatch (k : Issuer) (caller patience count : Nat) (clock : σ)
    (patient : (k.generateBatch patience count clock).result ≠ .error .outOfPatience) :
    ∃ readings : List Reading,
      run { issuer := k } (.openBatch caller count :: readings.map (.poll caller)) =
        ((k.generateBatch patience count clock).issued.map (.issued caller) ++
          [.returned caller (k.generateBatch patience count clock).result],
            { issuer := (k.generateBatch patience count clock).issuer }) := by
  obtain ⟨config, bound⟩ := k
  cases bound with
  | none => exact ⟨[], rfl⟩
  | some g =>
    cases count with
    | zero => exact ⟨[], rfl⟩
    | succ count =>
      have halt : (Call.batch LockedGenerator.poll patience (count + 1) g clock).halt ≠
          some .outOfPatience := by
        intro halted
        simp only [Issuer.generateBatch, Call.Batch.result, halted] at patient
        exact patient rfl
      let alone : SharedIssuer := { issuer := ⟨config, some g⟩ }
      obtain ⟨readings, more, issued, polls⟩ :=
        exists_polls_batch (alone.batchOf?_putBatch ⟨caller, count + 1, []⟩) rfl halt
      rw [closeBatch_putBatch alone ⟨caller, count + 1, []⟩] at polls
      refine ⟨readings, ?_⟩
      have opened : alone.move (.openBatch caller (count + 1)) =
          ([], (alone.putBatch ⟨caller, count + 1, []⟩).withGenerator g) := rfl
      rw [run_cons, opened, polls]
      rw [List.reverse_nil, List.nil_append] at issued
      simp only [Issuer.generateBatch, Call.batch, issued]
      rfl

end SharedIssuer
end Tickstamp
