import Tickstamp.Proofs.Issue.Contest
import Tickstamp.Proofs.Issue.Linearization
import Tickstamp.Proofs.Issue.Outcome

/-!
# Races for the word

Polls that have loaded the same word race for it if they decide to commit. A
poll loses exactly if another swap has come between its load and its own, and
of those that race for a word the first to swap wins. Both rest on the word,
which only ever becomes larger, so nobody loads a word again that a swap has
left behind. How long a loser goes on trying is not considered.
-/

namespace Tickstamp

namespace PollRecord

/-- The poll has decided to commit, and so has come to its swap. -/
def Contends (r : Rules) (poll : PollRecord) : Prop :=
  ∃ next stamp, WordGenerator.decision r poll.loaded poll.now = .ok (.commit next stamp)

/-- The swap of the poll has succeeded. -/
def Wins (poll : PollRecord) : Prop :=
  ∃ stamp, poll.answer = .ready stamp

end PollRecord

/-- The caller that makes the move. -/
def PollMove.caller : PollMove → Nat
  | .load caller | .read caller _ | .conclude caller => caller

/-- The word that a poll under way has loaded. -/
def Stage.word? : Stage → Option UInt64
  | .idle => none
  | .loaded word | .timed word _ => some word

/-- A poll that has come to its end. -/
structure Bout where
  poll : PollRecord
  /-- The polls that have come to their ends since this one loaded its word. -/
  meanwhile : List PollRecord

namespace WordGenerator

theorem conclude_eq_pending_zero_iff (w : WordGenerator) (loaded now : UInt64) :
    (w.conclude loaded now).1 = .pending 0 ↔
      (∃ next stamp, decision w.rules loaded now = .ok (.commit next stamp)) ∧
        w.word ≠ loaded := by
  have nonzero : decision w.rules loaded now ≠ .ok (.wait 0) :=
    w.rules.respond_ne_wait_zero _ now
  cases decided : decision w.rules loaded now with
  | error fault => simp [conclude, decided]
  | ok response =>
    cases response with
    | commit next stamp => by_cases present : w.word = loaded <;> simp [conclude, decided, present]
    | wait millis =>
      have positive : millis ≠ 0 := by
        rintro rfl
        exact nonzero decided
      simp [conclude, decided, positive]

theorem conclude_eq_ready_iff (w : WordGenerator) (loaded now : UInt64) :
    (∃ stamp, (w.conclude loaded now).1 = .ready stamp) ↔
      (∃ next stamp, decision w.rules loaded now = .ok (.commit next stamp)) ∧
        w.word = loaded := by
  cases decided : decision w.rules loaded now with
  | error fault => simp [conclude, decided]
  | ok response =>
    cases response with
    | commit next stamp => by_cases present : w.word = loaded <;> simp [conclude, decided, present]
    | wait millis => simp [conclude, decided]

end WordGenerator
namespace Arena

/-- The polls that have come to their ends since each caller loaded its word, after one move. -/
def since (a : Arena) (meanwhile : Nat → List PollRecord) (m : PollMove) :
    Nat → List PollRecord :=
  fun caller =>
    if m = .load caller ∧ a.stage caller = .idle then []
    else meanwhile caller ++ (a.move m).1.toList

/-- The polls of an interleaving in the order of their ends, each with those that came to their
ends between its load and its end. -/
def bouts (a : Arena) (meanwhile : Nat → List PollRecord) : List PollMove → List Bout
  | [] => []
  | m :: rest =>
    ((a.move m).1.map fun poll => ⟨poll, meanwhile poll.caller⟩).toList ++
      (a.move m).2.bouts (a.since meanwhile m) rest

theorem map_poll_bouts (a : Arena) (meanwhile : Nat → List PollRecord) (moves : List PollMove) :
    (a.bouts meanwhile moves).map Bout.poll = (a.run moves).1 := by
  induction moves generalizing a meanwhile with
  | nil => rfl
  | cons m rest ih =>
    rw [bouts, run_cons, List.map_append, ih]
    cases (a.move m).1 <;> rfl

theorem move_record {a : Arena} {m : PollMove} {poll : PollRecord} (h : (a.move m).1 = some poll) :
    a.stage poll.caller = .timed poll.loaded poll.now ∧
      (a.generator.conclude poll.loaded poll.now).1 = poll.answer := by
  cases m with
  | load caller => cases stage : a.stage caller <;> simp [move, stage] at h
  | read caller reading =>
    cases reading <;> cases stage : a.stage caller <;> simp [move, stage] at h
  | conclude caller =>
    cases stage : a.stage caller with
    | idle => simp [move, stage] at h
    | loaded word => simp [move, stage] at h
    | timed word now =>
      simp only [move, stage, Option.some.injEq] at h
      subst h
      exact ⟨stage, rfl⟩

theorem move_of_ne {a : Arena} {m : PollMove} {caller : Nat} (other : caller ≠ m.caller) :
    (a.move m).2.stage caller = a.stage caller ∧
      ∀ poll ∈ (a.move m).1, poll.caller ≠ caller := by
  cases m with
  | load mover =>
    have apart : caller ≠ mover := other
    cases stage : a.stage mover <;> simp [move, stage, apart]
  | read mover reading =>
    have apart : caller ≠ mover := other
    cases stage : a.stage mover <;> cases reading <;> simp [move, stage, apart]
  | conclude mover =>
    have apart : caller ≠ mover := other
    cases stage : a.stage mover <;> simp [move, stage, apart, apart.symm]

/-- After its own move a caller under way has just loaded the present word, or still goes by the
word that it has loaded before. -/
theorem move_word?_of_eq {a : Arena} {m : PollMove} {caller : Nat} {word : UInt64}
    (own : caller = m.caller) (h : ((a.move m).2.stage caller).word? = some word) :
    ((m = .load caller ∧ a.stage caller = .idle) ∧ word = a.generator.word) ∨
      (¬ (m = .load caller ∧ a.stage caller = .idle) ∧ (a.stage caller).word? = some word ∧
        (a.move m).1 = none) := by
  cases m with
  | load mover =>
    obtain rfl : caller = mover := own
    cases stage : a.stage caller with
    | idle =>
      simp only [move, stage, setStage_stage, if_pos, Stage.word?, Option.some.injEq] at h
      exact Or.inl ⟨⟨rfl, rfl⟩, h.symm⟩
    | loaded | timed => simp_all [move]
  | read mover reading =>
    obtain rfl : caller = mover := own
    cases stage : a.stage caller <;> cases reading <;> simp_all [move, Stage.word?]
  | conclude mover =>
    obtain rfl : caller = mover := own
    cases stage : a.stage caller <;> simp_all [move, Stage.word?]

theorem move_word? {a : Arena} {m : PollMove} {caller : Nat} {word : UInt64}
    (h : ((a.move m).2.stage caller).word? = some word) :
    ((m = .load caller ∧ a.stage caller = .idle) ∧ word = a.generator.word) ∨
      (¬ (m = .load caller ∧ a.stage caller = .idle) ∧ (a.stage caller).word? = some word ∧
        ∀ poll ∈ (a.move m).1, poll.caller ≠ caller) := by
  by_cases own : caller = m.caller
  · rcases move_word?_of_eq own h with load | ⟨noLoad, before, nothing⟩
    · exact Or.inl load
    · exact Or.inr ⟨noLoad, before, by simp [nothing]⟩
  · obtain ⟨same, others⟩ := move_of_ne own
    rw [same] at h
    refine Or.inr ⟨?_, h, others⟩
    rintro ⟨rfl, _⟩
    exact own rfl

/-- The word after some polls have ended: none of them has won and the word is still there, or one
that loaded it has won and it has become larger. -/
def Change (present next : UInt64) (ended : List PollRecord) : Prop :=
  (next = present ∧ ∀ poll ∈ ended, ¬ poll.Wins) ∨
    (present < next ∧ ∃ poll ∈ ended, poll.Wins ∧ poll.loaded = present)

theorem Change.append {first second third : UInt64} {earlier later : List PollRecord}
    (h : Change first second earlier) (h' : Change second third later) :
    Change first third (earlier ++ later) := by
  rcases h with ⟨rfl, none⟩ | ⟨larger, poll, ended, wins, loaded⟩
  · rcases h' with ⟨rfl, none'⟩ | ⟨larger, poll, ended, wins, loaded⟩
    · refine Or.inl ⟨rfl, ?_⟩
      intro poll ended
      exact (List.mem_append.mp ended).elim (none poll) (none' poll)
    · exact Or.inr ⟨larger, poll, List.mem_append_right _ ended, wins, loaded⟩
  · have still : second ≤ third := by
      rcases h' with ⟨rfl, _⟩ | ⟨larger', _⟩
      · exact UInt64.le_refl _
      · exact UInt64.le_of_lt larger'
    exact Or.inr ⟨UInt64.lt_of_lt_of_le larger still, poll, List.mem_append_left _ ended, wins,
      loaded⟩

theorem move_change {a : Arena} {g : LockedGenerator} (h : a.generator.Mirrors g) (m : PollMove) :
    (∃ g', (a.move m).2.generator.Mirrors g') ∧
      Change a.generator.word (a.move m).2.generator.word (a.move m).1.toList := by
  rcases a.move_cases m with ⟨caller, now, next, stamp, decided, record, swapped⟩ | ⟨same, silent⟩
  · have larger : a.generator.word < next.pack a.generator.rules.layout.sequenceBits := by
      have response := (h.decision_eq now).symm.trans decided
      have word : a.generator.word = g.progress.pack g.rules.layout.sequenceBits :=
        congrArg WordGenerator.word h.resumed
      rw [word, h.rules]
      exact Progress.pack_lt_of_commit h.within response
    rw [swapped, record]
    exact ⟨⟨_, (h.commit decided).2⟩,
      Or.inr ⟨larger, _, List.mem_singleton_self _, ⟨stamp, rfl⟩, rfl⟩⟩
  · rw [same]
    refine ⟨⟨g, h⟩, Or.inl ⟨rfl, ?_⟩⟩
    rintro poll ended ⟨stamp, ready⟩
    have none := silent poll (Option.mem_toList.mp ended)
    rw [ready] at none
    cases none

/-- What is known of a caller under way that has loaded this word. -/
structure Watched (present word : UInt64) (caller : Nat) (past meanwhile : List PollRecord) :
    Prop where
  others : ∀ poll ∈ meanwhile, poll.caller ≠ caller
  recent : ∀ poll ∈ meanwhile, poll ∈ past
  change : Change word present meanwhile

/-- An arena with the polls that have ended, and for each caller those that have ended since its
load. -/
structure Overseen (a : Arena) (past : List PollRecord) (meanwhile : Nat → List PollRecord) :
    Prop where
  mirrored : ∃ g, a.generator.Mirrors g
  /-- Every swap has left the word that it replaced behind for good. -/
  left : ∀ poll ∈ past, poll.Wins → poll.loaded < a.generator.word
  watched : ∀ caller word, (a.stage caller).word? = some word →
    Watched a.generator.word word caller past (meanwhile caller)

theorem overseen_start {w : WordGenerator} {g : LockedGenerator} (h : w.Mirrors g) :
    Overseen { generator := w } [] fun _ => [] := by
  refine ⟨⟨g, h⟩, by simp, ?_⟩
  rintro caller word ⟨⟩

theorem Overseen.move {a : Arena} {past : List PollRecord} {meanwhile : Nat → List PollRecord}
    (h : a.Overseen past meanwhile) (m : PollMove) :
    (a.move m).2.Overseen (past ++ (a.move m).1.toList) (a.since meanwhile m) := by
  obtain ⟨g, mirrors⟩ := h.mirrored
  obtain ⟨mirrored, change⟩ := move_change mirrors m
  refine ⟨mirrored, ?_, ?_⟩
  · intro poll ended wins
    rcases change with ⟨same, none⟩ | ⟨larger, winner, record, _, loaded⟩
    · rw [same]
      rcases List.mem_append.mp ended with before | now
      · exact h.left poll before wins
      · exact absurd wins (none poll now)
    · rcases List.mem_append.mp ended with before | now
      · exact UInt64.lt_trans (h.left poll before wins) larger
      · rw [Option.mem_toList] at now record
        rw [Option.mem_unique now record, loaded]
        exact larger
  · intro caller word underway
    rcases move_word? underway with ⟨load, rfl⟩ | ⟨noLoad, before, others⟩
    · have nothing : (a.move m).2.generator = a.generator := by
        rw [load.1]
        simp [Arena.move, load.2, setStage]
      rw [since, if_pos load, nothing]
      exact ⟨by simp, by simp, Or.inl ⟨rfl, by simp⟩⟩
    · have watched := h.watched caller word before
      rw [since, if_neg noLoad]
      refine ⟨?_, ?_, watched.change.append change⟩
      · intro poll ended
        rcases List.mem_append.mp ended with before | now
        · exact watched.others poll before
        · exact others poll (Option.mem_toList.mp now)
      · intro poll ended
        rcases List.mem_append.mp ended with before | now
        · exact List.mem_append_left _ (watched.recent poll before)
        · exact List.mem_append_right _ now

/-- What a poll has come to, after these have ended before it. -/
structure Settled (r : Rules) (past : List PollRecord) (b : Bout) : Prop where
  /-- It is told to try again at once exactly if it was about to commit and another poll has
  swapped since its load. -/
  lost : b.poll.answer = .pending 0 ↔ b.poll.Contends r ∧
    ∃ other ∈ b.meanwhile, other.caller ≠ b.poll.caller ∧ other.Wins
  /-- It wins exactly if it was about to commit and no poll that loaded its word has won before. -/
  won : b.poll.Wins ↔ b.poll.Contends r ∧
    ∀ other ∈ past, other.Wins → other.loaded ≠ b.poll.loaded

theorem Overseen.settled {a : Arena} {past : List PollRecord} {meanwhile : Nat → List PollRecord}
    (h : a.Overseen past meanwhile) {m : PollMove} {poll : PollRecord}
    (ended : (a.move m).1 = some poll) :
    Settled a.generator.rules past ⟨poll, meanwhile poll.caller⟩ := by
  obtain ⟨stage, answer⟩ := move_record ended
  have watched := h.watched poll.caller poll.loaded (by rw [stage]; rfl)
  have loses := a.generator.conclude_eq_pending_zero_iff poll.loaded poll.now
  have wins := a.generator.conclude_eq_ready_iff poll.loaded poll.now
  rw [answer] at loses wins
  rcases watched.change with ⟨same, none⟩ | ⟨larger, winner, seen, swapped, loaded⟩
  · constructor
    · refine loses.trans (and_congr_right' ?_)
      constructor
      · intro changed
        exact absurd same changed
      · rintro ⟨other, seen, _, swapped⟩
        exact absurd swapped (none other seen)
    · refine wins.trans (and_congr_right' ?_)
      refine ⟨?_, fun _ => same⟩
      intro _ other before swapped
      rw [← same]
      exact UInt64.ne_of_lt (h.left other before swapped)
  · have changed := UInt64.ne_of_lt larger
    constructor
    · refine loses.trans (and_congr_right' ?_)
      refine ⟨?_, fun _ => changed.symm⟩
      intro _
      exact ⟨winner, seen, watched.others winner seen, swapped⟩
    · refine wins.trans (and_congr_right' ?_)
      constructor
      · intro same
        exact absurd same.symm changed
      · intro none
        exact absurd loaded (none winner (watched.recent winner seen) swapped)

theorem move_rules (a : Arena) (m : PollMove) :
    (a.move m).2.generator.rules = a.generator.rules := by
  rcases a.move_cases m with ⟨_, _, _, _, _, _, swapped⟩ | ⟨same, _⟩
  · rw [swapped]
  · rw [same]

theorem Overseen.bouts_settled {a : Arena} {past : List PollRecord}
    {meanwhile : Nat → List PollRecord} (h : a.Overseen past meanwhile) {moves : List PollMove}
    {before after : List Bout} {b : Bout} (split : a.bouts meanwhile moves = before ++ b :: after) :
    Settled a.generator.rules (past ++ before.map Bout.poll) b := by
  induction moves generalizing a past meanwhile before with
  | nil => simp [bouts] at split
  | cons m rest ih =>
    have later := h.move m
    rw [bouts] at split
    cases ended : (a.move m).1 with
    | none =>
      rw [ended] at split later
      have settled := ih later split
      rwa [move_rules, Option.toList_none, List.append_nil] at settled
    | some poll =>
      rw [ended] at split later
      rcases List.cons_eq_append_iff.mp split with ⟨rfl, first⟩ | ⟨others, rfl, remaining⟩
      · obtain ⟨rfl, _⟩ := List.cons.inj first
        simpa using h.settled ended
      · have settled := ih later remaining
        rwa [move_rules, List.append_assoc] at settled

end Arena

/-- If every poll wins exactly when it contends and no earlier winner has loaded its word, then of
the polls that loaded one word the first to contend wins, and it alone. -/
theorem PollRecord.first_wins {r : Rules} {records : List PollRecord}
    (settled : ∀ before poll after, records = before ++ poll :: after →
      (poll.Wins ↔ poll.Contends r ∧ ∀ other ∈ before, other.Wins → other.loaded ≠ poll.loaded))
    {word : UInt64} (contended : ∃ poll ∈ records, poll.loaded = word ∧ poll.Contends r) :
    ∃ before first after, records = before ++ first :: after ∧
      first.loaded = word ∧ first.Contends r ∧ first.Wins ∧
        (∀ poll ∈ before, poll.loaded = word → ¬ poll.Contends r) ∧
        ∀ poll ∈ before ++ after, poll.loaded = word → ¬ poll.Wins := by
  classical
  obtain ⟨poll, ended, candidate⟩ := contended
  let first? := records.find? fun poll => poll.loaded = word ∧ poll.Contends r
  have found : first?.isSome := by
    rw [List.find?_isSome]
    exact ⟨poll, ended, decide_eq_true candidate⟩
  obtain ⟨first, isFirst⟩ := Option.isSome_iff_exists.mp found
  obtain ⟨holds, before, after, split, none⟩ := List.find?_eq_some_iff_append.mp isFirst
  obtain ⟨rfl, contends⟩ := of_decide_eq_true holds
  have idle : ∀ poll ∈ before, poll.loaded = first.loaded → ¬ poll.Contends r := by
    intro poll earlier loaded contends
    simpa [loaded, contends] using none poll earlier
  have earlier : ∀ poll ∈ before, poll.loaded = first.loaded → ¬ poll.Wins := by
    intro poll member loaded wins
    obtain ⟨front, back, rfl⟩ := List.append_of_mem member
    have place : records = front ++ poll :: (back ++ first :: after) := by
      rw [split, List.append_assoc, List.cons_append]
    exact idle poll member loaded ((settled _ _ _ place).mp wins).1
  have wins : first.Wins := by
    refine (settled _ _ _ split).mpr ⟨contends, ?_⟩
    intro other member wins loaded
    exact earlier other member loaded wins
  refine ⟨before, first, after, split, rfl, contends, wins, idle, ?_⟩
  intro poll member loaded winsToo
  rcases List.mem_append.mp member with member | member
  · exact earlier poll member loaded winsToo
  · obtain ⟨front, back, rfl⟩ := List.append_of_mem member
    have place : records = (before ++ first :: front) ++ poll :: back := by
      rw [split, List.append_assoc, List.cons_append]
    have inFront : first ∈ before ++ first :: front :=
      List.mem_append_right _ (List.mem_cons_self ..)
    exact ((settled _ _ _ place).mp winsToo).2 first inFront wins loaded.symm

namespace Arena

/-- However polls of one word generator interleave, a poll is told to try again at once exactly if
it was about to commit and another poll has swapped between its load and its own swap; and of the
polls that loaded a word, if any comes to its swap, the first to do so is the only one that wins. -/
theorem races_decided {c : Config} {worker : Int} {start : Progress} {w : WordGenerator}
    (started : WordGenerator.startAt c worker start = .ok w) (moves : List PollMove) :
    let records := (run { generator := w } moves).1
    let bouts := bouts { generator := w } (fun _ => []) moves
    bouts.map Bout.poll = records ∧
    (∀ b ∈ bouts, b.poll.answer = .pending 0 ↔ b.poll.Contends w.rules ∧
      ∃ other ∈ b.meanwhile, other.caller ≠ b.poll.caller ∧ other.Wins) ∧
    ∀ word, (∃ poll ∈ records, poll.loaded = word ∧ poll.Contends w.rules) →
      ∃ before first after, records = before ++ first :: after ∧
        first.loaded = word ∧ first.Contends w.rules ∧ first.Wins ∧
          (∀ poll ∈ before, poll.loaded = word → ¬ poll.Contends w.rules) ∧
          ∀ poll ∈ before ++ after, poll.loaded = word → ¬ poll.Wins := by
  intro records bouts
  obtain ⟨_, _, mirrors⟩ := WordGenerator.mirrors_of_startAt started
  have overseen := overseen_start mirrors
  have polls : bouts.map Bout.poll = records := map_poll_bouts ..
  refine ⟨polls, ?_, ?_⟩
  · intro b member
    obtain ⟨before, after, split⟩ := List.append_of_mem member
    exact (overseen.bouts_settled split).lost
  · intro word contended
    refine PollRecord.first_wins ?_ contended
    intro before poll after split
    rw [← polls] at split
    obtain ⟨earlier, rest, whole, rfl, tail⟩ := List.map_eq_append_iff.mp split
    obtain ⟨b, later, rfl, rfl, _⟩ := List.map_eq_cons_iff.mp tail
    exact (overseen.bouts_settled whole).won

/-- Three callers have loaded the same word. The last of them swaps first, the second has read a
tick that is used up, and the first has lost the race. -/
theorem races_decided_among_three :
    ∃ w, WordGenerator.startAt {} 7 (.issued 5 4095) = .ok w ∧
      let records := (run { generator := w } [.load 0, .load 1, .load 2, .read 0 (.shows 6),
        .read 1 (.shows 5), .read 2 (.shows 7), .conclude 2, .conclude 1, .conclude 0]).1
      records.map PollRecord.answer = [.ready ⟨29388800⟩, .pending 1, .pending 0] ∧
        ∃ before first after, records = before ++ first :: after ∧
          first.loaded = w.word ∧ first.Wins ∧
            ∀ poll ∈ before ++ after, poll.loaded = w.word → ¬ poll.Wins := by
  have started : WordGenerator.startAt {} 7 (.issued 5 4095) = .ok _ := rfl
  refine ⟨_, started, by decide, ?_⟩
  obtain ⟨_, _, decided⟩ := races_decided started [.load 0, .load 1, .load 2, .read 0 (.shows 6),
    .read 1 (.shows 5), .read 2 (.shows 7), .conclude 2, .conclude 1, .conclude 0]
  obtain ⟨before, first, after, split, loaded, _, wins, _, alone⟩ :=
    decided _ ⟨_, List.mem_cons_self .., rfl, .issued 7 0, ⟨29388800⟩, rfl⟩
  exact ⟨before, first, after, split, loaded, wins, alone⟩

end Arena
end Tickstamp
