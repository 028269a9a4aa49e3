import Tickstamp.Proofs.Issue.Agreement
import Tickstamp.Proofs.Issue.Calls

/-!
# Going on after the last stamp

The fields of the last stamp are all that a generator remembers, whatever
happened before that stamp or was answered after it. So a generator that is
restored from them is the one that issued it. A run without a stamp leaves
nothing to restore from, and a poisoned lock is not restored.
-/

namespace Tickstamp

/-- The progress of a generator whose last stamp this is. -/
def Layout.progressOf (l : Layout) (s : Stamp) : Progress :=
  .issued (l.decode s).timestamp (l.decode s).sequence

theorem Rules.progress_of_commit {r : Rules} {p next : Progress} {now : UInt64} {stamp : Stamp}
    (h : r.respond p now = .ok (.commit next stamp)) : next = r.layout.progressOf stamp := by
  obtain ⟨sequence, _, fits, rfl, rfl⟩ := (respond_eq_commit_iff ..).mp h
  rw [Layout.progressOf, Layout.decode_pack fits]

namespace LockedGenerator

theorem attempt_progress (g : LockedGenerator) (reading : Reading) :
    (g.attempt reading).2.progress =
      ((g.attempt reading).1.stamp?.map g.rules.layout.progressOf).getD g.progress := by
  rcases g.attempt_cases reading with ⟨now, next, stamp, _, _, response, commit⟩ | ⟨none, _, same⟩
  · rw [commit]
    exact Rules.progress_of_commit response
  · rw [none, same]
    rfl

/-- The progress after a history is that of its last stamp, if there is one. -/
theorem after_progress (g : LockedGenerator) (readings : List Reading) :
    (g.after readings).progress =
      ((Answer.stamps (g.answers readings)).getLast?.map g.rules.layout.progressOf).getD
        g.progress := by
  induction readings generalizing g with
  | nil => rfl
  | cons reading rest ih =>
    rw [after_cons, ih, attempt_rules, attempt_progress, answers_cons, Answer.stamps_cons,
      List.getLast?_append]
    cases (Answer.stamps ((g.attempt reading).2.answers rest)).getLast? with
    | some last => rfl
    | none => cases (g.attempt reading).1.stamp? <;> rfl

end LockedGenerator

theorem WordGenerator.Mirrors.history {w : WordGenerator} {g : LockedGenerator}
    (h : w.Mirrors g) (readings : List UInt64) :
    w.answers (readings.map .shows) = g.answers (readings.map .shows) ∧
      (w.after (readings.map .shows)).Mirrors (g.after (readings.map .shows)) :=
  history_agree (fun _ _ now related => related.offer now) h readings

theorem WordGenerator.Mirrors.answers_shows {w : WordGenerator} {g : LockedGenerator}
    (h : w.Mirrors g) (readings : List UInt64) :
    w.answers (readings.map .shows) = g.rules.answers g.progress readings :=
  (h.history readings).1.trans (LockedGenerator.answers_shows h.sound readings)

/-- Generators of both kinds can go on after this stamp. They answer later readings as `onward`
does, and all that they issue is greater than the stamp. -/
structure GoesOn (c : Config) (worker : Int) (last : Stamp) (onward : List UInt64 → List Answer) :
    Prop where
  locked : ∃ g, LockedGenerator.restore c worker (c.layout.decode last).timestamp
      (c.layout.decode last).sequence = .ok g ∧
    ∀ later : List UInt64, g.answers (later.map .shows) = onward later
  word : ∃ w, WordGenerator.restore c worker (c.layout.decode last).timestamp
      (c.layout.decode last).sequence = .ok w ∧
    ∀ later : List UInt64, w.answers (later.map .shows) = onward later
  above : ∀ later, ∀ s ∈ Answer.stamps (onward later), last < s

theorem LockedGenerator.startAt_progressOf {c : Config} {worker : Int} {start : Progress}
    {g : LockedGenerator} (begun : startAt c worker start = .ok g) {readings : List Reading}
    (sound : (g.after readings).poisoned = false) {last : Stamp}
    (issued : (Answer.stamps (g.answers readings)).getLast? = some last) :
    startAt c worker (c.layout.progressOf last) = .ok (g.after readings) := by
  obtain ⟨r, accepted, _, rfl⟩ := (startAt_eq_ok_iff ..).mp begun
  have layout : r.layout = c.layout := Rules.layout_eq accepted
  have progress := after_progress ⟨r, start, false⟩ readings
  rw [issued] at progress
  obtain ⟨p, now, next, response⟩ := committed_of_mem_answers (List.mem_of_getLast? issued)
  obtain rfl := Rules.progress_of_commit response
  rw [← layout]
  refine (startAt_eq_ok_iff ..).mpr ⟨r, accepted, Rules.within_of_commit response, ?_⟩
  have rules := after_rules ⟨r, start, false⟩ readings
  generalize after ⟨r, start, false⟩ readings = final at sound progress rules ⊢
  cases final
  cases sound
  cases progress
  cases rules
  rfl

theorem LockedGenerator.lt_of_mem_later {g : LockedGenerator} {readings later : List Reading}
    {last : Stamp} (issued : (Answer.stamps (g.answers readings)).getLast? = some last) :
    ∀ s ∈ Answer.stamps ((g.after readings).answers later), last < s := by
  intro s hs
  have climb := g.history_climb (readings ++ later)
  rw [answers_append, Answer.stamps_append] at climb
  exact (List.pairwise_append.mp climb.increasing).2.2 last (List.mem_of_getLast? issued) s hs

/-- After a run of a locked generator, both kinds go on from its last stamp. -/
theorem LockedGenerator.goesOn {c : Config} {worker : Int} {start : Progress}
    {g : LockedGenerator} (begun : startAt c worker start = .ok g) {readings : List UInt64}
    {last : Stamp}
    (issued : (Answer.stamps (g.answers (readings.map .shows))).getLast? = some last) :
    GoesOn c worker last fun later => (g.after (readings.map .shows)).answers (later.map .shows) := by
  have sound : (g.after (readings.map .shows)).poisoned = false := by
    obtain ⟨_, _, within, rfl⟩ := (startAt_eq_ok_iff ..).mp begun
    have mirrors : (WordGenerator.resume _ start).Mirrors ⟨_, start, false⟩ := ⟨rfl, within, rfl⟩
    exact (mirrors.history readings).2.sound
  have restored := startAt_progressOf begun sound issued
  have made := WordGenerator.startAt_eq_map c worker (c.layout.progressOf last)
  rw [restored] at made
  obtain ⟨g', same, mirrors⟩ := WordGenerator.mirrors_of_startAt made
  obtain rfl : g.after (readings.map .shows) = g' := Except.ok.inj (restored.symm.trans same)
  refine ⟨⟨_, restored, fun _ => rfl⟩, ⟨_, made, ?_⟩, ?_⟩
  · intro later
    exact (mirrors.history later).1
  · intro later
    exact lt_of_mem_later issued

/-- After any run of polls that nobody overtakes and no clock cuts short, a generator of either
kind can be restored from the fields of the last stamp alone, as a generator of either kind. It
answers all further readings as the one that issued the stamp would, and never with a stamp that
is not greater. -/
theorem restart_seamless (c : Config) (worker : Int) (start : Progress) :
    (∀ g, LockedGenerator.startAt c worker start = .ok g → ∀ (readings : List UInt64) (last : Stamp),
      (Answer.stamps (g.answers (readings.map .shows))).getLast? = some last →
        GoesOn c worker last fun later =>
          (g.after (readings.map .shows)).answers (later.map .shows)) ∧
    ∀ w, WordGenerator.startAt c worker start = .ok w → ∀ (readings : List UInt64) (last : Stamp),
      (Answer.stamps (w.answers (readings.map .shows))).getLast? = some last →
        GoesOn c worker last fun later =>
          (w.after (readings.map .shows)).answers (later.map .shows) := by
  constructor
  · intro g begun readings last issued
    exact LockedGenerator.goesOn begun issued
  · intro w begun readings last issued
    obtain ⟨g, locked, mirrors⟩ := WordGenerator.mirrors_of_startAt begun
    obtain ⟨answers, after⟩ := mirrors.history readings
    rw [answers] at issued
    have onward : (fun later : List UInt64 =>
        (w.after (readings.map .shows)).answers (later.map .shows)) =
        fun later => (g.after (readings.map .shows)).answers (later.map .shows) :=
      funext fun later => (after.history later).1
    rw [onward]
    exact LockedGenerator.goesOn locked issued

/-- The last stamp is followed by a reading beyond the layout and one before its tick; the generator
that is restored from it finds the tick used up. -/
theorem restart_seamless_in_full_tick :
    ∃ w, WordGenerator.startAt {} 7 (.issued 5 4094) = .ok w ∧
      (Answer.stamps (w.answers [.shows 5, .shows 0x20000000000, .shows 4])).getLast? =
        some ⟨21004287⟩ ∧
      ∃ g, LockedGenerator.restore {} 7 5 4095 = .ok g ∧
        g.answers [.shows 5, .shows 6] = [.pending 1, .ready ⟨25194496⟩] ∧
        (w.after [.shows 5, .shows 0x20000000000, .shows 4]).answers [.shows 5, .shows 6] =
          [.pending 1, .ready ⟨25194496⟩] := by
  have begun : WordGenerator.startAt {} 7 (.issued 5 4094) = .ok _ := rfl
  obtain ⟨⟨g, restored, answers⟩, _, _⟩ :=
    (restart_seamless {} 7 (.issued 5 4094)).2 _ begun [5, 0x20000000000, 4] ⟨21004287⟩ rfl
  refine ⟨_, begun, rfl, g, restored, ?_, rfl⟩
  exact (answers [5, 6]).trans rfl

end Tickstamp
