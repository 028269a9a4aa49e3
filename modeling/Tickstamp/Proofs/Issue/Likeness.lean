import Tickstamp.Issue.Call
import Tickstamp.Issue.Interleaving
import Tickstamp.Proofs.Issue.Agreement
import Tickstamp.Proofs.Issue.Threshold

/-!
# Generators that are alike

The rules of issue look at a way to carry the sequence over only through its
threshold. So rules that write the same threshold in two ways respond alike, and
generators under them that stand alike answer alike and stay so, polled one after
the other or all at once. Whether they are made at all is settled by validation,
which has to treat both ways alike.
-/

namespace Tickstamp

/-- Two results that are the same fault, or values that are related. -/
inductive Fault.Agree {α β : Type} (related : α → β → Prop) :
    Except Fault α → Except Fault β → Prop where
  | refused (fault : Fault) : Agree related (.error fault) (.error fault)
  | made {a : α} {b : β} (alike : related a b) : Agree related (.ok a) (.ok b)

namespace Fault

variable {α β γ δ : Type} {related : α → β → Prop} {x : Except Fault α} {y : Except Fault β}

theorem agree_self (x : Except Fault α) : Agree Eq x x := by
  cases x with
  | error fault => exact .refused fault
  | ok a => exact .made rfl

theorem Agree.bind {further : γ → δ → Prop} {f : α → Except Fault γ} {g : β → Except Fault δ}
    (first : Agree related x y) (next : ∀ a b, related a b → Agree further (f a) (g b)) :
    Agree further (x >>= f) (y >>= g) := by
  cases first with
  | refused fault => exact .refused fault
  | made alike => exact next _ _ alike

theorem Agree.map {further : γ → δ → Prop} {f : α → γ} {g : β → δ}
    (agree : Agree related x y) (next : ∀ a b, related a b → further (f a) (g b)) :
    Agree further (x.map f) (y.map g) := by
  cases agree with
  | refused fault => exact .refused fault
  | made alike => exact .made (next _ _ alike)

/-- What cannot tell related values apart cannot tell the results apart. -/
theorem Agree.map_eq {f : α → γ} {g : β → γ} (agree : Agree related x y)
    (same : ∀ a b, related a b → f a = g b) : x.map f = y.map g := by
  cases agree with
  | refused fault => rfl
  | made alike => exact congrArg Except.ok (same _ _ alike)

end Fault

/-- Settings that validation treats alike, and that come to the same threshold. -/
structure CarryOver.Like (l : Layout) (a b : CarryOver) : Prop where
  validate : a.validate l = b.validate l
  threshold : a.threshold l = b.threshold l

/-- Configurations that differ at most in how they carry the sequence over. -/
inductive Config.Like (c : Config) : Config → Prop where
  | swap {other : CarryOver} (alike : c.carryOver.Like c.layout other) :
    Like c { c with carryOver := other }

/-- Rules that differ at most in how they write their threshold. -/
inductive Rules.Like (r : Rules) : Rules → Prop where
  | swap {other : CarryOver}
    (same : r.carryOver.threshold r.layout = other.threshold r.layout) :
    Like r { r with carryOver := other }

theorem Config.Like.validate_eq {c d : Config} (alike : c.Like d) : c.validate = d.validate := by
  cases alike with
  | swap alike =>
    rw [validate, validate, alike.validate]
    rfl

theorem Config.Like.layout_eq {c d : Config} (alike : c.Like d) : c.layout = d.layout := by
  cases alike with
  | swap alike => rfl

theorem Config.Like.asString_eq {c d : Config} (alike : c.Like d) : c.asString = d.asString := by
  cases alike with
  | swap alike => rfl

theorem Config.Like.originOf_eq {c d : Config} (alike : c.Like d) : c.originOf = d.originOf := by
  cases alike with
  | swap alike => rfl

theorem Progress.advance_congr {l : Layout} {a b : CarryOver}
    (same : a.threshold l = b.threshold l) (p : Progress) (now : UInt64) :
    p.advance now l.maxSequence a = p.advance now l.maxSequence b := by
  cases p with
  | fresh => rfl
  | issued timestamp sequence => simp only [advance, CarryOver.start_congr same]

namespace Rules

variable {r s : Rules}

theorem Like.respond_eq (alike : r.Like s) (p : Progress) (now : UInt64) :
    r.respond p now = s.respond p now := by
  cases alike with
  | swap same => simp only [respond, Progress.advance_congr same]

theorem Like.layout_eq (alike : r.Like s) : r.layout = s.layout := by
  cases alike with
  | swap same => rfl

theorem Like.machine_eq (alike : r.Like s) : r.machine = s.machine := by
  cases alike with
  | swap same => rfl

theorem Like.restore_eq (alike : r.Like s) (timestamp sequence : UInt64) :
    r.restore timestamp sequence = s.restore timestamp sequence := by
  cases alike with
  | swap same => rfl

theorem agree_ofConfig {c d : Config} (alike : c.Like d) (worker : Int) :
    Fault.Agree Like (ofConfig c worker) (ofConfig d worker) := by
  rw [ofConfig, ofConfig, alike.validate_eq]
  cases alike with
  | swap alike =>
    refine (Fault.agree_self _).bind ?_
    rintro _ _ rfl
    refine (Fault.agree_self _).bind ?_
    rintro machine _ rfl
    exact .made (.swap alike.threshold)

end Rules
namespace LockedGenerator

/-- Generators that stand alike under rules that are alike. -/
inductive Like : LockedGenerator → LockedGenerator → Prop where
  | swap {r s : Rules} (rules : r.Like s) (progress : Progress) (poisoned : Bool) :
    Like ⟨r, progress, poisoned⟩ ⟨s, progress, poisoned⟩

variable {g h : LockedGenerator}

theorem Like.attempt (alike : g.Like h) (reading : Reading) :
    (g.attempt reading).1 = (h.attempt reading).1 ∧
      (g.attempt reading).2.Like (h.attempt reading).2 := by
  cases alike with
  | swap rules progress poisoned =>
    cases poisoned with
    | true => exact ⟨rfl, .swap rules progress true⟩
    | false =>
      cases reading with
      | breaksDown => exact ⟨rfl, .swap rules progress true⟩
      | shows now =>
        rw [attempt_shows rfl, attempt_shows rfl, rules.respond_eq]
        exact ⟨rfl, .swap rules _ false⟩

theorem Like.answers_eq (alike : g.Like h) (readings : List Reading) :
    g.answers readings = h.answers readings :=
  (history_related (fun reading _ _ _ alike => alike.attempt reading) alike).1

/-- Generators that are alike are made, or refused with the same fault, from the same progress. -/
theorem agree_startAt {c d : Config} (alike : c.Like d) (worker : Int) (start : Progress) :
    Fault.Agree Like (startAt c worker start) (startAt d worker start) := by
  cases start with
  | fresh =>
    refine (Rules.agree_ofConfig alike worker).bind ?_
    intro r s rules
    exact .made (.swap rules .fresh false)
  | issued timestamp sequence =>
    refine (Rules.agree_ofConfig alike worker).bind ?_
    intro r s rules
    rw [rules.restore_eq]
    refine (Fault.agree_self _).bind ?_
    rintro progress _ rfl
    exact .made (.swap rules progress false)

end LockedGenerator
namespace WordGenerator

/-- Generators with the same word under rules that are alike. -/
inductive Like : WordGenerator → WordGenerator → Prop where
  | swap {r s : Rules} (rules : r.Like s) (word : UInt64) : Like ⟨r, word⟩ ⟨s, word⟩

variable {w v : WordGenerator}

theorem decision_congr {r s : Rules} (rules : r.Like s) (loaded now : UInt64) :
    decision r loaded now = decision s loaded now := by
  rw [decision, decision, rules.respond_eq, rules.layout_eq]

theorem Like.conclude (alike : w.Like v) (loaded now : UInt64) :
    (w.conclude loaded now).1 = (v.conclude loaded now).1 ∧
      (w.conclude loaded now).2.Like (v.conclude loaded now).2 := by
  cases alike with
  | swap rules word =>
    simp only [conclude, decision_congr rules, rules.layout_eq]
    split
    · split
      · exact ⟨rfl, .swap rules _⟩
      · exact ⟨rfl, .swap rules word⟩
    · exact ⟨rfl, .swap rules word⟩
    · exact ⟨rfl, .swap rules word⟩

theorem Like.offer (alike : w.Like v) (reading : Reading) :
    (w.offer reading).1 = (v.offer reading).1 ∧ (w.offer reading).2.Like (v.offer reading).2 := by
  cases reading with
  | breaksDown => exact ⟨rfl, alike⟩
  | shows now =>
    cases alike with
    | swap rules word => exact (swap rules word).conclude word now

theorem Like.answers_eq (alike : w.Like v) (readings : List Reading) :
    w.answers readings = v.answers readings :=
  (history_related (fun reading _ _ _ alike => alike.offer reading) alike).1

theorem agree_startAt {c d : Config} (alike : c.Like d) (worker : Int) (start : Progress) :
    Fault.Agree Like (startAt c worker start) (startAt d worker start) := by
  rw [startAt_eq_map, startAt_eq_map]
  refine (LockedGenerator.agree_startAt alike worker start).map ?_
  intro g h alike
  cases alike with
  | swap rules progress poisoned =>
    simp only [resume, rules.layout_eq]
    exact .swap rules _

end WordGenerator
namespace Arena

/-- Arenas whose callers have come equally far with generators that are alike. -/
inductive Like : Arena → Arena → Prop where
  | swap {w v : WordGenerator} (alike : w.Like v) (stage : Nat → Stage) : Like ⟨w, stage⟩ ⟨v, stage⟩

variable {a b : Arena}

theorem Like.move (alike : a.Like b) (m : PollMove) :
    (a.move m).1 = (b.move m).1 ∧ (a.move m).2.Like (b.move m).2 := by
  cases alike with
  | swap alike stage =>
    cases m with
    | load caller =>
      -- what is loaded is the word, which does not depend on the rules
      cases alike with
      | swap rules word =>
        simp only [Arena.move]
        split
        · exact ⟨rfl, .swap (.swap rules word) _⟩
        · exact ⟨rfl, .swap (.swap rules word) stage⟩
    | read caller reading =>
      simp only [Arena.move]
      split
      · exact ⟨rfl, .swap alike _⟩
      · exact ⟨rfl, .swap alike _⟩
      · exact ⟨rfl, .swap alike stage⟩
    | conclude caller =>
      simp only [Arena.move]
      split
      · rename_i word now _
        obtain ⟨answer, after⟩ := alike.conclude word now
        rw [answer]
        exact ⟨rfl, .swap after _⟩
      · exact ⟨rfl, .swap alike stage⟩

/-- Polls that overlap leave the same records. -/
theorem Like.run_eq (alike : a.Like b) (moves : List PollMove) :
    (a.run moves).1 = (b.run moves).1 := by
  induction moves generalizing a b with
  | nil => rfl
  | cons m rest ih =>
    obtain ⟨record, after⟩ := alike.move m
    rw [run, run]
    exact congrArg₂ (fun record records => record.toList ++ records) record (ih after)

end Arena

/-- The records of polls that may overlap, made by callers who all begin idle. -/
def WordGenerator.records (w : WordGenerator) (moves : List PollMove) : List PollRecord :=
  (({ generator := w } : Arena).run moves).1

theorem WordGenerator.Like.records_eq {w v : WordGenerator} (alike : w.Like v)
    (moves : List PollMove) : w.records moves = v.records moves :=
  (Arena.Like.swap alike fun _ => .idle).run_eq moves

namespace Call

variable {γ δ σ : Type}

/-- The same outcome on generators that are related. -/
inductive Outcome.Like (related : γ → δ → Prop) : Outcome γ σ → Outcome δ σ → Prop where
  | swap {g : γ} {d : δ} (alike : related g d) (result : Except Halt Stamp) (waits : List UInt64)
    (clock : σ) : Like related ⟨result, waits, g, clock⟩ ⟨result, waits, d, clock⟩

/-- The same batch on generators that are related. -/
inductive Batch.Like (related : γ → δ → Prop) : Batch γ σ → Batch δ σ → Prop where
  | swap {g : γ} {d : δ} (alike : related g d) (issued : List Stamp) (halt : Option Halt)
    (clock : σ) : Like related ⟨issued, halt, g, clock⟩ ⟨issued, halt, d, clock⟩

/-- Polls that answer related generators alike, and keep them related. -/
def PollAlike (poll : Poll γ σ) (poll' : Poll δ σ) (related : γ → δ → Prop) : Prop :=
  ∀ g d clock, related g d → ∃ answer g' d' clock', poll g clock = (answer, g', clock') ∧
    poll' d clock = (answer, d', clock') ∧ related g' d'

variable {poll : Poll γ σ} {poll' : Poll δ σ} {related : γ → δ → Prop} {g : γ} {d : δ}

/-- A call cannot tell generators apart that its polls cannot tell apart. -/
theorem next_like (step : PollAlike poll poll' related) (backOff : UInt64 → σ → σ)
    (patience : Nat) (alike : related g d) (clock : σ) :
    Outcome.Like related (next poll backOff patience g clock)
      (next poll' backOff patience d clock) := by
  induction patience generalizing g d clock with
  | zero => exact .swap alike (.error .outOfPatience) [] clock
  | succ patience ih =>
    obtain ⟨answer, g', d', clock', polled, polled', onward⟩ := step g d clock alike
    rw [next, next, polled, polled']
    cases answer with
    | ready stamp => exact .swap onward (.ok stamp) [] clock'
    | refused fault => exact .swap onward (.error (.refused fault)) [] clock'
    | abandoned => exact .swap onward (.error .abandoned) [] clock'
    | pending millis =>
      have later := ih onward (backOff millis clock')
      simp only
      generalize next poll backOff patience g' (backOff millis clock') = one at later ⊢
      generalize next poll' backOff patience d' (backOff millis clock') = other at later ⊢
      cases later with
      | swap alike result waits clock => exact .swap alike result (millis :: waits) clock

theorem batchAfter_like (step : PollAlike poll poll' related) (patience : Nat)
    (done : List Stamp) (count : Nat) (alike : related g d) (clock : σ) :
    Batch.Like related (batchAfter poll patience done count g clock)
      (batchAfter poll' patience done count d clock) := by
  induction count generalizing done g d clock with
  | zero => exact .swap alike done.reverse none clock
  | succ count ih =>
    have called := next_like step idle patience alike clock
    rw [batchAfter, batchAfter]
    generalize next poll idle patience g clock = one at called ⊢
    generalize next poll' idle patience d clock = other at called ⊢
    cases called with
    | swap onward result waits clock =>
      cases result with
      | ok stamp => exact ih (stamp :: done) onward clock
      | error halt => exact .swap onward done.reverse (some halt) clock

end Call

/-- On any clock, locked generators that are alike are polled alike. -/
theorem LockedGenerator.poll_alike {σ : Type} [Clock σ] :
    Call.PollAlike (σ := σ) LockedGenerator.poll LockedGenerator.poll LockedGenerator.Like := by
  intro g h clock alike
  cases alike with
  | swap rules progress poisoned =>
    cases poisoned with
    | true => exact ⟨_, _, _, _, rfl, rfl, .swap rules progress true⟩
    | false =>
      obtain ⟨answer, after⟩ := (Like.swap rules progress false).attempt (Clock.read clock).1
      exact ⟨_, _, _, _, rfl, congrArg (·, _, _) answer.symm, after⟩

end Tickstamp
