import Mathlib.Data.List.Chain
import Tickstamp.Proofs.Issue.Outcome
import Tickstamp.Proofs.Issuer.Workers

/-!
# Handing over

Workers may take over from one another as often as they like without a stamp in
between: the last one stands where the first would stand, at the tick of the
last stamp, which is used up. It begins at the next tick, with sequence zero,
whatever is carried over between ticks otherwise. An issuer that has not issued
anything does not remember its former workers at all. A lock that is poisoned is
not handed over.
-/

namespace Tickstamp

theorem Progress.saturate_saturate (p : Progress) (maxSequence : UInt64) :
    (p.saturate maxSequence).saturate maxSequence = p.saturate maxSequence := by
  cases p <;> rfl

namespace Rules

theorem respond_of_begins {r : Rules} (suited : r.Suited) {p : Progress} {now : UInt64}
    (inside : now ≤ r.layout.maxTimestamp)
    (begins : p.advance now r.layout.maxSequence r.carryOver = .issue now 0) :
    ∃ stamp, r.layout.encode ⟨now, r.machine, 0⟩ = .ok stamp ∧
      r.respond p now = .ok (.commit (.issued now 0) stamp) := by
  have fits : r.layout.Fits ⟨now, r.machine, 0⟩ := ⟨inside, suited.machine, UInt64.zero_le⟩
  exact ⟨_, (Layout.encode_eq_ok_iff ..).mpr ⟨fits, rfl⟩,
    (respond_eq_commit_iff ..).mpr ⟨0, begins, fits, rfl, rfl⟩⟩

theorem advance_of_usedUp {r : Rules} (suited : r.Suited) {tick now : UInt64} (later : tick < now) :
    (Progress.issued tick r.layout.maxSequence).advance now r.layout.maxSequence r.carryOver =
      .issue now 0 :=
  (Progress.advance_issued_eq_issue_iff ..).mpr
    ⟨rfl, Or.inr ⟨later, (CarryOver.start_of_usedUp suited.carryOver).symm⟩⟩

end Rules

/-- The layout has a machine for the worker. -/
def Layout.Knows (l : Layout) (worker : Int) : Prop :=
  0 ≤ worker ∧ worker ≤ l.maxMachine.toNat

instance (l : Layout) (worker : Int) : Decidable (l.Knows worker) :=
  inferInstanceAs (Decidable (_ ∧ _))

/-- The rules for a worker that the layout knows. -/
def Config.rulesFor (c : Config) (worker : Int) : Rules :=
  ⟨c.layout, UInt64.ofNat worker.toNat, c.lag, c.carryOver⟩

theorem Rules.ofConfig_of_knows {c : Config} (valid : c.validate = .ok ()) {worker : Int}
    (known : c.layout.Knows worker) : Rules.ofConfig c worker = .ok (c.rulesFor worker) := by
  have machine : c.layout.machineOf worker = .ok (UInt64.ofNat worker.toNat) := if_pos known
  rw [ofConfig_of_valid valid, machine]
  rfl

namespace Issuer

/-- What the issuer remembers, whichever worker is bound. -/
def progress (k : Issuer) : Progress :=
  match k.bound with
  | none => .fresh
  | some g => g.progress

/-- No clock has broken down under the lock. -/
def Sound (k : Issuer) : Prop :=
  ∀ g, k.bound = some g → g.poisoned = false

/-- The issuer when another worker has taken over, with these rules. -/
def handedTo (k : Issuer) (rules : Rules) : Issuer :=
  let progress := k.progress.saturate k.config.layout.maxSequence
  { k with bound := some { rules, progress } }

theorem handedTo_handedTo (k : Issuer) (rules rules' : Rules) :
    (k.handedTo rules).handedTo rules' = k.handedTo rules' := by
  have same := k.progress.saturate_saturate k.config.layout.maxSequence
  simp only [handedTo, progress] at same ⊢
  rw [same]

theorem sound_handedTo (k : Issuer) (rules : Rules) : (k.handedTo rules).Sound := by
  rintro _ ⟨⟩
  rfl

theorem bind_of_other {k : Issuer} (sound : k.Sound) {worker : Int} {rules : Rules}
    (accepted : Rules.ofConfig k.config worker = .ok rules)
    (other : k.machine? ≠ some rules.machine) :
    k.bind worker = (.ok rules.machine, k.handedTo rules) := by
  rw [bind, accepted]
  cases bound : k.bound with
  | none => simp [handedTo, progress, bound, Progress.saturate]
  | some g =>
    have differs : g.rules.machine ≠ rules.machine := by
      intro same
      rw [machine?, bound, ← same] at other
      exact other rfl
    simp [handedTo, progress, bound, differs, LockedGenerator.progress?, sound g bound]

/-- Bindings one after the other, with their answers. -/
def bindAll (k : Issuer) : List Int → List (Except Fault UInt64) × Issuer
  | [] => ([], k)
  | worker :: rest =>
    let (answer, k) := k.bind worker
    let (answers, k) := k.bindAll rest
    (answer :: answers, k)

theorem bindAll_cons (k : Issuer) (worker : Int) (rest : List Int) :
    k.bindAll (worker :: rest) =
      let later := (k.bind worker).2.bindAll rest
      ((k.bind worker).1 :: later.1, later.2) :=
  rfl

/-- Workers of the layout, each of them another than the one who is bound before. -/
structure Succession (k : Issuer) (workers : List Int) : Prop where
  known : ∀ worker ∈ workers, k.config.layout.Knows worker
  changes : (k.machine?.toList.map (fun machine => (machine.toNat : Int)) ++ workers).IsChain
    (· ≠ ·)

theorem Succession.bind {k : Issuer} (valid : k.config.validate = .ok ()) (sound : k.Sound)
    {worker : Int} {rest : List Int} (h : k.Succession (worker :: rest)) :
    let taken := k.handedTo (k.config.rulesFor worker)
    k.bind worker = (.ok (UInt64.ofNat worker.toNat), taken) ∧ taken.Succession rest := by
  have accepted := Rules.ofConfig_of_knows valid (h.known worker List.mem_cons_self)
  have number := Rules.worker_eq accepted
  have other : k.machine? ≠ some (k.config.rulesFor worker).machine := by
    intro same
    have differ := h.changes
    rw [same] at differ
    exact (List.isChain_cons_cons.mp differ).1 number.symm
  refine ⟨bind_of_other sound accepted other, ?_, ?_⟩
  · intro next later
    exact h.known next (List.mem_cons_of_mem _ later)
  · have onward : (worker :: rest).IsChain (· ≠ ·) := h.changes.right_of_append
    rw [number] at onward
    exact onward

/-- However many workers take over, the last one finds what the first one found. -/
theorem bindAll_of_succession {k : Issuer} (valid : k.config.validate = .ok ()) (sound : k.Sound)
    {workers : List Int} (h : k.Succession workers) {last : Int}
    (ends : workers.getLast? = some last) :
    k.bindAll workers = (workers.map fun worker => .ok (UInt64.ofNat worker.toNat),
      k.handedTo (k.config.rulesFor last)) := by
  induction workers generalizing k with
  | nil => cases ends
  | cons worker rest ih =>
    obtain ⟨taken, onward⟩ := h.bind valid sound
    rw [bindAll_cons, taken]
    cases rest with
    | nil =>
      cases ends
      rfl
    | cons next others =>
      have kept : (k.handedTo (k.config.rulesFor worker)).config.validate = .ok () := valid
      rw [List.getLast?_cons_cons] at ends
      simp only [ih kept (k.sound_handedTo _) onward ends, handedTo_handedTo]
      rfl

/-- A binding may use up the tick that is remembered, and changes nothing else about it. -/
theorem saturate_progress_bind (k : Issuer) (worker : Int) :
    (k.bind worker).2.progress.saturate k.config.layout.maxSequence =
      k.progress.saturate k.config.layout.maxSequence := by
  rcases k.bind_cases worker with
    ⟨_, refused⟩ | ⟨_, _, same⟩ | ⟨_, _, _, placed, ⟨unbound, rfl⟩ | ⟨g, bound, _, _, rfl⟩⟩
  · rw [refused]
  · rw [same]
  · rw [placed, progress, progress, unbound]
  · rw [placed, progress, progress, bound]
    exact Progress.saturate_saturate ..

theorem progress_offer {k : Issuer} (lawful : k.Lawful) (reading : Reading) :
    (k.offer reading).2.progress =
      ((k.offer reading).1.stamp?.map k.config.layout.progressOf).getD k.progress := by
  cases bound : k.bound with
  | none => simp [offer, progress, bound, Answer.stamp?]
  | some g =>
    rw [offer_of_bound bound, ← lawful.layout bound]
    simp only [progress, bound]
    exact g.attempt_progress reading

/-- All that an issuer remembers is its last stamp, of which it may have used up the tick. -/
theorem saturate_progress_of_reaches {k k' : Issuer} {happenings : List Happening}
    (lawful : k.Lawful) (unbound : k.bound = none) (course : k.Reaches happenings k') :
    k'.progress.saturate k.config.layout.maxSequence =
      (((Happening.stamps happenings).getLast?.map k.config.layout.progressOf).getD
        .fresh).saturate k.config.layout.maxSequence := by
  induction course with
  | refl =>
    rw [progress, unbound]
    rfl
  | @bind happenings k' before worker ih =>
    rw [Happening.stamps_append, Happening.stamps_boundBy, List.append_nil, ← ih,
      ← (leads_of_reaches lawful before).config]
    exact k'.saturate_progress_bind worker
  | @poll happenings k' before reading ih =>
    have leads := leads_of_reaches lawful before
    rw [progress_offer leads.lawful, leads.config, Happening.stamps_append,
      Happening.stamps_map_issued, List.getLast?_append]
    cases (k'.offer reading).1.stamp? with
    | none => exact ih
    | some stamp => rfl

/-- The next stamp is the first one of the tick that the clock shows. -/
def Begins (c : Config) (machine : UInt64) (k : Issuer) (now : UInt64) : Prop :=
  ∃ stamp, c.layout.encode ⟨now, machine, 0⟩ = .ok stamp ∧ (k.offer (.shows now)).1 = .ready stamp

/-- The machine has taken over at a tick that is used up. -/
structure StandsAt (c : Config) (machine tick : UInt64) (k : Issuer) : Prop where
  atTick : k.offer (.shows tick) = (.pending 1, k)
  behind : ∀ now, now < tick → k.offer (.shows now) = (c.lag.answer (tick - now), k)
  later : ∀ now, tick < now → now ≤ c.layout.maxTimestamp → Begins c machine k now

section
variable {c : Config} {worker : Int} {k : Issuer} {p : Progress}

theorem offer_of_still (bound : k.bound = some { rules := c.rulesFor worker, progress := p })
    {now : UInt64} {answer : Answer}
    (told : .ofResponse ((c.rulesFor worker).respond p now) = answer)
    (still : answer.stamp? = none) : k.offer (.shows now) = (answer, k) := by
  generalize made : LockedGenerator.mk (c.rulesFor worker) p false = g at bound
  have answered : (g.attempt (.shows now)).1 = answer := by
    rw [← made, LockedGenerator.attempt_shows rfl]
    exact told
  rw [← answered] at still
  rw [offer_of_bound bound, answered, g.attempt_still now still, with_bound bound]

theorem begins_of_advance (accepted : Rules.ofConfig c worker = .ok (c.rulesFor worker))
    (bound : k.bound = some { rules := c.rulesFor worker, progress := p }) {now : UInt64}
    (inside : now ≤ c.layout.maxTimestamp)
    (begins : p.advance now c.layout.maxSequence c.carryOver = .issue now 0) :
    Begins c (UInt64.ofNat worker.toNat) k now := by
  obtain ⟨stamp, coded, commit⟩ :=
    Rules.respond_of_begins (Rules.suited_of_ofConfig accepted) inside begins
  refine ⟨stamp, coded, ?_⟩
  rw [offer_of_bound bound, LockedGenerator.attempt_shows rfl, commit]
  rfl

theorem standsAt_of_usedUp (accepted : Rules.ofConfig c worker = .ok (c.rulesFor worker))
    {tick : UInt64}
    (bound : k.bound = some
      { rules := c.rulesFor worker, progress := .issued tick c.layout.maxSequence }) :
    StandsAt c (UInt64.ofNat worker.toNat) tick k := by
  constructor
  case atTick =>
    refine offer_of_still bound ?_ rfl
    exact congrArg Answer.ofResponse ((c.rulesFor worker).respond_of_usedUp tick)
  case behind =>
    intro now behind
    refine offer_of_still bound ?_ (c.lag.stamp?_answer _)
    exact congrArg Answer.ofResponse ((c.rulesFor worker).respond_of_behind _ behind)
  case later =>
    intro now later inside
    exact begins_of_advance accepted bound inside
      (Rules.advance_of_usedUp (Rules.suited_of_ofConfig accepted) later)

end

/-- If workers take over from one another without a stamp in between, each of them another than
the one before and all of them known, then every binding succeeds, and the last worker stands at
the tick of the last stamp: it lets the caller wait for the next tick there, leaves a clock that is
behind to the lag policy, and begins with sequence zero at any later reading. If nothing has been
issued, then the last worker might as well be the first, and begins at any reading. It does not
matter what was done before, how many workers there are, or what is carried over between ticks. -/
theorem handover_ends_at_next_tick {c : Config} {k₀ k : Issuer} {happenings : List Happening}
    (made : ofConfig c = .ok k₀) (course : k₀.Reaches happenings k) (sound : k.Sound)
    {workers : List Int} (succession : k.Succession workers) {worker : Int}
    (ends : workers.getLast? = some worker) :
    let machine := UInt64.ofNat worker.toNat
    let after := (k.bindAll workers).2
    (k.bindAll workers).1 = (workers.map fun worker => .ok (UInt64.ofNat worker.toNat)) ∧
    after.worker = .ok machine ∧
    (∀ last, (Happening.stamps happenings).getLast? = some last →
      StandsAt c machine (c.layout.decode last).timestamp after) ∧
    (Happening.stamps happenings = [] →
      after = (k₀.bind worker).2 ∧ ∀ now ≤ c.layout.maxTimestamp, Begins c machine after now) := by
  intro machine after
  obtain ⟨lawful, rfl, unbound⟩ := lawful_of_ofConfig made
  have nothingBound : k₀.bound = none := Option.map_eq_none_iff.mp unbound
  have leads := leads_of_reaches lawful course
  have remembers := saturate_progress_of_reaches lawful nothingBound course
  have known : k₀.config.layout.Knows worker := by
    rw [← leads.config]
    exact succession.known worker (List.mem_of_getLast? ends)
  have accepted := Rules.ofConfig_of_knows lawful.valid known
  have all := bindAll_of_succession leads.lawful.valid sound succession ends
  have handed : after = k.handedTo (k₀.config.rulesFor worker) := by
    rw [← leads.config]
    exact congrArg Prod.snd all
  have bound : after.bound = some
      { rules := k₀.config.rulesFor worker
        progress := k.progress.saturate k₀.config.layout.maxSequence } := by
    rw [handed, handedTo, leads.config]
  refine ⟨congrArg Prod.fst all, ?_, ?_, ?_⟩
  · rw [Issuer.worker, bound]
    rfl
  · intro last issued
    rw [remembers, issued] at bound
    exact standsAt_of_usedUp accepted bound
  · intro nothing
    rw [remembers, nothing] at bound
    refine ⟨?_, fun now inside => begins_of_advance accepted bound inside rfl⟩
    have alone : k₀.bind worker = (.ok machine, k₀.handedTo (k₀.config.rulesFor worker)) :=
      bind_of_other (by simp [Sound, nothingBound]) accepted (by simp [unbound])
    have fresh : k₀.progress = .fresh := by rw [progress, nothingBound]
    rw [alone, handed, handedTo, handedTo, leads.config, remembers, nothing, fresh]
    rfl

/-- Three workers take over in turn after a stamp, though the sequence runs on to the very end of a
tick, and two before there is any. -/
theorem handover_ends_at_next_tick_from_threshold :
    ∃ k₀, ofConfig { carryOver := .upTo 4095 } = .ok k₀ ∧
      (∃ k happenings, k₀.Reaches happenings k ∧
        (Happening.stamps happenings).getLast? = some ⟨21000192⟩ ∧
          StandsAt k₀.config 3 5 (k.bindAll [8, 7, 3]).2) ∧
      ∃ k, k₀.Reaches [.bound 7] k ∧ (k.bindAll [8, 3]).2 = (k₀.bind 3).2 := by
  have made : ofConfig { carryOver := .upTo 4095 } =
    .ok { config := { carryOver := .upTo 4095 } } := rfl
  have first := reaches_bind { config := { carryOver := .upTo 4095 } } 7
  have course := first.poll (.shows 5)
  refine ⟨_, made, ⟨_, _, course, by decide +kernel, ?_⟩, _, first, ?_⟩
  · have ends : [8, 7, 3].getLast? = some (3 : Int) := rfl
    exact (handover_ends_at_next_tick made course (by rintro _ ⟨⟩; rfl)
      ⟨by decide +kernel, by decide +kernel⟩ ends).2.2.1 ⟨21000192⟩ (by decide +kernel)
  · have ends : [8, 3].getLast? = some (3 : Int) := rfl
    exact ((handover_ends_at_next_tick made first (by rintro _ ⟨⟩; rfl)
      ⟨by decide +kernel, by decide +kernel⟩ ends).2.2.2 rfl).1

end Issuer
end Tickstamp
