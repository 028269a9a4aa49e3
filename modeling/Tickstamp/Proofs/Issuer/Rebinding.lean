import Tickstamp.Proofs.Issuer.Timeline

/-!
# Stamps ascend across bindings

Binding another worker goes on from a used-up tick, whose mark no longer depends
on the machine. So the mark of an issuer never falls, whichever workers are bound
in which order, and every stamp carries the machine that was bound last. Nothing
is assumed about the clock, about requests that fail, or about their number.
-/

namespace Tickstamp

/-- A used-up tick has a mark that suits every machine of the layout. -/
theorem Rules.mark_le_mark_saturate {r r' : Rules} (layout : r'.layout = r.layout)
    (machine : r.machine ≤ r.layout.maxMachine) (p : Progress) :
    r.mark p ≤ r'.mark (p.saturate r.layout.maxSequence) := by
  cases p with
  | fresh => exact Nat.le_refl _
  | issued timestamp sequence =>
    have full : ¬ r.layout.maxSequence < r.layout.maxSequence := by
      rw [UInt64.lt_iff_toNat_lt]
      omega
    rw [Progress.saturate, mark, mark, layout, if_neg full]
    exact mark_le_tick machine timestamp sequence

namespace Happening

/-- Every stamp carries the machine that was bound last before it. -/
def Attributed (l : Layout) (machine : Option UInt64) : List Happening → Prop
  | [] => True
  | .bound number :: rest => Attributed l (some number) rest
  | .issued stamp :: rest => machine = some (l.decode stamp).machine ∧ Attributed l machine rest

theorem latestBound_append (machine : Option UInt64) (earlier later : List Happening) :
    latestBound machine (earlier ++ later) = latestBound (latestBound machine earlier) later := by
  induction earlier generalizing machine with
  | nil => rfl
  | cons h rest ih => cases h <;> exact ih _

theorem attributed_append {l : Layout} {machine : Option UInt64} {earlier later : List Happening} :
    Attributed l machine (earlier ++ later) ↔
      Attributed l machine earlier ∧ Attributed l (latestBound machine earlier) later := by
  induction earlier generalizing machine with
  | nil => exact ⟨fun h => ⟨trivial, h⟩, fun h => h.2⟩
  | cons h rest ih =>
    cases h with
    | bound number => exact ih
    | issued stamp =>
      simp only [List.cons_append, Attributed, latestBound, ih]
      exact and_assoc.symm

theorem stamps_append (earlier later : List Happening) :
    stamps (earlier ++ later) = stamps earlier ++ stamps later :=
  List.filterMap_append

theorem stamps_map_issued (issued : List Stamp) : stamps (issued.map .issued) = issued := by
  induction issued with
  | nil => rfl
  | cons s rest ih =>
    rw [List.map_cons]
    exact congrArg (s :: ·) ih

theorem stamps_boundBy (result : Except Fault UInt64) : stamps (Issuer.boundBy result) = [] := by
  cases result <;> rfl

theorem latestBound_map_issued (machine : Option UInt64) (issued : List Stamp) :
    latestBound machine (issued.map .issued) = machine := by
  induction issued with
  | nil => rfl
  | cons s rest ih => exact ih

theorem attributed_map_issued {l : Layout} {machine : UInt64} {issued : List Stamp}
    (h : ∀ s ∈ issued, (l.decode s).machine = machine) :
    Attributed l (some machine) (issued.map .issued) := by
  induction issued with
  | nil => exact trivial
  | cons s rest ih =>
    exact ⟨congrArg some (h s List.mem_cons_self).symm,
      ih fun x hx => h x (List.mem_cons_of_mem s hx)⟩

end Happening
namespace Issuer

/-- An issuer whose generator follows its configuration. -/
structure Lawful (k : Issuer) : Prop where
  valid : k.config.validate = .ok ()
  rules : ∀ g, k.bound = some g → ∃ worker, Rules.ofConfig k.config worker = .ok g.rules

/-- The number from which on the issuer issues. -/
def mark (k : Issuer) : Nat :=
  match k.bound with
  | none => 0
  | some g => g.mark

/-- The machine that is bound. -/
def machine? (k : Issuer) : Option UInt64 :=
  k.bound.map (·.rules.machine)

/-- The happenings that lead from one state of an issuer to another. -/
structure Leads (k : Issuer) (happenings : List Happening) (k' : Issuer) : Prop where
  config : k'.config = k.config
  lawful : k'.Lawful
  climb : Stamp.Climb k.mark (Happening.stamps happenings) k'.mark
  attributed : Happening.Attributed k.config.layout k.machine? happenings
  machine : k'.machine? = Happening.latestBound k.machine? happenings

theorem Leads.refl {k : Issuer} (h : k.Lawful) : k.Leads [] k :=
  ⟨rfl, h, Stamp.Climb.nil (Nat.le_refl _), trivial, rfl⟩

theorem Leads.trans {k k' k'' : Issuer} {earlier later : List Happening}
    (first : k.Leads earlier k') (second : k'.Leads later k'') :
    k.Leads (earlier ++ later) k'' := by
  have attributed := second.attributed
  rw [first.config, first.machine] at attributed
  refine ⟨second.config.trans first.config, second.lawful, ?_, ?_, ?_⟩
  · rw [Happening.stamps_append]
    exact first.climb.append second.climb
  · exact Happening.attributed_append.mpr ⟨first.attributed, attributed⟩
  · rw [second.machine, first.machine, Happening.latestBound_append]

theorem Lawful.layout {k : Issuer} (h : k.Lawful) {g : LockedGenerator}
    (bound : k.bound = some g) : g.rules.layout = k.config.layout := by
  obtain ⟨worker, accepted⟩ := h.rules g bound
  exact Rules.layout_eq accepted

/-- A binding fails without effect, names the worker that is bound already, or puts a new
generator in place, which begins afresh or with a used-up tick. -/
theorem bind_cases (k : Issuer) (worker : Int) :
    (∃ fault, k.bind worker = (.error fault, k)) ∨
      (∃ g, k.bound = some g ∧ k.bind worker = (.ok g.rules.machine, k)) ∨
      ∃ rules progress, Rules.ofConfig k.config worker = .ok rules ∧
        k.bind worker = (.ok rules.machine, { k with bound := some { rules, progress } }) ∧
        (k.bound = none ∧ progress = .fresh ∨
          ∃ g, k.bound = some g ∧ g.poisoned = false ∧ g.rules.machine ≠ rules.machine ∧
            progress = g.progress.saturate k.config.layout.maxSequence) := by
  rw [bind]
  cases accepted : Rules.ofConfig k.config worker with
  | error fault => exact Or.inl ⟨fault, rfl⟩
  | ok rules =>
    cases bound : k.bound with
    | none => exact Or.inr (Or.inr ⟨rules, .fresh, rfl, rfl, Or.inl ⟨rfl, rfl⟩⟩)
    | some g =>
      by_cases same : g.rules.machine = rules.machine
      · simp only [if_pos same]
        exact Or.inr (Or.inl ⟨g, rfl, by rw [same]⟩)
      · simp only [if_neg same]
        cases locked : g.poisoned with
        | true => exact Or.inl ⟨.lockPoisoned, by simp [LockedGenerator.progress?, locked]⟩
        | false =>
          refine Or.inr (Or.inr ⟨rules, _, rfl, ?_, Or.inr ⟨g, rfl, locked, same, rfl⟩⟩)
          simp [LockedGenerator.progress?, locked]

theorem leads_bind {k : Issuer} (h : k.Lawful) (worker : Int) :
    k.Leads (boundBy (k.bind worker).1) (k.bind worker).2 := by
  rcases k.bind_cases worker with
    ⟨fault, refused⟩ | ⟨g, bound, same⟩ | ⟨rules, progress, accepted, placed, origin⟩
  · rw [refused]
    exact Leads.refl h
  · have machine : k.machine? = some g.rules.machine := by rw [machine?, bound]; rfl
    rw [same]
    exact ⟨rfl, h, Stamp.Climb.nil (Nat.le_refl _), trivial, machine⟩
  · -- a new generator: its mark must not be below that of the old one
    rw [placed]
    refine ⟨rfl, ⟨h.valid, ?_⟩, Stamp.Climb.nil ?_, trivial, rfl⟩
    · rintro _ ⟨⟩
      exact ⟨worker, accepted⟩
    · rcases origin with ⟨unbound, _⟩ | ⟨g, bound, _, _, rfl⟩
      · rw [mark, unbound]
        exact Nat.zero_le _
      · obtain ⟨former, before⟩ := h.rules g bound
        have layout := Rules.layout_eq accepted
        rw [mark, bound, ← h.layout bound]
        exact Rules.mark_le_mark_saturate (layout.trans (h.layout bound).symm)
          (Rules.machine_le before) g.progress

theorem leads_offer {k : Issuer} (h : k.Lawful) (reading : Reading) :
    k.Leads ((k.offer reading).1.stamp?.toList.map .issued) (k.offer reading).2 := by
  cases bound : k.bound with
  | none =>
    rw [offer, bound]
    exact Leads.refl h
  | some g =>
    rw [offer_of_bound bound]
    have machine : k.machine? = some g.rules.machine := by rw [machine?, bound]; rfl
    have machines : ∀ s ∈ (g.attempt reading).1.stamp?.toList,
        (k.config.layout.decode s).machine = g.rules.machine := by
      intro s issued
      obtain ⟨p, now, next, response⟩ := LockedGenerator.committed_of_attempt issued
      rw [← h.layout bound]
      exact Rules.machine_of_commit response
    have attributed := Happening.attributed_map_issued machines
    have latest := Happening.latestBound_map_issued (some g.rules.machine)
      (g.attempt reading).1.stamp?.toList
    refine ⟨rfl, ⟨h.valid, ?_⟩, ?_, ?_, ?_⟩
    · rintro _ ⟨⟩
      rw [g.attempt_rules]
      exact h.rules g bound
    · rw [Happening.stamps_map_issued, mark, bound]
      exact g.attempt_climb reading
    · rw [machine]
      exact attributed
    · rw [machine, latest, machine?]
      exact congrArg (fun r => some r.machine) (g.attempt_rules reading)

theorem leads_of_reaches {k k' : Issuer} {happenings : List Happening} (h : k.Lawful)
    (course : k.Reaches happenings k') : k.Leads happenings k' := by
  induction course with
  | refl => exact Leads.refl h
  | bind _ worker ih => exact ih.trans (leads_bind ih.lawful worker)
  | poll _ reading ih => exact ih.trans (leads_offer ih.lawful reading)

theorem leads_chronicle {σ : Type} [Clock σ] {k : Issuer} (h : k.Lawful) (patience : Nat)
    (clock : σ) (requests : List Operation) :
    k.Leads (k.chronicle patience clock requests).1 (k.chronicle patience clock requests).2.1 :=
  leads_of_reaches h (k.reaches_chronicle patience clock requests)

theorem lawful_of_ofConfig {c : Config} {k : Issuer} (made : ofConfig c = .ok k) :
    k.Lawful ∧ k.config = c ∧ k.machine? = none := by
  obtain ⟨⟨⟩, valid, done⟩ := Fault.bind_eq_ok_iff.mp made
  cases done
  refine ⟨⟨valid, ?_⟩, rfl, rfl⟩
  rintro _ ⟨⟩

/-- Whatever is asked of an issuer, and whatever the clock shows, the stamps of a chronicle
increase in the order in which they are issued, and each carries the machine that the latest
binding before it has answered. In particular the stamps after a binding are all greater than
those before it. -/
theorem chronicle_increases {c : Config} {k : Issuer} (made : ofConfig c = .ok k) {σ : Type}
    [Clock σ] (patience : Nat) (clock : σ) (requests : List Operation) :
    let happenings := (k.chronicle patience clock requests).1
    (Happening.stamps happenings).Pairwise (· < ·) ∧
      (∀ before machine after, happenings = before ++ .bound machine :: after →
        ∀ x ∈ Happening.stamps before, ∀ y ∈ Happening.stamps after, x < y) ∧
      ∀ before stamp after, happenings = before ++ .issued stamp :: after →
        Happening.latestBound none before = some (c.layout.decode stamp).machine := by
  intro happenings
  obtain ⟨lawful, rfl, unbound⟩ := lawful_of_ofConfig made
  have leads := leads_chronicle lawful patience clock requests
  refine ⟨leads.climb.increasing, ?_, ?_⟩
  · intro before machine after split x hx y hy
    have increasing := leads.climb.increasing
    change (Happening.stamps happenings).Pairwise (· < ·) at increasing
    rw [split, Happening.stamps_append, List.pairwise_append] at increasing
    exact increasing.2.2 x hx y hy
  · intro before stamp after split
    have attributed := leads.attributed
    change Happening.Attributed _ _ happenings at attributed
    rw [split, Happening.attributed_append, unbound] at attributed
    exact attributed.2.1

/-- Worker 2 goes over to worker 1 while the clock stands still, so that a batch after it has to
wait for the next tick. -/
theorem chronicle_increases_to_smaller_worker :
    ∃ k, ofConfig {} = .ok k ∧
      let clock : Script := { lines := [.shows 5, .shows 5, .shows 5, .shows 6] }
      let happenings := (k.chronicle 9 clock [.bind 2, .generateBatch 2, .bind 1, .generate]).1
      happenings.length = 5 ∧ (Happening.stamps happenings).Pairwise (· < ·) := by
  have made : ofConfig {} = .ok { config := {} } := rfl
  exact ⟨_, made, rfl, (chronicle_increases made 9 _ _).1⟩

end Issuer
end Tickstamp
