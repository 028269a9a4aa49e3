import Tickstamp.Proofs.Issuer.Reachable

/-!
# The first conclusive reading

A wait leaves the generator alone, so all polls of a call find the progress that
the first one found. The call is therefore decided by the rules and that progress
alone: it ends at the first reading to which they do not respond with a wait, and
at no other. The readings may go up and down as they like, and a back-off may do
to the clock what it likes. A clock that breaks down is not considered, nor are
polls of other callers that come in between, though they may have come before.
-/

namespace Tickstamp
namespace Call

variable {γ σ : Type} [Clock σ]

/-- The clock after so many polls, each of which reads it once and is followed by a back-off. -/
def clockAfter (backOff : UInt64 → σ → σ) (clock : σ) (waits : Nat → UInt64) : (polls : Nat) → σ
  | 0 => clock
  | polls + 1 => backOff (waits polls) (Clock.read (clockAfter backOff clock waits polls)).2

/-- For so many polls in a row a call is told to wait: these readings are shown, and these waits
are what the rules respond at this progress. The reading that comes next is shown as well. -/
structure Stalled (r : Rules) (p : Progress) (backOff : UInt64 → σ → σ) (clock : σ)
    (readings waits : Nat → UInt64) (polls : Nat) : Prop where
  shown : ∀ i ≤ polls, (Clock.read (clockAfter backOff clock waits i)).1 = .shows (readings i)
  told : ∀ i < polls, r.respond p (readings i) = .ok (.wait (waits i))

/-- At this progress a poll reads the clock once and does what the rules respond. -/
def HandsOn (poll : Poll γ σ) (r : Rules) (standing : Progress → γ) (p : Progress) : Prop :=
  ∀ clock now, (Clock.read clock).1 = .shows now →
    poll (standing p) clock = (.ofResponse (r.respond p now),
      standing (p.following (r.respond p now)), (Clock.read clock).2)

variable {poll : Poll γ σ} {r : Rules} {standing : Progress → γ} {p : Progress}
  {backOff : UInt64 → σ → σ} {clock : σ} {readings waits : Nat → UInt64}

theorem next_of_wait (handsOn : HandsOn poll r standing p) {now millis : UInt64}
    (shown : (Clock.read clock).1 = .shows now) (told : r.respond p now = .ok (.wait millis))
    (patience : Nat) :
    next poll backOff (patience + 1) (standing p) clock =
      let later := next poll backOff patience (standing p) (backOff millis (Clock.read clock).2)
      { later with waits := millis :: later.waits } := by
  rw [next, handsOn clock now shown, told]
  rfl

theorem next_of_stalled (handsOn : HandsOn poll r standing p) {polls : Nat}
    (stalled : Stalled r p backOff clock readings waits polls) (patience : Nat) :
    next poll backOff (polls + patience) (standing p) clock =
      let later :=
        next poll backOff patience (standing p) (clockAfter backOff clock waits polls)
      { later with waits := (List.range polls).map waits ++ later.waits } := by
  induction polls generalizing patience with
  | zero => rw [Nat.zero_add]; rfl
  | succ polls ih =>
    have earlier : Stalled r p backOff clock readings waits polls := by
      constructor
      · intro i le
        exact stalled.shown i (Nat.le_succ_of_le le)
      · intro i lt
        exact stalled.told i (Nat.lt_succ_of_lt lt)
    have shown := stalled.shown polls (Nat.le_succ polls)
    have told := stalled.told polls (Nat.lt_succ_self polls)
    rw [Nat.add_assoc, Nat.add_comm 1, ih earlier, next_of_wait handsOn shown told, List.range_succ,
      List.map_append]
    simp only [List.append_assoc]
    rfl

/-- The calls of a generator are decided by the rules and by the progress at which they begin. No
matter how patient a call is beyond that, it polls once more than it is told to wait. -/
structure Decided (poll : ∀ {σ : Type} [Clock σ], Poll γ σ) (g : γ) (standing : Progress → γ)
    (r : Rules) (p : Progress) : Prop where
  stands : g = standing p
  issues : ∀ {σ : Type} [Clock σ] (backOff : UInt64 → σ → σ) (clock : σ)
    (readings waits : Nat → UInt64) (polls : Nat) (after : Progress) (stamp : Stamp),
    Stalled r p backOff clock readings waits polls →
      r.respond p (readings polls) = .ok (.commit after stamp) → ∀ patience, polls < patience →
        next poll backOff patience g clock =
          ⟨.ok stamp, (List.range polls).map waits, standing after,
            (Clock.read (clockAfter backOff clock waits polls)).2⟩
  refuses : ∀ {σ : Type} [Clock σ] (backOff : UInt64 → σ → σ) (clock : σ)
    (readings waits : Nat → UInt64) (polls : Nat) (fault : Fault),
    Stalled r p backOff clock readings waits polls →
      r.respond p (readings polls) = .error fault → ∀ patience, polls < patience →
        next poll backOff patience g clock =
          ⟨.error (.refused fault), (List.range polls).map waits, g,
            (Clock.read (clockAfter backOff clock waits polls)).2⟩
  /-- If no reading is conclusive, then the call only waits, and ends with its patience. -/
  waitsOn : ∀ {σ : Type} [Clock σ] (backOff : UInt64 → σ → σ) (clock : σ)
    (readings waits : Nat → UInt64), (∀ polls, Stalled r p backOff clock readings waits polls) →
      ∀ patience, next poll backOff patience g clock =
        ⟨.error .outOfPatience, (List.range patience).map waits, g,
          clockAfter backOff clock waits patience⟩

/-- It is enough that a poll at this progress does what the rules respond. -/
theorem decided_of_handsOn {poll : ∀ {σ : Type} [Clock σ], Poll γ σ} {g : γ}
    (stands : g = standing p)
    (handsOn : ∀ {σ : Type} [Clock σ], HandsOn (poll (σ := σ)) r standing p) :
    Decided poll g standing r p := by
  subst stands
  constructor
  case stands => rfl
  case issues =>
    intro σ _ backOff clock readings waits polls after stamp stalled commit patience patient
    obtain ⟨more, rfl⟩ := Nat.exists_eq_add_of_lt patient
    have polled := handsOn _ _ (stalled.shown polls (Nat.le_refl polls))
    rw [Nat.add_assoc, next_of_stalled handsOn stalled, next, polled, commit]
    simp only [Answer.ofResponse, List.append_nil]
    rfl
  case refuses =>
    intro σ _ backOff clock readings waits polls fault stalled refused patience patient
    obtain ⟨more, rfl⟩ := Nat.exists_eq_add_of_lt patient
    have polled := handsOn _ _ (stalled.shown polls (Nat.le_refl polls))
    rw [Nat.add_assoc, next_of_stalled handsOn stalled, next, polled, refused]
    simp only [Answer.ofResponse, List.append_nil]
    rfl
  case waitsOn =>
    intro σ _ backOff clock readings waits stalled patience
    have whole := next_of_stalled handsOn (stalled patience) 0
    rw [Nat.add_zero] at whole
    rw [whole, next]
    simp only [List.append_nil]

end Call

open Call (Decided HandsOn)

theorem LockedGenerator.handsOn {g : LockedGenerator} (sound : g.poisoned = false) {σ : Type}
    [Clock σ] :
    HandsOn (poll (σ := σ)) g.rules (fun p => { g with progress := p }) g.progress := by
  intro clock now shown
  have polled : g.poll clock =
      ((g.attempt (.shows now)).1, (g.attempt (.shows now)).2, (Clock.read clock).2) := by
    simp [poll, attempt, sound, shown]
  rw [attempt_shows sound] at polled
  exact polled

theorem WordGenerator.Mirrors.handsOn {w : WordGenerator} {g : LockedGenerator}
    (h : w.Mirrors g) {σ : Type} [Clock σ] :
    HandsOn (poll (σ := σ)) g.rules (resume g.rules) g.progress := by
  intro clock now shown
  rw [← h.resumed]
  simp only [poll, shown, h.offer_shows]

/-- Whatever state a generator has come to, the first reading to which the rules respond with a
stamp or a refusal, rather than a wait, decides a call: the call gets just that response, after one
poll for every reading up to this one, and after the waits that the rules asked for at the readings
before, in their order and all for the same progress. A stamp is committed, a refusal leaves the
generator as it was. If there is no such reading, the call waits for as long as its patience
lasts, and nothing is committed. -/
theorem first_conclusive_reading_decides (c : Config) :
    (∀ g, LockedGenerator.Reachable c g →
      Decided LockedGenerator.poll g (fun p => { g with progress := p }) g.rules g.progress) ∧
    ∀ w, WordGenerator.Reachable c w →
      Decided WordGenerator.poll w (.resume w.rules) w.rules w.progress := by
  constructor
  · intro g reached
    exact Call.decided_of_handsOn rfl (LockedGenerator.handsOn reached.stands.sound)
  · intro w reached
    obtain ⟨g, _, mirrors⟩ := reached.mirrors
    have present : w.progress = g.progress := mirrors.unpack_word
    rw [present, mirrors.rules]
    exact Call.decided_of_handsOn mirrors.resumed mirrors.handsOn

/-- A clock that catches up with a used-up tick and moves on; one that goes back and forth until it
is too far behind; and one that never leaves the used-up tick. -/
theorem first_conclusive_reading_decides_after_waits :
    (∃ g, LockedGenerator.Reachable {} g ∧
      let clock : Script := { lines := [.shows 3] }
      Call.next LockedGenerator.poll (fun millis s => s.skip millis) 9 g clock =
        ⟨.ok ⟨25194496⟩, [2, 1], { g with progress := .issued 6 0 }, { last := 6 }⟩) ∧
    ∃ w, WordGenerator.Reachable { lag := .wait 2 } w ∧
      Call.next WordGenerator.poll Call.idle 9 w
          ({ lines := [.shows 4, .shows 3, .shows 5, .shows 2] } : Script) =
        ⟨.error (.refused (.clockBehind 3)), [1, 2, 1], w, { last := 2 }⟩ ∧
      ∀ patience, (Call.next WordGenerator.poll Call.idle patience w
        ({ last := 5 } : Script)).generator = w := by
  constructor
  · have begun : LockedGenerator.startAt {} 7 (.issued 5 4095) = .ok _ := rfl
    have reached := LockedGenerator.Reachable.polled begun [] rfl
    have decided := (first_conclusive_reading_decides {}).1 _ reached
    refine ⟨_, reached, decided.issues _ _ ([3, 5, 6].getD · 0) ([2, 1].getD · 0) 2 (.issued 6 0) _
      ⟨?_, ?_⟩ rfl 9 (by decide)⟩
    · decide
    · rintro (_ | _ | i) lt
      · rfl
      · rfl
      · omega
  · have begun : WordGenerator.startAt { lag := .wait 2 } 7 (.issued 5 4095) = .ok _ := rfl
    have reached := WordGenerator.Reachable.polled begun []
    have decided := (first_conclusive_reading_decides { lag := .wait 2 }).2 _ reached
    refine ⟨_, reached, decided.refuses _ _ ([4, 3, 5, 2].getD · 0) ([1, 2, 1].getD · 0) 3 _
      ⟨?_, ?_⟩ rfl 9 (by decide), ?_⟩
    · decide
    · rintro (_ | _ | _ | i) lt
      · rfl
      · rfl
      · rfl
      · omega
    · intro patience
      have still (polls : Nat) : Call.clockAfter Call.idle ({ last := 5 } : Script) (fun _ => 1)
          polls = { last := 5 } := by
        induction polls with
        | zero => rfl
        | succ polls ih => rw [Call.clockAfter, ih]; rfl
      rw [decided.waitsOn _ _ (fun _ => 5) (fun _ => 1)]
      intro polls
      refine ⟨?_, fun _ _ => rfl⟩
      intro i _
      rw [still]
      rfl

end Tickstamp
