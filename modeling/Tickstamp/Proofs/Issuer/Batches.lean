import Tickstamp.Proofs.Cluster
import Tickstamp.Proofs.Issuer.Idling

/-!
# Batches and single stamps

A batch is nothing but calls for single stamps, one after the other, up to the
first that fails: it takes the same readings, and leaves the same state. So it
can be divided, and the requests for texts and for keys differ from it in what
they show alone, since every stamp that is issued can be written as a text. The
calls of others in between are not considered.
-/

namespace Tickstamp
namespace Call

variable {γ σ : Type} (poll : Poll γ σ)

theorem batchAfter_eq (patience : Nat) (done : List Stamp) (count : Nat) (g : γ) (clock : σ) :
    batchAfter poll patience done count g clock =
      let rest := batch poll patience count g clock
      ⟨done.reverse ++ rest.issued, rest.halt, rest.generator, rest.clock⟩ := by
  induction count generalizing done g clock with
  | zero => simp [batch, batchAfter]
  | succ count ih =>
    simp only [batch, batchAfter]
    cases (next poll idle patience g clock).result with
    | error halt => simp
    | ok stamp =>
      simp only [ih (stamp :: done), ih [stamp], List.reverse_cons, List.append_assoc]
      simp

theorem batch_succ_of_ok {patience : Nat} {g : γ} {clock : σ} {stamp : Stamp}
    (made : (next poll idle patience g clock).result = .ok stamp) (count : Nat) :
    batch poll patience (count + 1) g clock =
      let one := next poll idle patience g clock
      let rest := batch poll patience count one.generator one.clock
      ⟨stamp :: rest.issued, rest.halt, rest.generator, rest.clock⟩ := by
  simp only [batch, batchAfter, made]
  rw [batchAfter_eq]
  rfl

theorem batch_succ_of_error {patience : Nat} {g : γ} {clock : σ} {halt : Halt}
    (failed : (next poll idle patience g clock).result = .error halt) (count : Nat) :
    batch poll patience (count + 1) g clock =
      let one := next poll idle patience g clock
      ⟨[], some halt, one.generator, one.clock⟩ := by
  simp only [batch, batchAfter, failed]
  rfl

end Call
namespace Issuer

variable {k : Issuer} {g : LockedGenerator} {σ : Type} [Clock σ]

theorem exists_bound_generate (bound : k.bound = some g) (patience : Nat) (clock : σ) :
    ∃ g', (k.generate patience clock).issuer.bound = some g' := by
  rw [generate, bound]
  exact ⟨_, rfl⟩

theorem generateBatch_succ_of_ok (bound : k.bound = some g) {patience : Nat} {clock : σ}
    {stamp : Stamp} (made : (k.generate patience clock).result = .ok stamp) (count : Nat) :
    k.generateBatch patience (count + 1) clock =
      let one := k.generate patience clock
      let rest := one.issuer.generateBatch patience count one.clock
      ⟨rest.result.map (stamp :: ·), stamp :: rest.issued, rest.issuer, rest.clock⟩ := by
  simp only [generate, bound] at made
  simp only [generateBatch, generate, bound, Call.batch_succ_of_ok _ made]
  generalize Call.batch (LockedGenerator.poll (σ := σ)) patience count _ _ = rest
  obtain ⟨issued, halt, g', later⟩ := rest
  cases halt <;> rfl

theorem generateBatch_succ_of_error (bound : k.bound = some g) {patience : Nat} {clock : σ}
    {halt : Halt} (failed : (k.generate patience clock).result = .error halt) (count : Nat) :
    k.generateBatch patience (count + 1) clock =
      ⟨.error halt, [], (k.generate patience clock).issuer, (k.generate patience clock).clock⟩ := by
  simp only [generate, bound] at failed
  simp only [generateBatch, generate, bound, Call.batch_succ_of_error _ failed]
  rfl

/-- Calls for single stamps, one after the other, whether or not they succeed. -/
def singles (k : Issuer) (patience calls : Nat) (clock : σ) : List (Performed σ) :=
  k.performAll patience clock (List.replicate calls .generate)

/-- The issuer and the clock after so many calls for single stamps. -/
def afterSingles (k : Issuer) (patience calls : Nat) (clock : σ) : Issuer × σ :=
  (k.chronicle patience clock (List.replicate calls .generate)).2

theorem singles_succ (k : Issuer) (patience calls : Nat) (clock : σ) :
    k.singles patience (calls + 1) clock =
      let one := k.generate patience clock
      .ofRun .stamp one :: one.issuer.singles patience calls one.clock :=
  rfl

/-- As many single calls all succeed, and the batch shows their stamps and leaves what they do. -/
structure Completes (k : Issuer) (patience count : Nat) (clock : σ) (stamps : List Stamp) :
    Prop where
  replies : (k.singles patience count clock).map (·.reply) = stamps.map .stamp
  batch : k.generateBatch patience count clock =
    let after := k.afterSingles patience count clock
    ⟨.ok stamps, stamps, after.1, after.2⟩

/-- The single calls fail before there are as many, and the batch fails like the first of them
and leaves what they do up to this one. -/
structure Fails (k : Issuer) (patience count : Nat) (clock : σ) (stamps : List Stamp)
    (halt : Halt) : Prop where
  early : stamps.length < count
  replies : (k.singles patience (stamps.length + 1) clock).map (·.reply) =
    stamps.map .stamp ++ [.halted halt]
  batch : k.generateBatch patience count clock =
    let after := k.afterSingles patience (stamps.length + 1) clock
    ⟨.error halt, stamps, after.1, after.2⟩

/-- A batch is a row of single calls that ends with the first that fails. -/
theorem completes_or_fails (bound : k.bound = some g) (patience count : Nat) (clock : σ) :
    (∃ stamps, k.Completes patience count clock stamps) ∨
      ∃ stamps halt, k.Fails patience count clock stamps halt := by
  induction count generalizing k g clock with
  | zero => exact Or.inl ⟨[], rfl, generateBatch_zero bound patience clock⟩
  | succ count ih =>
    cases made : (k.generate patience clock).result with
    | error halt =>
      refine Or.inr ⟨[], halt, Nat.succ_pos count, ?_, ?_⟩
      · rw [List.length_nil, singles_succ]
        simp only [List.map_cons, Performed.ofRun, made]
        rfl
      · exact generateBatch_succ_of_error bound made count
    | ok stamp =>
      obtain ⟨g', next⟩ := exists_bound_generate bound patience clock
      have first : (Performed.ofRun .stamp (k.generate patience clock)).reply = .stamp stamp := by
        rw [Performed.ofRun, made]
        rfl
      rcases ih next (k.generate patience clock).clock with
        ⟨stamps, complete⟩ | ⟨stamps, halt, failed⟩
      · refine Or.inl ⟨stamp :: stamps, ?_, ?_⟩
        · rw [singles_succ, List.map_cons, first, complete.replies, List.map_cons]
        · rw [generateBatch_succ_of_ok bound made]
          simp only [complete.batch]
          rfl
      · refine Or.inr ⟨stamp :: stamps, halt, Nat.succ_lt_succ failed.early, ?_, ?_⟩
        · rw [List.length_cons, singles_succ, List.map_cons, first, failed.replies]
          rfl
        · rw [generateBatch_succ_of_ok bound made]
          simp only [failed.batch]
          rfl

/-- A batch that is followed by another one, unless it fails. -/
def Run.followedBy (first : Run (List Stamp) σ) (patience more : Nat) : Run (List Stamp) σ :=
  match first.result with
  | .error _ => first
  | .ok stamps =>
    let second := first.issuer.generateBatch patience more first.clock
    ⟨second.result.map (stamps ++ ·), first.issued ++ second.issued, second.issuer, second.clock⟩

theorem generateBatch_add (bound : k.bound = some g) (patience count more : Nat) (clock : σ) :
    k.generateBatch patience (count + more) clock =
      (k.generateBatch patience count clock).followedBy patience more := by
  induction count generalizing k g clock with
  | zero =>
    rw [generateBatch_zero bound, Nat.zero_add]
    simp only [Run.followedBy]
    cases k.generateBatch patience more clock with
    | mk result issued issuer later => cases result <;> rfl
  | succ count ih =>
    rw [Nat.add_right_comm]
    cases made : (k.generate patience clock).result with
    | error halt =>
      rw [generateBatch_succ_of_error bound made, generateBatch_succ_of_error bound made]
      rfl
    | ok stamp =>
      obtain ⟨g', next⟩ := exists_bound_generate bound patience clock
      rw [generateBatch_succ_of_ok bound made, generateBatch_succ_of_ok bound made]
      simp only [ih next]
      generalize (k.generate patience clock).issuer.generateBatch patience count
        (k.generate patience clock).clock = first
      obtain ⟨result, issued, k', later⟩ := first
      cases result with
      | error halt => rfl
      | ok stamps =>
        simp only [Run.followedBy, Except.map, List.cons_append]
        cases (k'.generateBatch patience more later).result <;> rfl

/-- The same stamps in another form. -/
def Run.inForm {α : Type} (form : Stamp → α) (batch : Run (List Stamp) σ) : Run (List α) σ :=
  ⟨batch.result.map (·.map form), batch.issued, batch.issuer, batch.clock⟩

theorem issued_of_generateBatch {patience count : Nat} {clock : σ} {stamps : List Stamp}
    (made : (k.generateBatch patience count clock).result = .ok stamps) :
    (k.generateBatch patience count clock).issued = stamps := by
  cases bound : k.bound with
  | none =>
    rw [generateBatch_of_unbound bound] at made
    cases made
  | some g =>
    rcases completes_or_fails bound patience count clock with ⟨_, complete⟩ | ⟨_, _, failed⟩
    · rw [complete.batch] at made ⊢
      exact Except.ok.inj made
    · rw [failed.batch] at made
      cases made

/-- A batch in a form that each of its stamps has. -/
theorem andThen_mapM_eq_inForm {α : Type} {patience count : Nat} {clock : σ}
    {convert : Stamp → Except Halt α} {form : Stamp → α}
    (has : ∀ s ∈ (k.generateBatch patience count clock).issued, convert s = .ok (form s)) :
    (k.generateBatch patience count clock).andThen (·.mapM convert) =
      (k.generateBatch patience count clock).inForm form := by
  rw [Run.andThen, Run.inForm]
  cases made : (k.generateBatch patience count clock).result with
  | error halt => rfl
  | ok stamps =>
    rw [issued_of_generateBatch made] at has
    simp only [Except.bind, Halt.mapM_eq_ok has]
    rfl

theorem exists_texts {c : Config} {k₀ : Issuer} {happenings : List Happening}
    (made : ofConfig c = .ok k₀) (course : k₀.Reaches happenings k) (patience count : Nat)
    (clock : σ) :
    ∃ text : Stamp → String, ∀ s ∈ (k.generateBatch patience count clock).issued,
      c.layout.encodeKey s = .ok (text s) := by
  obtain ⟨lawful, config, _⟩ := lawful_of_ofConfig made
  have leads := leads_of_reaches lawful course
  have more := (k.unfolds_generateBatch patience count clock).reaches
  refine ⟨fun s => Numeral.radix62 c.layout.keyWidth s.word.toNat, ?_⟩
  intro s issued
  have valid := isValid_of_reaches leads.lawful more s (by rwa [Happening.stamps_map_issued])
  rw [leads.config, config] at valid
  exact (c.layout.encodeKey_eq_ok_iff s _).mpr ⟨valid, rfl⟩

/-- In every state of an issuer with a worker, a batch takes the readings, shows the stamps and
leaves the state of as many calls for single stamps, or of those up to the first that fails, with
its failure. So a batch of two parts is a batch that is followed by another. The requests for texts
and for keys issue the same stamps and fail like a batch; if it does not fail, they show its stamps
in the form that is asked for, which every stamp has. -/
theorem batches_agree_with_singles {c : Config} {k₀ : Issuer} {happenings : List Happening}
    (made : ofConfig c = .ok k₀) (course : k₀.Reaches happenings k) (bound : k.bound = some g)
    (patience count : Nat) (clock : σ) :
    let batch := k.generateBatch patience count clock
    ((∃ stamps, k.Completes patience count clock stamps) ∨
      ∃ stamps halt, k.Fails patience count clock stamps halt) ∧
    (∀ more, k.generateBatch patience (count + more) clock = batch.followedBy patience more) ∧
    ∃ text : Stamp → String, (∀ s ∈ batch.issued, c.layout.encodeKey s = .ok (text s)) ∧
      k.generateTexts patience count clock = batch.inForm text ∧
      k.generateKeys patience count clock =
        batch.inForm fun s => if c.asString then .text (text s) else .numeric s := by
  intro batch
  refine ⟨completes_or_fails bound patience count clock,
    fun more => generateBatch_add bound patience count more clock, ?_⟩
  obtain ⟨text, written⟩ := exists_texts made course patience count clock
  obtain ⟨lawful, config, _⟩ := lawful_of_ofConfig made
  have same : k.config = c := (leads_of_reaches lawful course).config.trans config
  have texts : ∀ s ∈ batch.issued, k.textOf s = .ok (text s) := by
    intro s issued
    rw [textOf, same, written s issued]
    rfl
  refine ⟨text, written, andThen_mapM_eq_inForm texts, andThen_mapM_eq_inForm ?_⟩
  intro s issued
  rw [keyOf, same]
  split
  · rw [texts s issued]
    rfl
  · rfl

/-- A clock that breaks down when it is read for the third time: two stamps come as texts, and three
fail with two of them issued. -/
theorem batches_agree_with_singles_at_breakdown :
    ∃ k g, Reaches { config := { asString := true } } [.bound 7] k ∧ k.bound = some g ∧
      let clock : Script := { lines := [.shows 5, .shows 5, .breaksDown] }
      (k.generateKeys 9 2 clock).result = .ok [.text "0000001Q76m", .text "0000001Q76n"] ∧
      k.generateBatch 9 3 clock = (k.generateBatch 9 2 clock).followedBy 9 1 ∧
      ∃ stamps, k.Fails 9 3 clock stamps .abandoned := by
  have made : ofConfig { asString := true } = .ok { config := { asString := true } } := rfl
  have course := reaches_bind { config := { asString := true } } 7
  refine ⟨_, _, course, rfl, ?_⟩
  intro clock
  have two := batches_agree_with_singles made course rfl 9 2 clock
  have three := batches_agree_with_singles made course rfl 9 3 clock
  refine ⟨by decide +kernel, two.2.1 1, ?_⟩
  have broken : ((bind { config := { asString := true } } 7).2.generateBatch 9 3 clock).result =
    .error .abandoned := by decide +kernel
  rcases three.1 with ⟨stamps, complete⟩ | ⟨stamps, halt, failed⟩
  · rw [complete.batch] at broken
    cases broken
  · rw [failed.batch] at broken
    cases broken
    exact ⟨stamps, failed⟩

end Issuer
end Tickstamp
