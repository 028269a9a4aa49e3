import Tickstamp.Issuer.Operation
import Tickstamp.Proofs.Issue.Likeness

/-!
# Settings that can be exchanged

The half of the range is a threshold that need not be written down, and to begin
every tick at zero is to carry over up to a threshold of zero. Either setting can
be exchanged for the threshold it stands for, and nobody will notice: not when the
configuration is validated, not from the answers of a generator of either kind,
and not from the replies of an issuer, whichever workers are bound meanwhile. The
settings themselves remain different data.
-/

namespace Tickstamp
namespace Issuer

/-- Issuers with generators that are alike, or with none. -/
inductive Like : Issuer → Issuer → Prop where
  | unbound {c d : Config} (configs : c.Like d) : Like ⟨c, none⟩ ⟨d, none⟩
  | bound {c d : Config} {g h : LockedGenerator} (configs : c.Like d) (generators : g.Like h) :
    Like ⟨c, some g⟩ ⟨d, some h⟩

variable {k j : Issuer}

theorem agree_ofConfig {c d : Config} (alike : c.Like d) :
    Fault.Agree Like (ofConfig c) (ofConfig d) := by
  rw [ofConfig, ofConfig, alike.validate_eq]
  refine (Fault.agree_self _).bind ?_
  rintro _ _ rfl
  exact .made (.unbound alike)

theorem Like.config (alike : k.Like j) : k.config.Like j.config := by
  cases alike with
  | unbound configs => exact configs
  | bound configs generators => exact configs

theorem Like.worker_eq (alike : k.Like j) : k.worker = j.worker := by
  cases alike with
  | unbound configs => rfl
  | bound configs generators =>
    cases generators with
    | swap rules progress poisoned => exact congrArg Except.ok rules.machine_eq

/-- Bindings have the same result, and hand over the same progress. -/
theorem Like.bind (alike : k.Like j) (worker : Int) :
    (k.bind worker).1 = (j.bind worker).1 ∧ (k.bind worker).2.Like (j.bind worker).2 := by
  have made := Rules.agree_ofConfig alike.config worker
  rw [Issuer.bind, Issuer.bind]
  generalize Rules.ofConfig k.config worker = accepted at made ⊢
  generalize Rules.ofConfig j.config worker = accepted' at made ⊢
  cases made with
  | refused fault => exact ⟨rfl, alike⟩
  | @made r s rules =>
    cases alike with
    | unbound configs =>
      exact ⟨congrArg Except.ok rules.machine_eq, .bound configs (.swap rules .fresh false)⟩
    | bound configs generators =>
      cases generators with
      | swap present progress poisoned =>
        simp only [present.machine_eq, rules.machine_eq, configs.layout_eq]
        split
        · exact ⟨rfl, .bound configs (.swap present progress poisoned)⟩
        · -- a poisoned lock keeps the progress from being handed over
          cases poisoned with
          | true => exact ⟨rfl, .bound configs (.swap present progress true)⟩
          | false => exact ⟨rfl, .bound configs (.swap rules _ false)⟩

theorem Like.bindFrom (alike : k.Like j) (source : Except String Int) :
    (k.bindFrom source).1 = (j.bindFrom source).1 ∧
      (k.bindFrom source).2.Like (j.bindFrom source).2 := by
  cases source with
  | error text => exact ⟨rfl, alike⟩
  | ok worker => exact alike.bind worker

theorem Like.offer (alike : k.Like j) (reading : Reading) :
    (k.offer reading).1 = (j.offer reading).1 ∧ (k.offer reading).2.Like (j.offer reading).2 := by
  cases alike with
  | unbound configs => exact ⟨rfl, .unbound configs⟩
  | bound configs generators =>
    obtain ⟨answer, after⟩ := generators.attempt reading
    exact ⟨answer, .bound configs after⟩

theorem Like.history (alike : k.Like j) (readings : List Reading) :
    (history Issuer.offer k readings).1 = (history Issuer.offer j readings).1 ∧
      (history Issuer.offer k readings).2.Like (history Issuer.offer j readings).2 :=
  history_related (fun reading _ _ _ alike => alike.offer reading) alike

theorem Like.textOf_eq (alike : k.Like j) : k.textOf = j.textOf := by
  funext s
  rw [textOf, textOf, alike.config.layout_eq]

theorem Like.keyOf_eq (alike : k.Like j) : k.keyOf = j.keyOf := by
  funext s
  rw [keyOf, keyOf, alike.textOf_eq, alike.config.asString_eq]

theorem Like.decode_eq (alike : k.Like j) : k.decode = j.decode :=
  alike.config.originOf_eq

theorem Like.decodeText_eq (alike : k.Like j) : k.decodeText = j.decodeText := by
  funext text
  rw [decodeText, decodeText, alike.config.originOf_eq, alike.config.layout_eq]

theorem Like.decodeKey_eq (alike : k.Like j) : k.decodeKey = j.decodeKey := by
  funext key
  cases key with
  | numeric stamp => exact congrFun alike.decode_eq stamp
  | text text => exact congrFun alike.decodeText_eq text

variable {σ : Type}

/-- The same run on issuers that are alike. -/
inductive Run.Like {α : Type} : Run α σ → Run α σ → Prop where
  | swap {k j : Issuer} (alike : k.Like j) (result : Except Halt α) (issued : List Stamp)
    (clock : σ) : Like ⟨result, issued, k, clock⟩ ⟨result, issued, j, clock⟩

/-- The same reply of issuers that are alike. -/
inductive Performed.Like : Performed σ → Performed σ → Prop where
  | swap {k j : Issuer} (alike : k.Like j) (reply : Reply) (issued : List Stamp) (clock : σ) :
    Like ⟨reply, issued, k, clock⟩ ⟨reply, issued, j, clock⟩

theorem Run.Like.andThen {α β : Type} {r s : Run α σ} (alike : r.Like s)
    {f g : α → Except Halt β} (same : f = g) : (r.andThen f).Like (s.andThen g) := by
  cases alike with
  | swap alike result issued clock =>
    rw [same]
    exact .swap alike (result.bind g) issued clock

theorem Run.Like.ofRun {α : Type} {r s : Run α σ} (alike : r.Like s) (reply : α → Reply) :
    (Performed.ofRun reply r).Like (Performed.ofRun reply s) := by
  cases alike with
  | swap alike result issued clock => exact .swap alike (.ofResult reply result) issued clock

theorem Like.quietly {α : Type} (alike : k.Like j) (reply : α → Reply) {x y : Except Fault α}
    (same : x = y) (clock : σ) :
    (Performed.quietly reply x k clock).Like (Performed.quietly reply y j clock) := by
  rw [same]
  exact .swap alike (.ofExcept reply y) [] clock

variable [Clock σ]

theorem Like.generate (alike : k.Like j) (patience : Nat) (clock : σ) :
    (k.generate patience clock).Like (j.generate patience clock) := by
  cases alike with
  | unbound configs => exact .swap (.unbound configs) (.error (.refused .workerUnbound)) [] clock
  | @bound c d g h configs generators =>
    have called := Call.next_like LockedGenerator.poll_alike Call.idle patience generators clock
    simp only [Issuer.generate]
    generalize Call.next LockedGenerator.poll Call.idle patience g clock = one at called ⊢
    generalize Call.next LockedGenerator.poll Call.idle patience h clock = other at called ⊢
    cases called with
    | swap after result waits clock =>
      exact .swap (.bound configs after) result result.toOption.toList clock

theorem Like.generateBatch (alike : k.Like j) (patience count : Nat) (clock : σ) :
    (k.generateBatch patience count clock).Like (j.generateBatch patience count clock) := by
  cases alike with
  | unbound configs => exact .swap (.unbound configs) (.error (.refused .workerUnbound)) [] clock
  | @bound c d g h configs generators =>
    have called := Call.batchAfter_like LockedGenerator.poll_alike patience [] count generators
      clock
    simp only [Issuer.generateBatch, Call.batch]
    generalize Call.batchAfter LockedGenerator.poll patience [] count g clock = one at called ⊢
    generalize Call.batchAfter LockedGenerator.poll patience [] count h clock = other at called ⊢
    cases called with
    | swap after issued halt clock =>
      exact .swap (.bound configs after) (Call.Batch.result ⟨issued, halt, g, clock⟩) issued clock

/-- Every request gets the same reply. -/
theorem Like.perform (alike : k.Like j) (patience : Nat) (clock : σ) (request : Operation) :
    (k.perform patience clock request).Like (j.perform patience clock request) := by
  cases request with
  | bind worker =>
    obtain ⟨result, after⟩ := alike.bind worker
    exact after.quietly .machine result clock
  | bindFrom source =>
    obtain ⟨result, after⟩ := alike.bindFrom source
    exact after.quietly .machine result clock
  | worker => exact alike.quietly .machine alike.worker_eq clock
  | generate => exact (alike.generate patience clock).ofRun .stamp
  | generateBatch count => exact (alike.generateBatch patience count clock).ofRun .stamps
  | generateText =>
    exact ((alike.generate patience clock).andThen alike.textOf_eq).ofRun .text
  | generateTexts count =>
    exact ((alike.generateBatch patience count clock).andThen
      (by rw [alike.textOf_eq])).ofRun .texts
  | generateKey => exact ((alike.generate patience clock).andThen alike.keyOf_eq).ofRun .key
  | generateKeys count =>
    exact ((alike.generateBatch patience count clock).andThen (by rw [alike.keyOf_eq])).ofRun .keys
  | decode stamp => exact alike.quietly .origin (congrFun alike.decode_eq stamp) clock
  | decodeText text => exact alike.quietly .origin (congrFun alike.decodeText_eq text) clock
  | decodeKey key => exact alike.quietly .origin (congrFun alike.decodeKey_eq key) clock

/-- What requests, made one after the other, reply and issue. -/
def replies (k : Issuer) (patience : Nat) (clock : σ) (requests : List Operation) :
    List (Reply × List Stamp) :=
  (k.performAll patience clock requests).map fun done => (done.reply, done.issued)

theorem Like.replies_eq (alike : k.Like j) (patience : Nat) (clock : σ)
    (requests : List Operation) :
    k.replies patience clock requests = j.replies patience clock requests := by
  induction requests generalizing k j clock with
  | nil => rfl
  | cons request rest ih =>
    have performed := alike.perform patience clock request
    rw [replies, replies, performAll, performAll]
    generalize k.perform patience clock request = done at performed ⊢
    generalize j.perform patience clock request = done' at performed ⊢
    cases performed with
    | swap after reply issued clock => exact congrArg ((reply, issued) :: ·) (ih after clock)

/-- Workers that are bound one after the other, and polled at some readings before the next: the
results of the bindings, and the answers. -/
def stints (k : Issuer) : List (Int × List Reading) → List (Except Fault UInt64 × List Answer)
  | [] => []
  | (worker, readings) :: rest =>
    let (result, k) := k.bind worker
    let (answers, k) := history offer k readings
    (result, answers) :: k.stints rest

theorem Like.stints_eq (alike : k.Like j) (terms : List (Int × List Reading)) :
    k.stints terms = j.stints terms := by
  induction terms generalizing k j with
  | nil => rfl
  | cons term rest ih =>
    obtain ⟨worker, readings⟩ := term
    obtain ⟨result, bound⟩ := alike.bind worker
    obtain ⟨answers, after⟩ := bound.history readings
    rw [stints, stints]
    exact congrArg₂ List.cons (congrArg₂ Prod.mk result answers) (ih after)

end Issuer

/-- Configurations that nobody can tell apart. Each part but the first says also that both are
accepted, or that both are refused with the same fault. -/
structure Interchangeable (c d : Config) : Prop where
  validate : c.validate = d.validate
  locked : ∀ worker start readings,
    (LockedGenerator.startAt c worker start).map (·.answers readings) =
      (LockedGenerator.startAt d worker start).map (·.answers readings)
  word : ∀ worker start readings,
    (WordGenerator.startAt c worker start).map (·.answers readings) =
      (WordGenerator.startAt d worker start).map (·.answers readings)
  overlapping : ∀ worker start moves,
    (WordGenerator.startAt c worker start).map (·.records moves) =
      (WordGenerator.startAt d worker start).map (·.records moves)
  rebound : ∀ terms, (Issuer.ofConfig c).map (·.stints terms) =
    (Issuer.ofConfig d).map (·.stints terms)
  served : ∀ (σ : Type) [Clock σ] (patience : Nat) (clock : σ) (requests : List Operation),
    (Issuer.ofConfig c).map (·.replies patience clock requests) =
      (Issuer.ofConfig d).map (·.replies patience clock requests)

theorem Config.Like.interchangeable {c d : Config} (alike : c.Like d) : Interchangeable c d where
  validate := alike.validate_eq
  locked worker start readings := (LockedGenerator.agree_startAt alike worker start).map_eq
    fun _ _ alike => alike.answers_eq readings
  word worker start readings := (WordGenerator.agree_startAt alike worker start).map_eq
    fun _ _ alike => alike.answers_eq readings
  overlapping worker start moves := (WordGenerator.agree_startAt alike worker start).map_eq
    fun _ _ alike => alike.records_eq moves
  rebound terms := (Issuer.agree_ofConfig alike).map_eq fun _ _ alike => alike.stints_eq terms
  served _ _ patience clock requests := (Issuer.agree_ofConfig alike).map_eq
    fun _ _ alike => alike.replies_eq patience clock requests

/-- Whatever else a configuration says, the lower half can be exchanged for its threshold, and a
sequence that is never carried over for one that is carried over up to zero. The configuration is
accepted with the one exactly if it is with the other, and generators and issuers behave the same,
whatever they begin with. -/
theorem equal_thresholds_interchangeable (c : Config) :
    Interchangeable { c with carryOver := .half } { c with carryOver := .halfOf c.layout } ∧
      Interchangeable { c with carryOver := .never } { c with carryOver := .upTo 0 } := by
  constructor
  · have alike : CarryOver.half.Like c.layout (.halfOf c.layout) :=
      ⟨(CarryOver.validate_halfOf c.layout).symm, (CarryOver.threshold_halfOf c.layout).symm⟩
    exact (Config.Like.swap (c := { c with carryOver := .half }) alike).interchangeable
  · have alike : CarryOver.never.Like c.layout (.upTo 0) :=
      ⟨(CarryOver.validate_upTo_zero c.layout).symm, rfl⟩
    exact (Config.Like.swap (c := { c with carryOver := .never }) alike).interchangeable

end Tickstamp
