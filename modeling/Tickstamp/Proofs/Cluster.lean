import Mathlib.Data.List.Nodup
import Tickstamp.Proofs.Issue.Linearization
import Tickstamp.Proofs.Issuer.Workers
import Tickstamp.Proofs.Keys

/-!
# Stamps of a cluster

Generators that share a layout, but no worker id, never issue the same stamp:
each of them issues increasing stamps, and every stamp shows the id of a worker
that was bound to the generator that issued it. The generators may be of any
kind, each with its own clock, epoch and policies, and they need not know of one
another. To keep their worker ids apart is the business of whoever hands these
out.
-/

namespace Tickstamp

/-- A generator of a cluster with all that is asked of it. -/
inductive Member : Type 1 where
  /-- A locked generator, polled at these readings by whichever callers. -/
  | locked (config : Config) (worker : Int) (start : Progress) (readings : List Reading)
  /-- A generator on one word, whose callers interleave like this. -/
  | word (config : Config) (worker : Int) (start : Progress) (moves : List PollMove)
  /-- An issuer that is asked one request after the other. -/
  | issuer (config : Config) {σ : Type} [Clock σ] (patience : Nat) (clock : σ)
      (requests : List Operation)
  /-- An issuer that several callers share. -/
  | shared (config : Config) (moves : List SharedMove)

namespace Happening

/-- What may happen to one generator with this layout, from its making on. -/
structure Regular (l : Layout) (happenings : List Happening) : Prop where
  increasing : (stamps happenings).Pairwise (· < ·)
  attributed : Attributed l none happenings
  valid : ∀ s ∈ stamps happenings, l.isValid s = true

theorem Regular.nil (l : Layout) : Regular l [] :=
  ⟨List.Pairwise.nil, trivial, by simp [stamps]⟩

end Happening

open Happening

theorem Rules.isValid_of_commit {r : Rules} {p next : Progress} {now : UInt64} {stamp : Stamp}
    (h : r.respond p now = .ok (.commit next stamp)) : r.layout.isValid stamp = true := by
  obtain ⟨sequence, _, fits, _, rfl⟩ := (respond_eq_commit_iff ..).mp h
  exact Layout.isValid_of_encode ((Layout.encode_eq_ok_iff ..).mpr ⟨fits, rfl⟩)

theorem LockedGenerator.regular (g : LockedGenerator) (readings : List Reading) :
    Regular g.rules.layout
      (.bound g.rules.machine :: (Answer.stamps (g.answers readings)).map .issued) := by
  have stamps := stamps_map_issued (Answer.stamps (g.answers readings))
  refine ⟨?_, ?_, ?_⟩
  · change (Happening.stamps (List.map _ _)).Pairwise _
    rw [stamps]
    exact (g.history_climb readings).increasing
  · exact attributed_map_issued (g.machine_of_mem_answers readings)
  · change ∀ s ∈ Happening.stamps (List.map _ _), _
    rw [stamps]
    intro s issued
    obtain ⟨p, now, next, response⟩ := committed_of_mem_answers issued
    exact Rules.isValid_of_commit response

namespace Issuer

/-- Bindings and polls of an issuer bring about only valid stamps. -/
theorem isValid_of_reaches {k k' : Issuer} {happenings : List Happening} (h : k.Lawful)
    (course : k.Reaches happenings k') :
    ∀ s ∈ stamps happenings, k.config.layout.isValid s = true := by
  induction course with
  | refl => simp [stamps]
  | @bind happenings k' before worker ih =>
    rw [stamps_append, stamps_boundBy, List.append_nil]
    exact ih
  | @poll happenings k' before reading ih =>
    have leads := leads_of_reaches h before
    rw [stamps_append, stamps_map_issued]
    intro s hs
    rcases List.mem_append.mp hs with old | new
    · exact ih s old
    · cases bound : k'.bound with
      | none =>
        rw [offer, bound] at new
        cases new
      | some g =>
        rw [offer_of_bound bound] at new
        obtain ⟨p, now, next, response⟩ := LockedGenerator.committed_of_attempt new
        rw [← leads.config, ← leads.lawful.layout bound]
        exact Rules.isValid_of_commit response

theorem regular_of_reaches {c : Config} {k k' : Issuer} {happenings : List Happening}
    (made : ofConfig c = .ok k) (course : k.Reaches happenings k') :
    Regular c.layout happenings := by
  obtain ⟨lawful, rfl, unbound⟩ := lawful_of_ofConfig made
  have leads := leads_of_reaches lawful course
  have attributed := leads.attributed
  rw [unbound] at attributed
  exact ⟨leads.climb.increasing, attributed, isValid_of_reaches lawful course⟩

end Issuer

namespace Member

def config : Member → Config
  | locked config _ _ _ | word config _ _ _ | issuer config _ _ _ | shared config _ => config

/-- What happens to a member, in order; nothing happens to one that its configuration refuses. -/
def happenings : Member → List Happening
  | locked config worker start readings =>
    match LockedGenerator.startAt config worker start with
    | .error _ => []
    | .ok g => .bound g.rules.machine :: (Answer.stamps (g.answers readings)).map .issued
  | word config worker start moves =>
    match WordGenerator.startAt config worker start with
    | .error _ => []
    | .ok w =>
      let records := (Arena.run { generator := w } moves).1
      .bound w.rules.machine :: (PollRecord.stamps records).map .issued
  | issuer config patience clock requests =>
    match Issuer.ofConfig config with
    | .error _ => []
    | .ok k => (k.chronicle patience clock requests).1
  | shared config moves =>
    match Issuer.ofConfig config with
    | .error _ => []
    | .ok k => SharedEvent.happenings (SharedIssuer.run { issuer := k } moves).1

/-- The worker ids that a member was bound to at any time, as they were given. -/
def workers : Member → List Int
  | locked config worker start _ =>
    match LockedGenerator.startAt config worker start with
    | .error _ => []
    | .ok _ => [worker]
  | word config worker start _ =>
    match WordGenerator.startAt config worker start with
    | .error _ => []
    | .ok _ => [worker]
  | issuer config patience clock requests =>
    match Issuer.ofConfig config with
    | .error _ => []
    | .ok k => k.workers patience clock requests
  | shared config moves =>
    match Issuer.ofConfig config with
    | .error _ => []
    | .ok k => SharedIssuer.workers { issuer := k } moves

def stamps (m : Member) : List Stamp := Happening.stamps m.happenings

theorem regular (m : Member) : Regular m.config.layout m.happenings := by
  cases m with
  | locked config worker start readings =>
    rw [happenings]
    split
    · exact Regular.nil _
    · rename_i g begun
      have life := LockedGenerator.regular g readings
      rwa [Rules.layout_eq (LockedGenerator.accepted_of_startAt begun)] at life
  | word config worker start moves =>
    rw [happenings]
    split
    · exact Regular.nil _
    · rename_i w begun
      -- its commits are those of a locked generator that starts likewise
      obtain ⟨g, locked, mirrors⟩ := WordGenerator.mirrors_of_startAt begun
      obtain ⟨answers, _⟩ := Arena.run_mirrors { generator := w } moves mirrors
      have life := g.regular (PollRecord.readings (Arena.run { generator := w } moves).1)
      have layout := Rules.layout_eq (WordGenerator.accepted_of_startAt begun)
      rw [answers, Answer.stamps_map_ready, ← mirrors.rules, layout] at life
      exact life
  | issuer config patience clock requests =>
    rw [happenings]
    split
    · exact Regular.nil _
    · rename_i k made
      exact Issuer.regular_of_reaches made (k.reaches_chronicle patience clock requests)
  | shared config moves =>
    rw [happenings]
    split
    · exact Regular.nil _
    · rename_i k made
      exact Issuer.regular_of_reaches made (SharedIssuer.reaches_run { issuer := k } moves)

theorem workers_eq (m : Member) : m.workers = Happening.workers m.happenings := by
  cases m with
  | locked config worker start readings =>
    rw [workers, happenings]
    cases begun : LockedGenerator.startAt config worker start with
    | error fault => rfl
    | ok g =>
      rw [Rules.worker_eq (LockedGenerator.accepted_of_startAt begun)]
      exact congrArg (_ :: ·) (workers_map_issued _).symm
  | word config worker start moves =>
    rw [workers, happenings]
    cases begun : WordGenerator.startAt config worker start with
    | error fault => rfl
    | ok w =>
      rw [Rules.worker_eq (WordGenerator.accepted_of_startAt begun)]
      exact congrArg (_ :: ·) (workers_map_issued _).symm
  | issuer config patience clock requests =>
    rw [workers, happenings]
    cases made : Issuer.ofConfig config with
    | error fault => rfl
    | ok k => exact k.workers_eq patience clock requests
  | shared config moves =>
    rw [workers, happenings]
    cases made : Issuer.ofConfig config with
    | error fault => rfl
    | ok k => exact SharedIssuer.workers_eq { issuer := k } moves

/-- The worker that a stamp shows was bound to the member that issued it. -/
theorem worker_mem (m : Member) :
    ∀ s ∈ m.stamps, ((m.config.layout.decode s).machine.toNat : Int) ∈ m.workers := by
  rw [m.workers_eq]
  exact worker_mem_of_attributed m.regular.attributed

end Member

theorem Layout.encodeKey_injOn {l : Layout} {s s' : Stamp} (valid : l.isValid s = true)
    (same : l.encodeKey s = l.encodeKey s') : s = s' := by
  obtain ⟨key, written, read⟩ := exists_key_of_isValid valid
  rw [written] at same
  have read' := (l.decodeKey_eq_ok_iff key s').mpr same.symm
  exact Except.ok.inj (read.symm.trans read')

/-- In a cluster whose members share a layout, and of whose worker ids none was ever bound to
two members, no stamp is issued twice: not by two members, and not by one. All stamps have texts
of one width, and no two of these are the same. -/
theorem cluster_stamps_distinct {l : Layout} {members : List Member}
    (layout : ∀ m ∈ members, m.config.layout = l)
    (apart : members.Pairwise fun m m' => m.workers.Disjoint m'.workers) :
    (members.flatMap Member.stamps).Nodup ∧
      (∀ s ∈ members.flatMap Member.stamps,
        ∃ key, l.encodeKey s = .ok key ∧ key.utf8ByteSize = l.keyWidth) ∧
      ((members.flatMap Member.stamps).map l.encodeKey).Nodup := by
  have distinct : (members.flatMap Member.stamps).Nodup := by
    refine List.nodup_flatMap.mpr ⟨?_, ?_⟩
    · intro m _
      exact Stamp.nodup_of_increasing m.regular.increasing
    · refine apart.imp_of_mem ?_
      intro m m' hm hm' disjoint s issued issued'
      have bound := m.worker_mem s issued
      have bound' := m'.worker_mem s issued'
      rw [layout m hm] at bound
      rw [layout m' hm'] at bound'
      exact disjoint bound bound'
  have valid : ∀ s ∈ members.flatMap Member.stamps, l.isValid s = true := by
    intro s hs
    obtain ⟨m, hm, issued⟩ := List.mem_flatMap.mp hs
    rw [← layout m hm]
    exact m.regular.valid s issued
  refine ⟨distinct, ?_, ?_⟩
  · intro s hs
    obtain ⟨key, written, _⟩ := Layout.exists_key_of_isValid (valid s hs)
    exact ⟨key, written, Layout.utf8ByteSize_of_encodeKey written⟩
  · refine List.Nodup.map_on ?_ distinct
    intro s hs s' _ same
    exact Layout.encodeKey_injOn (valid s hs) same

/-- An issuer goes over from worker 2 to worker 1 while its clock stands still; two callers race on
a generator of worker 7 with another epoch, whose clock shows the same. -/
theorem cluster_stamps_distinct_at_one_time :
    let clock : Script := { lines := [.shows 5, .shows 5, .shows 6] }
    let members := [Member.issuer {} 9 clock [.bind 2, .generate, .bind 1, .generateBatch 1],
      Member.word { epoch := 1 } 7 .fresh [.load 0, .load 1, .read 0 (.shows 5),
        .read 1 (.shows 5), .conclude 1, .conclude 0]]
    members.map Member.workers = [[2, 1], [7]] ∧
      members.map (fun m => m.stamps.length) = [2, 1] ∧
      (members.flatMap Member.stamps).Nodup := by
  intro clock members
  have workers : members.map Member.workers = [[2, 1], [7]] := by decide
  have apart : (members.map Member.workers).Pairwise List.Disjoint := by
    rw [workers]
    simp
  refine ⟨workers, by decide, ?_⟩
  refine (cluster_stamps_distinct (l := .standard) ?_ (List.pairwise_map.mp apart)).1
  intro m hm
  rcases List.mem_pair.mp hm with rfl | rfl
  · rfl
  · rfl

end Tickstamp
