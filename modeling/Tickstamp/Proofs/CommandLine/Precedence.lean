import Tickstamp.Proofs.CommandLine.Lines

/-!
# Which of several values counts

A setting may be given behind the name of the command, before it, by a variable
or not at all. The first of these that gives it decides, wherever the others
stand and however they are spelled, and what becomes of a command line depends
on nothing else. A command line that is refused is not considered; which ones
these are follows from what the accepted ones look like.
-/

namespace Tickstamp.CommandLine

/-! ## Behind the name of the command -/

theorem finish_eq_ok_iff (env : Environment) (l m : Level) (g : Given) :
    l.finish env = .ok (m, g) ↔ l.settle = .ok m ∧ Given.ofEnvironment env m.given = .ok g := by
  rw [Level.finish, UsageError.bind_eq_ok_iff]
  constructor
  · rintro ⟨_, settled, read⟩
    obtain ⟨_, given, ⟨⟩⟩ := UsageError.bind_eq_ok_iff.mp read
    exact ⟨settled, given⟩
  · rintro ⟨settled, given⟩
    exact ⟨m, settled, UsageError.bind_eq_ok_iff.mpr ⟨g, given, rfl⟩⟩

theorem takeInner_eq_ok_iff (env : Environment) (place : Place) (l m : Level) (g : Given)
    (args : List String) :
    takeInner env place l args = .ok (m, g) ↔
      (∃ l', args.foldlM (Level.take place) l = .ok l' ∧ l'.settle = .ok m) ∧
        Given.ofEnvironment env m.given = .ok g ∧ (place = .decode → m.ids ≠ []) := by
  induction args generalizing l with
  | nil =>
    rw [takeInner, UsageError.bind_eq_ok_iff]
    constructor
    · rintro ⟨⟨m', g'⟩, finished, read⟩
      by_cases missing : place = .decode ∧ m'.ids = []
      · simp [missing, throw, throwThe, MonadExceptOf.throw, bind, Except.bind] at read
      · simp only [if_neg missing] at read
        cases read
        obtain ⟨settled, given⟩ := (finish_eq_ok_iff ..).mp finished
        exact ⟨⟨l, rfl, settled⟩, given, fun decode none => missing ⟨decode, none⟩⟩
    · rintro ⟨⟨_, ⟨⟩, settled⟩, given, some⟩
      refine ⟨(m, g), (finish_eq_ok_iff ..).mpr ⟨settled, given⟩, ?_⟩
      have present : ¬ (place = .decode ∧ m.ids = []) := fun missing => some missing.1 missing.2
      simp only [if_neg present]
      rfl
  | cons arg rest ih =>
    rw [takeInner]
    cases taken : l.take place arg with
    | error e => simp [taken, bind, Except.bind]
    | ok next =>
      rw [List.foldlM_cons, taken]
      exact ih next

/-! ## Before the name of the command -/

theorem take_command {l : Level} {arg : String} (name : arg ∈ ["generate", "decode", "help"])
    (closed : l.awaits = false) : l.take .top arg = .error .unknownCommand := by
  have bare : Bare arg := by
    intro letter rest chars
    simp only [List.mem_cons, List.not_mem_nil, or_false] at name
    rcases name with rfl | rfl | rfl <;> cases chars
  cases plain : l.plain with
  | true => rw [Level.take_plain plain, Level.positional]
  | false =>
    rw [Level.take_bare plain (Level.awaitsAnything_of_awaits closed) bare, closed]
    rfl

/-- What is taken before the name of a command is no name of a command. -/
theorem takeOuter_cons_of_take {env : Environment} {l l' : Level} {arg : String}
    (taken : l.take .top arg = .ok l') (rest : List String) :
    takeOuter env l (arg :: rest) = takeOuter env l' rest := by
  have noName : arg ∈ ["generate", "decode", "help"] → l.awaits = true := by
    intro name
    cases closed : l.awaits with
    | true => rfl
    | false =>
      rw [take_command name closed] at taken
      cases taken
  have free : l.plain = false := by
    cases plain : l.plain with
    | false => rfl
    | true =>
      rw [Level.take_plain plain] at taken
      cases taken
  have guarded (name : String) (command : name ∈ ["generate", "decode", "help"]) :
      ¬ (arg = name ∧ (!l.awaits) = true) := by
    rintro ⟨rfl, closed⟩
    simp [noName command] at closed
  rw [takeOuter, free, if_neg (by simp), if_neg (guarded _ (by simp)), if_neg (guarded _ (by simp)),
    if_neg (guarded _ (by simp)), taken]

theorem takeOuter_of_take {env : Environment} {before : List String} {l l' : Level}
    (taken : before.foldlM (Level.take .top) l = .ok l') (rest : List String) :
    takeOuter env l (before ++ rest) = takeOuter env l' rest := by
  induction before generalizing l with
  | nil =>
    cases taken
    rfl
  | cons arg before ih =>
    obtain ⟨next, first, later⟩ := UsageError.bind_eq_ok_iff.mp taken
    rw [List.cons_append, takeOuter_cons_of_take first]
    exact ih later

/-- Every accepted command line has the name of a command, and all before it has been taken. -/
theorem exists_name_of_takeOuter {env : Environment} {l : Level} {args : List String}
    {r : Request} (accepted : takeOuter env l args = .ok r) :
    ∃ before name after l', args = before ++ name :: after ∧
      before.foldlM (Level.take .top) l = .ok l' ∧ l'.plain = false ∧ l'.awaits = false ∧
      takeOuter env l' (name :: after) = .ok r ∧ (name = "generate" ∨ name = "decode") := by
  induction args generalizing l with
  | nil =>
    rw [takeOuter, UsageError.bind_eq_ok_iff] at accepted
    obtain ⟨⟨m, g⟩, _, read⟩ := accepted
    dsimp only at read
    split at read <;> cases read
  | cons arg rest ih =>
    by_cases command : l.awaits = false ∧ (arg = "generate" ∨ arg = "decode")
    · refine ⟨[], arg, rest, l, rfl, rfl, ?_, command.1, accepted, command.2⟩
      cases plain : l.plain with
      | false => rfl
      | true =>
        rw [takeOuter, plain, if_pos (by rcases command.2 with rfl | rfl <;> rfl)] at accepted
        cases accepted
    · cases taken : l.take .top arg with
      | error e =>
        rw [takeOuter] at accepted
        split at accepted
        · cases accepted
        split at accepted
        · next name => exact absurd ⟨by simpa using name.2, Or.inl name.1⟩ command
        split at accepted
        · next name => exact absurd ⟨by simpa using name.2, Or.inr name.1⟩ command
        split at accepted
        · cases accepted
        · rw [taken] at accepted
          cases accepted
      | ok next =>
        rw [takeOuter_cons_of_take taken] at accepted
        obtain ⟨before, name, after, l', rfl, later, found⟩ := ih accepted
        exact ⟨arg :: before, name, after, l', rfl,
          UsageError.bind_eq_ok_iff.mpr ⟨next, taken, later⟩, found⟩

theorem takeOuter_command (env : Environment) {l : Level} (free : l.plain = false)
    (closed : l.awaits = false) (after : List String) :
    takeOuter env l ("generate" :: after) =
        enter env l .generate after (fun inner => .generate (inner.count.getD 1)) ∧
      takeOuter env l ("decode" :: after) =
        enter env l .decode after (fun inner => .decode inner.ids) := by
  constructor <;> simp [takeOuter, free, closed]

/-! ## Command lines -/

/-- The arguments of a command, with what they say before and behind its name. -/
inductive Line : Command → (outer inner : List Item) → List String → Prop where
  | generate {before after : List String} {outer inner : List Item} {plain : Bool}
      (first : Said .top false outer before) (last : Said .generate plain inner after) :
      Line (.generate (Item.countOf inner)) outer inner (before ++ "generate" :: after)
  | decode {before after : List String} {outer inner : List Item} {plain : Bool}
      (first : Said .top false outer before) (last : Said .decode plain inner after)
      (some : Item.idsOf inner ≠ []) :
      Line (.decode (Item.idsOf inner)) outer inner (before ++ "decode" :: after)

variable {vars : String → Option String}

/-- What a setting is worth: the value behind the name of the command counts, else the one before
it, else that of the variable, else the standard one. -/
def resolved (vars : String → Option String) (outer inner : List Item) (s : Setting) :
    Option s.Value :=
  ((((Item.textOf (.setting s) inner).or (Item.textOf (.setting s) outer)).or
    (vars s.envName)).bind s.value?).or (Given.standard.get s)

/-- Every variable of a setting has a value that can be read, if it is set. -/
def Readable (vars : String → Option String) : Prop :=
  (Environment.named vars).Readable

theorem enter_eq_ok_iff (env : Environment) (outer : Level) (place : Place) (args : List String)
    (command : Level → Command) (r : Request) :
    enter env outer place args command = .ok r ↔ ∃ inner innerEnv outer' outerEnv,
      takeInner env place {} args = .ok (inner, innerEnv) ∧
      outer.finish env = .ok (outer', outerEnv) ∧
      r = ⟨command inner, inner.given, outer'.given, innerEnv.orElse outerEnv⟩ := by
  rw [enter, UsageError.bind_eq_ok_iff]
  constructor
  · rintro ⟨⟨inner, innerEnv⟩, taken, read⟩
    obtain ⟨⟨outer', outerEnv⟩, finished, ⟨⟩⟩ := UsageError.bind_eq_ok_iff.mp read
    exact ⟨inner, innerEnv, outer', outerEnv, taken, finished, rfl⟩
  · rintro ⟨inner, innerEnv, outer', outerEnv, taken, finished, rfl⟩
    exact ⟨(inner, innerEnv), taken,
      UsageError.bind_eq_ok_iff.mpr ⟨(outer', outerEnv), finished, rfl⟩⟩

theorem exists_line_of_read {env : Environment} {args : List String} {r : Request}
    (accepted : Request.read env args = .ok r) :
    ∃ outer inner, Line r.command outer inner args ∧ Item.Proper outer ∧ Item.Proper inner := by
  obtain ⟨before, name, after, l, rfl, taken, free, closed, named, command⟩ :=
    exists_name_of_takeOuter accepted
  obtain ⟨generate, decode⟩ := takeOuter_command env free closed after
  -- both commands are entered in the same way
  have levels {place : Place} {asked : Level → Command}
      (entered : enter env l place after asked = .ok r) :
      ∃ outer inner m plain, Said .top false outer before ∧ Item.Proper outer ∧
        Said place plain inner after ∧ Item.Proper inner ∧ m.Holds inner ∧
        (place = .decode → m.ids ≠ []) ∧ r.command = asked m := by
    obtain ⟨m, innerEnv, outer', outerEnv, within, finished, rfl⟩ := (enter_eq_ok_iff ..).mp entered
    obtain ⟨⟨l', taken', settled'⟩, _, some⟩ := (takeInner_eq_ok_iff ..).mp within
    obtain ⟨settled, _⟩ := (finish_eq_ok_iff ..).mp finished
    obtain ⟨outer, first, proper, _⟩ := Level.exists_said_of_settle taken settled
    obtain ⟨inner, last, proper', holds⟩ := Level.exists_said_of_settle taken' settled'
    rw [(Level.idle_of_settle settled).2.1, free] at first
    exact ⟨outer, inner, m, m.plain, first, proper, last, proper', holds, some, rfl⟩
  rcases command with rfl | rfl
  · rw [generate] at named
    obtain ⟨outer, inner, m, plain, first, proper, last, proper', holds, _, asked⟩ := levels named
    rw [asked, holds.count_getD]
    exact ⟨outer, inner, .generate first last, proper, proper'⟩
  · rw [decode] at named
    obtain ⟨outer, inner, m, plain, first, proper, last, proper', holds, some, asked⟩ :=
      levels named
    rw [asked, holds.ids]
    exact ⟨outer, inner, .decode first last (holds.ids ▸ some rfl), proper, proper'⟩

theorem exists_enter (readable : Readable vars) {l m : Level} {place : Place}
    {plain : Bool} {outer inner : List Item} {after : List String} (settled : l.settle = .ok m)
    (holds : m.Holds outer) (proper : Item.Proper outer) (last : Said place plain inner after)
    (proper' : Item.Proper inner) (some : place = .decode → Item.idsOf inner ≠ [])
    (command : Level → Command) :
    ∃ r m', enter (.named vars) l place after command = .ok r ∧ m'.Holds inner ∧
      r.command = command m' ∧
      ∀ s, (r.given.orElse Given.standard).get s = resolved vars outer inner s := by
  obtain ⟨l', m', taken, settled', _, holds'⟩ := Level.exists_settle_of_said last proper'
  obtain ⟨innerEnv, read', found'⟩ := Given.exists_ofEnvironment readable m'.given
  obtain ⟨outerEnv, read, found⟩ := Given.exists_ofEnvironment readable m.given
  have within : takeInner (.named vars) place {} after = .ok (m', innerEnv) :=
    (takeInner_eq_ok_iff ..).mpr
      ⟨⟨l', taken, settled'⟩, read', fun decode => holds'.ids ▸ some decode⟩
  have finished := (finish_eq_ok_iff (.named vars) l m outerEnv).mpr ⟨settled, read⟩
  refine ⟨_, m', (enter_eq_ok_iff ..).mpr ⟨m', innerEnv, m, outerEnv, within, finished, rfl⟩,
    holds', rfl, fun s => ?_⟩
  have behind : m'.given.get s = (Item.textOf (.setting s) inner).bind s.value? :=
    holds'.values (.setting s)
  have ahead : m.given.get s = (Item.textOf (.setting s) outer).bind s.value? :=
    holds.values (.setting s)
  simp only [Request.given, Given.get_orElse, resolved, found', found, behind, ahead,
    Environment.named]
  -- the first place that gives the setting decides on both sides
  cases first : Item.textOf (.setting s) inner with
  | some text =>
    obtain ⟨v, value⟩ := proper'.exists_value first
    change s.value? text = _ at value
    simp [value]
  | none =>
    cases second : Item.textOf (.setting s) outer with
    | some text =>
      obtain ⟨v, value⟩ := proper.exists_value second
      change s.value? text = _ at value
      simp [value]
    | none => simp

/-- Where all variables can be read, every command line that says proper items is accepted, with
the settings resolved. -/
theorem exists_read_of_line (readable : Readable vars) {command : Command}
    {outer inner : List Item} {args : List String} (line : Line command outer inner args)
    (proper : Item.Proper outer) (proper' : Item.Proper inner) :
    ∃ r, Request.read (.named vars) args = .ok r ∧ r.command = command ∧
      ∀ s, (r.given.orElse Given.standard).get s = resolved vars outer inner s := by
  have reach {before : List String} (first : Said .top false outer before) (after : List String) :
      ∃ l m, Request.read (.named vars) (before ++ after) =
        takeOuter (.named vars) l after ∧ l.plain = false ∧
        l.awaits = false ∧ l.settle = .ok m ∧ m.Holds outer := by
    obtain ⟨l, m, taken, settled, free, holds⟩ := Level.exists_settle_of_said first proper
    rw [(Level.idle_of_settle settled).2.1] at free
    exact ⟨l, m, takeOuter_of_take taken after, free, (Level.closed_of_settle settled).awaits.1,
      settled, holds⟩
  cases line with
  | @generate before after _ _ _ first last =>
    obtain ⟨l, m, read, free, closed, settled, holds⟩ := reach first ("generate" :: after)
    rw [read, (takeOuter_command (.named vars) free closed after).1]
    obtain ⟨r, m', entered, holds', command, values⟩ := exists_enter readable settled holds proper
      last proper' nofun fun inner => .generate (inner.count.getD 1)
    exact ⟨r, entered, by rw [command, holds'.count_getD], values⟩
  | @decode before after _ _ _ first last some =>
    obtain ⟨l, m, read, free, closed, settled, holds⟩ := reach first ("decode" :: after)
    rw [read, (takeOuter_command (.named vars) free closed after).2]
    obtain ⟨r, m', entered, holds', command, values⟩ := exists_enter readable settled holds proper
      last proper' (fun _ => some) fun inner => .decode inner.ids
    exact ⟨r, entered, by rw [command, holds'.ids], values⟩

/-- What becomes of a command line before it is run. -/
def outcome (vars : String → Option String) (args : List String) :
    Except UsageError (Except Failure Invocation) :=
  (Request.read (.named vars) args).map Invocation.ofRequest

/-- Requests with the same command come to the same if their settings are worth the same; the
largest drift does not matter if clocks that went back are not waited for. -/
theorem ofRequest_congr {r r' : Request} (command : r.command = r'.command)
    (same : ∀ s, (s = .maxDriftMillis →
        (r.given.orElse .standard).get .rollback ≠ some .fail) →
      (r.given.orElse .standard).get s = (r'.given.orElse .standard).get s) :
    Invocation.ofRequest r = Invocation.ofRequest r' := by
  have config : r.given.config = r'.given.config := by
    rw [← Given.config_orElse_standard, ← Given.config_orElse_standard r'.given]
    exact Given.config_congr same
  have worker : r.given.workerId = r'.given.workerId := by
    rw [← Given.workerId_orElse_standard, ← Given.workerId_orElse_standard r'.given]
    exact same .workerId nofun
  rw [Invocation.ofRequest, Invocation.ofRequest, config, worker, command]

/-- A command line on which every option is given once at most on either side of the name of the
command, with a value that can be read. -/
structure WellFormed (command : Command) (outer inner : List Item) (args : List String) : Prop where
  line : Line command outer inner args
  outer : Item.Proper outer
  inner : Item.Proper inner

theorem Said.flag {place : Place} {plain : Bool} {items : List Item} {args : List String}
    (spelled : Said place plain items args) :
    Item.textOf (.setting .asString) items = none ∨
      Item.textOf (.setting .asString) items = some "true" := by
  have unset (ids : List String) (t : Target) : Item.textOf t (ids.map .id) = none := by
    induction ids with
    | nil => rfl
    | cons _ rest ih => exact ih
  -- a name that waits for a value is not the name of the flag
  have valued {t : Target} {name : String} (names : Names place t name) :
      t ≠ .setting .asString := by
    rintro rfl
    cases names with
    | long known =>
      cases known with
      | setting valued => exact valued rfl
  induction spelled with
  | done => exact Or.inl rfl
  | @dashes ids _ => exact Or.inl (unset ids _)
  | cons first _ ih =>
    cases first with
    | flag => exact Or.inr rfl
    | apart names _ | joined names => rwa [Item.textOf, if_neg (valued names)]
    | attached _ _ | id _ => exact ih

theorem WellFormed.resolved_flag {command : Command} {outer inner : List Item}
    {args : List String} (wellFormed : WellFormed command outer inner args)
    (vars : String → Option String)
    (given : Item.textOf (.setting .asString) inner ≠ none ∨
      Item.textOf (.setting .asString) outer ≠ none) :
    resolved vars outer inner .asString = some true := by
  have flags : ∀ items ∈ [inner, outer], Item.textOf (.setting .asString) items = none ∨
      Item.textOf (.setting .asString) items = some "true" := by
    intro items member
    simp only [List.mem_cons, List.not_mem_nil, or_false] at member
    cases wellFormed.line with
    | generate first last | decode first last _ =>
      rcases member with rfl | rfl
      · exact last.flag
      · exact first.flag
  have both : (Item.textOf (.setting .asString) inner).or (Item.textOf (.setting .asString) outer) =
      some "true" := by
    rcases flags inner (by simp) with none | some
    · rw [none, Option.none_or]
      exact (flags outer (by simp)).resolve_left (given.resolve_left (absurd none))
    · rw [some, Option.some_or]
  rw [resolved, both]
  rfl

/-- The settings of a command line resolve by precedence, wherever they are written. If all
variables can be read, every well-formed command line is accepted, and each of its settings has the
value that stands behind the name of the command, else the one before it, else that of the variable,
else the standard one; each value has its own place in the invocation that they make, and they make
one if its configuration is valid. The flag counts wherever it stands. No other command line is
accepted. What becomes of one depends on its command and the resolved settings alone, and not on the
largest drift if clocks that went back are not waited for; so a setting that is given once may be
moved to the other side of the name. -/
theorem settings_resolve_by_precedence :
    Setting.all.map (fun s => (s, s.option, s.envName)) =
      [(.epochMillis, "epoch-millis", "EPOCH_MILLIS"),
        (.timestampBits, "timestamp-bits", "TIMESTAMP_BITS"),
        (.machineBits, "machine-bits", "MACHINE_BITS"),
        (.sequenceBits, "sequence-bits", "SEQUENCE_BITS"), (.asString, "as-string", "AS_STRING"),
        (.workerId, "worker-id", "WORKER_ID"), (.rollback, "rollback", "ROLLBACK_POLICY"),
        (.maxDriftMillis, "max-drift-millis", "MAX_DRIFT_MILLIS"),
        (.resetThreshold, "sequence-reset-threshold", "SEQUENCE_RESET_THRESHOLD")] ∧
    (∀ vars command outer inner args, Readable vars →
      WellFormed command outer inner args → ∃ r, Request.read (.named vars) args = .ok r ∧
        r.command = command ∧
        (∀ s, (r.given.orElse Given.standard).get s = resolved vars outer inner s) ∧
        (r.given.orElse Given.standard).config = r.given.config ∧
        ∀ i, Invocation.ofRequest r = .ok i ↔ i.command = command ∧
          i.config.validate = .ok () ∧ i.MadeOf (resolved vars outer inner)) ∧
    (∀ vars command outer inner args, WellFormed command outer inner args →
      (Item.textOf (.setting .asString) inner ≠ none ∨
        Item.textOf (.setting .asString) outer ≠ none) →
          resolved vars outer inner .asString = some true) ∧
    (∀ env args r, Request.read env args = .ok r →
      ∃ outer inner, WellFormed r.command outer inner args) ∧
    (∀ vars vars' command outer outer' inner inner' args args', Readable vars →
      Readable vars' → WellFormed command outer inner args →
        WellFormed command outer' inner' args' →
          (∀ s, (s = .maxDriftMillis → resolved vars outer inner .rollback ≠ some .fail) →
            resolved vars outer inner s = resolved vars' outer' inner' s) →
          outcome vars args = outcome vars' args') ∧
    ∀ vars command s outer outer' inner inner' args args', Readable vars →
      WellFormed command outer inner args → WellFormed command outer' inner' args' →
        Item.textOf (.setting s) inner = none → Item.textOf (.setting s) outer' = none →
          Item.textOf (.setting s) outer = Item.textOf (.setting s) inner' →
            (∀ t, t ≠ .setting s → Item.textOf t outer = Item.textOf t outer' ∧
              Item.textOf t inner = Item.textOf t inner') →
            outcome vars args = outcome vars args' := by
  have alike {vars vars' : String → Option String} {command : Command}
      {outer outer' inner inner' : List Item} {args args' : List String}
      (readable : Readable vars) (readable' : Readable vars')
      (wellFormed : WellFormed command outer inner args)
      (wellFormed' : WellFormed command outer' inner' args')
      (same : ∀ s, (s = .maxDriftMillis → resolved vars outer inner .rollback ≠ some .fail) →
        resolved vars outer inner s = resolved vars' outer' inner' s) :
      outcome vars args = outcome vars' args' := by
    obtain ⟨r, read, command, values⟩ :=
      exists_read_of_line readable wellFormed.line wellFormed.outer wellFormed.inner
    obtain ⟨r', read', command', values'⟩ :=
      exists_read_of_line readable' wellFormed'.line wellFormed'.outer wellFormed'.inner
    have made : Invocation.ofRequest r = Invocation.ofRequest r' := by
      refine ofRequest_congr (command.trans command'.symm) fun s matters => ?_
      rw [values, values']
      exact same s fun drift => values .rollback ▸ matters drift
    rw [outcome, outcome, read, read', Except.map, Except.map, made]
  refine ⟨rfl, ?_, ?_, ?_, ?_, ?_⟩
  · intro vars command outer inner args readable wellFormed
    obtain ⟨r, read, rfl, values⟩ :=
      exists_read_of_line readable wellFormed.line wellFormed.outer wellFormed.inner
    refine ⟨r, read, rfl, values, r.given.config_orElse_standard, fun i => ?_⟩
    rw [ofRequest_eq_ok_iff_madeOf, funext values]
  · intro vars command outer inner args wellFormed given
    exact wellFormed.resolved_flag vars given
  · intro env args r accepted
    obtain ⟨outer, inner, line, proper, proper'⟩ := exists_line_of_read accepted
    exact ⟨outer, inner, line, proper, proper'⟩
  · intro vars vars' command outer outer' inner inner' args args' readable readable'
    exact alike readable readable'
  · intro vars command s outer outer' inner inner' args args' readable wellFormed wellFormed'
      none none' moved others
    refine alike readable readable wellFormed wellFormed' fun s' _ => ?_
    by_cases same : s' = s
    · subst same
      rw [resolved, resolved, none, none', moved, Option.none_or, Option.or_none]
    · obtain ⟨before, behind⟩ := others (.setting s') fun equal => same (Target.setting.inj equal)
      rw [resolved, resolved, before, behind]

/-- Variables, some of them behind options, a setting on both sides and a negative worker id; the
flag on either side; a drift that nobody waits for; and a line that has been accepted. -/
theorem settings_resolve_by_precedence_on_both_sides :
    outcome (fun name => [("MACHINE_BITS", "8"), ("WORKER_ID", "200"), ("AS_STRING", "true"),
          ("ROLLBACK_POLICY", "fail"), ("SEQUENCE_RESET_THRESHOLD", "1000")].lookup name)
        ["--epoch-millis=7", "--worker-id", "-5", "--sequence-bits", "16", "generate",
          "--epoch-millis", "9", "--timestamp-bits=39", "-n3"] =
      .ok (.ok ⟨{ epoch := 9
                  layout := ⟨39, 8, 16, by decide, by decide, by decide, by decide⟩
                  asString := true, lag := .fail, carryOver := .upTo 1000 },
        some (-5), .generate 3⟩) ∧
    (∃ outer inner, WellFormed (.generate 1) outer inner ["--as-string", "generate"] ∧
      resolved (fun _ => none) outer inner .asString = some true) ∧
    (∃ outer inner, WellFormed (.decode ["5"]) outer inner ["decode", "--", "5"]) ∧
    outcome (fun _ => none) ["--as-string", "generate"] =
      outcome (fun _ => none) ["generate", "--as-string"] ∧
    outcome (fun _ => none) ["--rollback=fail", "generate", "--max-drift-millis=7"] =
      outcome (fun _ => none) ["--rollback=fail", "generate"] := by
  have unset : Readable fun _ => none := by
    rintro s text ⟨⟩
  have readable : Readable fun name => [("MACHINE_BITS", "8"), ("WORKER_ID", "200"),
      ("AS_STRING", "true"), ("ROLLBACK_POLICY", "fail"),
      ("SEQUENCE_RESET_THRESHOLD", "1000")].lookup name := by
    intro s text set
    cases s with
    | machineBits | workerId | asString | rollback | resetThreshold =>
      cases set
      exact ⟨_, rfl⟩
    | epochMillis | timestampBits | sequenceBits | maxDriftMillis => cases set
  have joined {place : Place} (s : Setting) (valued : s ≠ .asString) (text : String) :
      Said place false [.value (.setting s) text] ["--" ++ s.option ++ "=" ++ text] :=
    .cons (.joined (.long (.setting valued))) .done
  have both : WellFormed (.generate 3)
      [.value (.setting .epochMillis) "7", .value (.setting .workerId) "-5",
        .value (.setting .sequenceBits) "16"]
      [.value (.setting .epochMillis) "9", .value (.setting .timestampBits) "39",
        .value .count "3"]
      ["--epoch-millis=7", "--worker-id", "-5", "--sequence-bits", "16", "generate",
        "--epoch-millis", "9", "--timestamp-bits=39", "-n3"] :=
    { line := .generate
        (.cons (.joined (.long (.setting (s := .epochMillis) nofun)))
          (.cons (.apart (.long (.setting (s := .workerId) nofun)) (Or.inl rfl))
            (.cons (.apart (.long (.setting (s := .sequenceBits) nofun))
              (Or.inr (by rintro _ _ ⟨⟩))) .done)))
        (.cons (.apart (.long (.setting (s := .epochMillis) nofun)) (Or.inr (by rintro _ _ ⟨⟩)))
          (.cons (.joined (.long (.setting (s := .timestampBits) nofun)))
            (.cons (@Item.Written.attached "3" (by decide) (by decide)) .done)))
      outer := ⟨⟨7, rfl⟩, rfl, ⟨-5, rfl⟩, rfl, ⟨16, rfl⟩, rfl, trivial⟩
      inner := ⟨⟨9, rfl⟩, rfl, ⟨39, rfl⟩, rfl, ⟨3, rfl⟩, rfl, trivial⟩ }
  have ahead : WellFormed (.generate 1) [.value (.setting .asString) "true"] []
      ["--as-string", "generate"] :=
    ⟨.generate (.cons .flag .done) .done, ⟨⟨true, rfl⟩, rfl, trivial⟩, trivial⟩
  have behind : WellFormed (.generate 1) [] [.value (.setting .asString) "true"]
      ["generate", "--as-string"] :=
    ⟨.generate .done (.cons .flag .done), trivial, ⟨⟨true, rfl⟩, rfl, trivial⟩⟩
  have drifting : WellFormed (.generate 1) [.value (.setting .rollback) "fail"]
      [.value (.setting .maxDriftMillis) "7"]
      ["--rollback=fail", "generate", "--max-drift-millis=7"] :=
    ⟨.generate (joined .rollback nofun "fail") (joined .maxDriftMillis nofun "7"),
      ⟨⟨.fail, rfl⟩, rfl, trivial⟩, ⟨⟨7, rfl⟩, rfl, trivial⟩⟩
  have failing : WellFormed (.generate 1) [.value (.setting .rollback) "fail"] []
      ["--rollback=fail", "generate"] :=
    ⟨.generate (joined .rollback nofun "fail") .done, ⟨⟨.fail, rfl⟩, rfl, trivial⟩, trivial⟩
  obtain ⟨_, precedence, flag, complete, alike, moved⟩ := settings_resolve_by_precedence
  obtain ⟨r, read, _, _, _, made⟩ := precedence _ _ _ _ _ readable both
  have plain : Request.read (fun _ => none) ["decode", "--", "5"] =
      .ok ⟨.decode ["5"], {}, {}, {}⟩ := rfl
  refine ⟨?_, ⟨_, _, ahead, flag _ _ _ _ _ ahead (Or.inr (by decide))⟩, complete _ _ _ plain, ?_,
    ?_⟩
  · rw [outcome, read, Except.map]
    refine congrArg Except.ok ((made _).mpr ⟨rfl, rfl, ?_⟩)
    exact ⟨rfl, rfl, rfl, rfl, rfl, rfl, Or.inl ⟨rfl, rfl⟩, rfl⟩
  · refine moved _ _ .asString _ _ _ _ _ _ unset ahead behind rfl rfl rfl fun t other => ?_
    have unset : Item.textOf t [.value (.setting .asString) "true"] = none := if_neg (Ne.symm other)
    exact ⟨unset, unset.symm⟩
  · refine alike _ _ _ _ _ _ _ _ _ unset unset drifting failing fun s matters => ?_
    cases s with
    | maxDriftMillis => exact absurd rfl (matters rfl)
    | _ => rfl

end Tickstamp.CommandLine
