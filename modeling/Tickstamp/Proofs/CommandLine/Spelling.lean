import Tickstamp.Proofs.CommandLine.Values

/-!
# How a command line is spelled

An argument says an identifier, or an option with its value attached, or names an
option that takes its value from the next argument; nothing else is taken,
except that `--` ends all options. Names are followed by an equals sign and a
value or stand alone, and only the count has a letter, which a value may follow
at once. A worker id may begin with a dash where no other value can. Requests for
help are never taken as anything that is said.
-/

namespace Tickstamp.CommandLine

/-- What an argument or two say. -/
inductive Item where
  | value (t : Target) (text : String)
  | id (text : String)

/-! ## Spelling -/

/-- A text that is not taken for an option. -/
def Bare (text : String) : Prop :=
  ∀ letter rest, text.toList ≠ '-' :: letter :: rest

/-- The names of what takes a value, without their dashes. -/
inductive LongName : Place → Target → String → Prop where
  | setting {place : Place} {s : Setting} (valued : s ≠ .asString) :
      LongName place (.setting s) s.option
  | count : LongName .generate .count "count"

/-- An argument that names what takes a value. -/
inductive Names : Place → Target → String → Prop where
  | long {place : Place} {t : Target} {name : String} (known : LongName place t name) :
      Names place t ("--" ++ name)
  | short : Names .generate .count "-n"

/-- The arguments that an item may be written in. -/
inductive Item.Written : Place → Item → List String → Prop where
  | flag {place : Place} : Written place (.value (.setting .asString) "true") ["--as-string"]
  | apart {place : Place} {t : Target} {name text : String} (names : Names place t name)
      (bare : t = .setting .workerId ∨ Bare text) : Written place (.value t text) [name, text]
  | joined {place : Place} {t : Target} {name text : String} (names : Names place t name) :
      Written place (.value t text) [name ++ "=" ++ text]
  | attached {text : String} (nonempty : text ≠ "") (apart : text.toList.head? ≠ some '=') :
      Written .generate (.value .count text) ["-n" ++ text]
  | id {text : String} (bare : Bare text) : Written .decode (.id text) [text]

/-! ## Arguments -/

namespace Level

theorem bne_of_alone {cs : List Char} (alone : '=' ∉ cs) : ∀ c ∈ cs, (c != '=') = true := by
  intro c member
  rw [bne_iff_ne]
  rintro rfl
  exact alone member

theorem splitValue_alone {cs : List Char} (alone : '=' ∉ cs) :
    splitValue cs = (String.ofList cs, none) := by
  have nothing : (cs ++ []).dropWhile (· != '=') = [] :=
    List.dropWhile_append_of_pos (bne_of_alone alone)
  rw [List.append_nil] at nothing
  rw [splitValue, nothing]

theorem splitValue_joined {cs : List Char} (alone : '=' ∉ cs) (value : List Char) :
    splitValue (cs ++ '=' :: value) = (String.ofList cs, some (String.ofList value)) := by
  rw [splitValue, List.dropWhile_append_of_pos (bne_of_alone alone),
    List.takeWhile_append_of_pos (bne_of_alone alone)]
  simp

theorem option_eq_ok_iff (l l' : Level) (t : Target) (attached : Option String) :
    l.option t attached = .ok l' ↔ ∃ m, l.settle = .ok m ∧
      match attached with
      | none => l' = m.awaiting t
      | some text => m.assign t text = .ok l' := by
  rw [option, UsageError.bind_eq_ok_iff]
  cases attached with
  | none => simp [awaiting, pure, Except.pure, eq_comm]
  | some text => rfl

theorem inform_ne_ok (l l' : Level) (answer : UsageError) (attached : Option String) :
    l.inform answer attached ≠ .ok l' := by
  rw [inform]
  split
  · nofun
  · split <;> nofun

theorem option_of_named? {name : String} {s : Setting} (found : Setting.named? name = some s) :
    s.option = name := by
  simpa using List.find?_some found

theorem long_of_known {place : Place} {t : Target} {name : String} (known : LongName place t name)
    (l : Level) (attached : Option String) : l.long place name attached = l.option t attached := by
  cases known with
  | @setting _ s valued =>
    cases s with
    | asString => exact absurd rfl valued
    | epochMillis | timestampBits | machineBits | sequenceBits | workerId | rollback
    | maxDriftMillis | resetThreshold => rfl
  | count => rfl

theorem long_eq_ok_iff (place : Place) (l l' : Level) (name : String) (attached : Option String) :
    l.long place name attached = .ok l' ↔
      (name = "as-string" ∧ attached = none ∧
        ∃ m, l.settle = .ok m ∧ m.assign (.setting .asString) "true" = .ok l') ∨
      ∃ t, LongName place t name ∧ l.option t attached = .ok l' := by
  constructor
  · intro accepted
    rw [long] at accepted
    split at accepted
    · exact (inform_ne_ok _ _ _ _ accepted).elim
    split at accepted
    · exact (inform_ne_ok _ _ _ _ accepted).elim
    split at accepted
    · next count =>
      obtain ⟨rfl, rfl⟩ := count
      exact Or.inr ⟨.count, .count, accepted⟩
    split at accepted
    · cases accepted
    · next found =>
      obtain rfl := option_of_named? found
      cases attached with
      | some text => cases accepted
      | none => exact Or.inl ⟨rfl, rfl, UsageError.bind_eq_ok_iff.mp accepted⟩
    · next s valued found =>
      obtain rfl := option_of_named? found
      exact Or.inr ⟨.setting s, .setting valued, accepted⟩
  · rintro (⟨rfl, rfl, settled⟩ | ⟨t, known, accepted⟩)
    · exact UsageError.bind_eq_ok_iff.mpr settled
    · rwa [long_of_known known]

/-- What stands behind the letter of an option. -/
def attachedTo : List Char → Option String
  | [] => none
  | '=' :: value => some (String.ofList value)
  | value => some (String.ofList value)

theorem attachedTo_toList {text : String} (nonempty : text ≠ "")
    (apart : text.toList.head? ≠ some '=') : attachedTo text.toList = some text := by
  cases chars : text.toList with
  | nil => exact absurd (String.toList_eq_nil_iff.mp chars) nonempty
  | cons c rest =>
    have unjoined : c ≠ '=' := by simpa [chars] using apart
    have whole : String.ofList (c :: rest) = text := by rw [← chars, String.ofList_toList]
    simp [attachedTo, unjoined, whole]

theorem short_count (l : Level) (rest : List Char) :
    l.short .generate 'n' rest = l.option .count (attachedTo rest) := by
  rw [short.eq_def, if_neg (by decide), if_neg (by decide), if_pos ⟨rfl, rfl⟩]
  rcases rest with _ | ⟨c, rest⟩
  · rfl
  · by_cases joined : c = '='
    · subst joined
      rfl
    · simp [attachedTo, joined]

theorem short_eq_ok_iff (place : Place) (l l' : Level) (letter : Char) (rest : List Char) :
    l.short place letter rest = .ok l' ↔
      letter = 'n' ∧ place = .generate ∧ l.option .count (attachedTo rest) = .ok l' := by
  constructor
  · intro accepted
    by_cases count : letter = 'n' ∧ place = .generate
    · obtain ⟨rfl, rfl⟩ := count
      exact ⟨rfl, rfl, short_count l rest ▸ accepted⟩
    · rw [short.eq_def] at accepted
      split at accepted
      · exact (inform_ne_ok _ _ _ _ accepted).elim
      split at accepted
      · exact (inform_ne_ok _ _ _ _ accepted).elim
      cases accepted
  · rintro ⟨rfl, rfl, accepted⟩
    rwa [short_count]

/-- No option waits for its value. -/
def Closed (l : Level) : Prop :=
  ∀ t, l.pending ≠ some (t, none)

theorem closed_of_settle {l m : Level} (settled : l.settle = .ok m) : l.Closed := by
  intro t waits
  rw [settle.eq_def, waits] at settled
  cases settled

theorem awaitsAnything_of_awaits {l : Level} (closed : l.awaits = false) :
    l.awaitsAnything = false := by
  rw [awaits.eq_def] at closed
  rw [awaitsAnything.eq_def]
  split
  · next waits => simpa [waits] using closed
  · rfl

theorem Closed.awaits {l : Level} (closed : l.Closed) :
    l.awaits = false ∧ l.awaitsAnything = false := by
  have noValue : l.awaits = false := by
    rw [Level.awaits.eq_def]
    split
    · next waits => exact absurd waits (closed _)
    · rfl
  exact ⟨noValue, awaitsAnything_of_awaits noValue⟩

theorem take_dashes {l : Level} {place : Place} (free : l.plain = false)
    (notAny : l.awaitsAnything = false) : l.take place "--" = .ok { l with plain := true } := by
  rw [take, free, notAny]
  rfl

theorem take_long {l : Level} {place : Place} {arg : String} {rest : List Char}
    (free : l.plain = false) (notAny : l.awaitsAnything = false)
    (chars : arg.toList = '-' :: '-' :: rest) (more : rest ≠ []) :
    l.take place arg = l.long place (splitValue rest).1 (splitValue rest).2 := by
  cases rest with
  | nil => exact absurd rfl more
  | cons c rest => simp [take, free, notAny, chars]

theorem take_short {l : Level} {place : Place} {arg : String} {letter : Char} {rest : List Char}
    (free : l.plain = false) (notAny : l.awaitsAnything = false)
    (chars : arg.toList = '-' :: letter :: rest) (single : letter ≠ '-') :
    l.take place arg = l.short place letter rest := by
  simp [take, free, notAny, chars, single]

theorem take_bare {l : Level} {place : Place} {arg : String} (free : l.plain = false)
    (notAny : l.awaitsAnything = false) (bare : Bare arg) :
    l.take place arg = if l.awaits then .ok (l.fill arg) else l.positional place arg := by
  rw [take.eq_def, free, notAny]
  simp only [Bool.false_eq_true, if_false]
  split
  · next chars => exact (bare _ _ chars).elim
  · next chars => exact (bare _ _ chars).elim
  · next chars => exact (bare _ _ chars).elim
  · rfl

section Free

variable {l : Level} {place : Place} {t : Target} {name : String}

/-- A name with a value attached to it, or without one. -/
theorem take_known (known : LongName place t name) (free : l.plain = false)
    (notAny : l.awaitsAnything = false) (text : String) :
    l.take place ("--" ++ name) = l.option t none ∧
      l.take place ("--" ++ name ++ "=" ++ text) = l.option t (some text) := by
  have alone : '=' ∉ name.toList ∧ name.toList ≠ [] := by
    cases known with
    | @setting _ s _ => cases s <;> decide
    | count => decide
  constructor
  · have chars : ("--" ++ name).toList = '-' :: '-' :: name.toList := by simp
    rw [take_long free notAny chars alone.2, splitValue_alone alone.1, String.ofList_toList,
      long_of_known known]
  · have chars : ("--" ++ name ++ "=" ++ text).toList =
        '-' :: '-' :: (name.toList ++ '=' :: text.toList) := by simp
    rw [take_long free notAny chars (by simp), splitValue_joined alone.1, String.ofList_toList,
      String.ofList_toList, long_of_known known]

theorem take_letter (free : l.plain = false) (notAny : l.awaitsAnything = false) (text : String) :
    l.take .generate ("-n" ++ text) = l.option .count (attachedTo text.toList) := by
  have chars : ("-n" ++ text).toList = '-' :: 'n' :: text.toList := by simp
  rw [take_short free notAny chars (by decide), short_count]

/-- A name alone. -/
theorem take_name (names : Names place t name) (free : l.plain = false)
    (notAny : l.awaitsAnything = false) : l.take place name = l.option t none := by
  cases names with
  | long known => exact (take_known known free notAny "").1
  | short => exact take_letter free notAny ""

/-- A name with a value attached to it. -/
theorem take_joined (names : Names place t name) (free : l.plain = false)
    (notAny : l.awaitsAnything = false) (text : String) :
    l.take place (name ++ "=" ++ text) = l.option t (some text) := by
  cases names with
  | long known => exact (take_known known free notAny text).2
  | short =>
    have joined := take_letter free notAny ("=" ++ text)
    rw [← String.append_assoc] at joined
    rw [joined]
    simp [attachedTo]

end Free

/-- What is said adds to what a level holds. -/
def say (m : Level) : Item → Except UsageError Level
  | .value t text => m.assign t text
  | .id text => .ok { m with ids := m.ids ++ [text] }

/-- A single argument names an option that waits for its value, or says an item. -/
def Says (l : Level) (place : Place) (arg : String) (l' : Level) : Prop :=
  ∃ m, l.settle = .ok m ∧ ((∃ t, Names place t arg ∧ l' = m.awaiting t) ∨
    ∃ item : Item, item.Written place [arg] ∧ m.say item = .ok l')

theorem says_of_long {l l' : Level} {place : Place} {arg : String} {rest : List Char}
    (chars : arg.toList = '-' :: '-' :: rest)
    (accepted : l.long place (splitValue rest).1 (splitValue rest).2 = .ok l') :
    l.Says place arg l' := by
  by_cases joined : '=' ∈ rest
  · obtain ⟨name, value, rfl, alone⟩ := List.eq_append_cons_of_mem joined
    obtain rfl : arg = "--" ++ String.ofList name ++ "=" ++ String.ofList value :=
      String.toList_inj.mp (by simp [chars])
    rw [splitValue_joined alone, long_eq_ok_iff] at accepted
    rcases accepted with ⟨_, ⟨⟩, _⟩ | ⟨t, known, accepted⟩
    obtain ⟨m, settled, said⟩ := (option_eq_ok_iff ..).mp accepted
    exact ⟨m, settled, Or.inr ⟨_, .joined (.long known), said⟩⟩
  · obtain rfl : arg = "--" ++ String.ofList rest := String.toList_inj.mp (by simp [chars])
    rw [splitValue_alone joined, long_eq_ok_iff] at accepted
    rcases accepted with ⟨flag, _, m, settled, said⟩ | ⟨t, known, accepted⟩
    · have name : String.ofList rest = "as-string" := flag
      rw [name]
      exact ⟨m, settled, Or.inr ⟨_, .flag, said⟩⟩
    · obtain ⟨m, settled, said⟩ := (option_eq_ok_iff ..).mp accepted
      exact ⟨m, settled, Or.inl ⟨t, .long known, said⟩⟩

theorem says_of_short {l l' : Level} {place : Place} {arg : String} {letter : Char}
    {rest : List Char} (chars : arg.toList = '-' :: letter :: rest)
    (accepted : l.short place letter rest = .ok l') : l.Says place arg l' := by
  obtain ⟨rfl, rfl, counted⟩ := (short_eq_ok_iff ..).mp accepted
  obtain ⟨m, settled, said⟩ := (option_eq_ok_iff ..).mp counted
  refine ⟨m, settled, ?_⟩
  rcases rest with _ | ⟨c, rest⟩
  · obtain rfl : arg = "-n" := String.toList_inj.mp chars
    exact Or.inl ⟨_, .short, said⟩
  · by_cases joined : c = '='
    · subst joined
      obtain rfl : arg = "-n" ++ "=" ++ String.ofList rest := String.toList_inj.mp (by simp [chars])
      exact Or.inr ⟨_, .joined .short, said⟩
    · obtain ⟨text, whole⟩ : ∃ text : String, c :: rest = text.toList :=
        ⟨_, String.toList_ofList.symm⟩
      have nonempty : text ≠ "" := by
        rintro rfl
        cases whole
      have apart : text.toList.head? ≠ some '=' := by simpa [← whole] using joined
      rw [whole, attachedTo_toList nonempty apart] at said
      obtain rfl : arg = "-n" ++ text := String.toList_inj.mp (by simp [chars, whole])
      exact Or.inr ⟨_, .attached nonempty apart, said⟩

theorem Says.take {l l' : Level} {place : Place} {arg : String} (heard : l.Says place arg l')
    (free : l.plain = false) : l.take place arg = .ok l' := by
  obtain ⟨m, settled, heard⟩ := heard
  obtain ⟨noValue, notAny⟩ := (closed_of_settle settled).awaits
  rcases heard with ⟨t, names, rfl⟩ | ⟨item, written, said⟩
  · rw [take_name names free notAny]
    exact (option_eq_ok_iff ..).mpr ⟨m, settled, rfl⟩
  · cases written with
    | flag =>
      have chars : "--as-string".toList = '-' :: '-' :: "as-string".toList := rfl
      rw [take_long free notAny chars (by decide), splitValue_alone (by decide), long_eq_ok_iff]
      exact Or.inl ⟨rfl, rfl, m, settled, said⟩
    | joined names =>
      rw [take_joined names free notAny]
      exact (option_eq_ok_iff ..).mpr ⟨m, settled, said⟩
    | @attached text nonempty apart =>
      rw [take_letter free notAny, attachedTo_toList nonempty apart]
      exact (option_eq_ok_iff ..).mpr ⟨m, settled, said⟩
    | id bare =>
      rw [take_bare free notAny bare, noValue]
      exact UsageError.bind_eq_ok_iff.mpr ⟨m, settled, said⟩

/-- An argument looks like no option, ends the options, or is one with a long or a short name. -/
theorem bare_or_dashed (arg : String) :
    Bare arg ∨ arg = "--" ∨ (∃ rest, arg.toList = '-' :: '-' :: rest ∧ rest ≠ []) ∨
      ∃ letter rest, arg.toList = '-' :: letter :: rest ∧ letter ≠ '-' := by
  by_cases bare : Bare arg
  · exact Or.inl bare
  obtain ⟨letter, rest, chars⟩ : ∃ letter rest, arg.toList = '-' :: letter :: rest := by
    simpa [Bare] using bare
  by_cases double : letter = '-'
  · subst double
    by_cases more : rest = []
    · subst more
      exact Or.inr (Or.inl (String.toList_inj.mp chars))
    · exact Or.inr (Or.inr (Or.inl ⟨rest, chars, more⟩))
  · exact Or.inr (Or.inr (Or.inr ⟨letter, rest, chars, double⟩))

/-- Where no option waits for its value, an argument ends the options or says something. -/
theorem take_eq_ok_iff {l : Level} (free : l.plain = false) (closed : l.Closed) (place : Place)
    (arg : String) (l' : Level) :
    l.take place arg = .ok l' ↔
      arg = "--" ∧ l' = { l with plain := true } ∨ l.Says place arg l' := by
  obtain ⟨noValue, notAny⟩ := closed.awaits
  constructor
  · intro taken
    rcases bare_or_dashed arg with
      bare | rfl | ⟨rest, chars, more⟩ | ⟨letter, rest, chars, single⟩
    · rw [take_bare free notAny bare, noValue] at taken
      cases place with
      | top | generate => cases taken
      | decode =>
        obtain ⟨m, settled, said⟩ := UsageError.bind_eq_ok_iff.mp taken
        exact Or.inr ⟨m, settled, Or.inr ⟨.id arg, .id bare, said⟩⟩
    · rw [take_dashes free notAny] at taken
      cases taken
      exact Or.inl ⟨rfl, rfl⟩
    · rw [take_long free notAny chars more] at taken
      exact Or.inr (says_of_long chars taken)
    · rw [take_short free notAny chars single] at taken
      exact Or.inr (says_of_short chars taken)
  · rintro (⟨rfl, rfl⟩ | heard)
    · exact take_dashes free notAny
    · exact heard.take free

/-- A worker id is waited for as anything, other values only where they look like no option. -/
theorem awaits_awaiting {m : Level} (free : m.plain = false) (t : Target) :
    (m.awaiting t).awaits = true ∧
      ((m.awaiting t).awaitsAnything = true ↔ t = .setting .workerId) := by
  constructor
  · simp [awaits, awaiting, free]
  · rcases t with (_ | _ | _ | _ | _ | _ | _ | _ | _) | _ <;>
      simp [awaitsAnything, awaiting, free]

/-- The next argument becomes the value of an option that waits for it. -/
theorem take_awaiting {m : Level} (free : m.plain = false) (place : Place) {t : Target}
    {text : String} (bare : t = .setting .workerId ∨ Bare text) :
    (m.awaiting t).take place text = .ok (m.holding t text) := by
  obtain ⟨waits, any⟩ := awaits_awaiting free t
  have stays : (m.awaiting t).plain = false := free
  by_cases worker : t = .setting .workerId
  · rw [take.eq_def, stays, any.mpr worker]
    rfl
  · rw [take_bare stays (by simpa using mt any.mp worker) (bare.resolve_left worker), waits]
    rfl

/-- The only other thing that may follow an option without a value is the end of all options. -/
theorem take_awaiting_cases {m l' : Level} (free : m.plain = false) {place : Place} {t : Target}
    {text : String} (taken : (m.awaiting t).take place text = .ok l') :
    (t = .setting .workerId ∨ Bare text) ∧ l' = m.holding t text ∨
      l' = { m.awaiting t with plain := true } := by
  by_cases bare : t = .setting .workerId ∨ Bare text
  · rw [take_awaiting free place bare] at taken
    cases taken
    exact Or.inl ⟨bare, rfl⟩
  have stays : (m.awaiting t).plain = false := free
  obtain ⟨notWorker, dashed⟩ := not_or.mp bare
  have notAny : (m.awaiting t).awaitsAnything = false := by
    simpa using mt (awaits_awaiting free t).2.mp notWorker
  have unsaid : ¬ (m.awaiting t).Says place text l' := by
    rintro ⟨_, settled, _⟩
    exact closed_of_settle settled t rfl
  rcases bare_or_dashed text with
    bare | rfl | ⟨rest, chars, more⟩ | ⟨letter, rest, chars, single⟩
  · exact absurd bare dashed
  · rw [take_dashes stays notAny] at taken
    cases taken
    exact Or.inr rfl
  · rw [take_long stays notAny chars more] at taken
    exact absurd (says_of_long chars taken) unsaid
  · rw [take_short stays notAny chars single] at taken
    exact absurd (says_of_short chars taken) unsaid

end Level
end Tickstamp.CommandLine
