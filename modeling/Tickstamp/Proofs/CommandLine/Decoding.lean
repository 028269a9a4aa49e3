import Tickstamp.Proofs.CommandLine.RoundTrip
import Tickstamp.Proofs.Issuer.Handover
import Tickstamp.Proofs.Readability

/-!
# Which keys are decoded, and to which lines

Decoding writes a line for each key up to the first that cannot be decoded, and
ends with what is wrong with that one. Numbers are decoded from every text that
writes them, texts from the one key of their stamp; both give the same line, from
which the stamp can be told: the time, the machine and the sequence, with blanks
between them. A worker out of range is noticed before any key is looked at. What
a failure is called is not considered.
-/

namespace Tickstamp

theorem ofDigitChars_map_hexSymbol {ds : List Nat} (below : ∀ d ∈ ds, d < 10) (acc : Nat) :
    Nat.ofDigitChars 10 (ds.map Numeral.hexSymbol) acc =
      ds.foldl (fun v d => v * 10 + d) acc := by
  induction ds generalizing acc with
  | nil => rfl
  | cons d rest ih =>
    obtain ⟨small, others⟩ := List.forall_mem_cons.mp below
    have digit : ∀ d < 10, (Numeral.hexSymbol d).toNat - '0'.toNat = d := by decide
    rw [List.map_cons, Nat.ofDigitChars_cons, digit d small, ih others, List.foldl_cons,
      Nat.mul_comm]

theorem Stamp.literal_padded (s : Stamp) : Text.Literal s.padded s.word.toNat := by
  have below : ∀ d ∈ Numeral.digits 10 20 s.word.toNat, d < 10 :=
    Numeral.digits_lt (by decide) 20 s.word.toNat
  have isDigit : ∀ d < 10, (Numeral.hexSymbol d).isDigit = true := by decide
  refine ⟨(Numeral.digits 10 20 s.word.toNat).map Numeral.hexSymbol, ?_, ?_, Or.inl ?_, ?_⟩
  · intro none
    have length := congrArg List.length none
    simp at length
  · intro c hc
    obtain ⟨d, hd, rfl⟩ := List.mem_map.mp hc
    exact isDigit d (below d hd)
  · rw [padded, Numeral.decimal, String.toList_ofList]
  · rw [ofDigitChars_map_hexSymbol below]
    have room : s.word.toNat < 10 ^ 20 := Nat.lt_trans s.word.toNat_lt (by decide)
    exact (Numeral.value_digits 10 20 s.word.toNat).trans (Nat.mod_eq_of_lt room)

namespace Origin

theorem toList_toString (w : UInt64) : (toString w).toList = Nat.toDigits 10 w.toNat := by
  change (toString w.toNat).toList = _
  rw [Nat.toString_eq_ofList_toDigits, String.toList_ofList]

theorem toDigits_inj {w w' : UInt64} (same : Nat.toDigits 10 w.toNat = Nat.toDigits 10 w'.toNat) :
    w = w' := by
  apply UInt64.toNat_inj.mp
  rw [← Nat.ofDigitChars_ten_toDigits (n := w.toNat), same, Nat.ofDigitChars_ten_toDigits]

theorem blank_not_mem_toDigits (n : Nat) : ' ' ∉ Nat.toDigits 10 n := by
  intro blank
  have digit := Nat.isDigit_of_mem_toDigits (by decide) (by decide) blank
  exact absurd digit (by decide)

/-- What stands before the first blank, and what stands after it, can be told from the whole. -/
theorem append_blank_inj {xs ys rest rest' : List Char} (hx : ' ' ∉ xs) (hy : ' ' ∉ ys)
    (same : xs ++ ' ' :: rest = ys ++ ' ' :: rest') : xs = ys ∧ rest = rest' := by
  induction xs generalizing ys with
  | nil =>
    cases ys with
    | nil => exact ⟨rfl, (List.cons.inj same).2⟩
    | cons y ys =>
      have first := (List.cons.inj same).1
      simp [← first] at hy
  | cons x xs ih =>
    cases ys with
    | nil =>
      have first := (List.cons.inj same).1
      simp [first] at hx
    | cons y ys =>
      obtain ⟨rfl, others⟩ := List.cons.inj same
      simp only [List.mem_cons, not_or] at hx hy
      obtain ⟨rfl, rests⟩ := ih hx.2 hy.2 others
      exact ⟨rfl, rests⟩

theorem toList_text (o : Origin) :
    o.text.toList = Nat.toDigits 10 o.unixMillis.toNat ++
      ' ' :: (Nat.toDigits 10 o.machine.toNat ++ ' ' :: Nat.toDigits 10 o.sequence.toNat) := by
  simp [text_eq, toList_toString]

theorem text_injective {a b : Origin} (same : a.text = b.text) : a = b := by
  have chars := congrArg String.toList same
  rw [toList_text, toList_text] at chars
  obtain ⟨moment, rest⟩ := append_blank_inj (blank_not_mem_toDigits _) (blank_not_mem_toDigits _)
    chars
  obtain ⟨machine, sequence⟩ := append_blank_inj (blank_not_mem_toDigits _)
    (blank_not_mem_toDigits _) rest
  cases a
  cases b
  rw [Origin.mk.injEq]
  exact ⟨toDigits_inj moment, toDigits_inj machine, toDigits_inj sequence⟩

end Origin

namespace CommandLine.Invocation

/-- The line that is written for a key under a configuration. -/
def lineOf (c : Config) (input : String) : Except Failure String :=
  (decodeOne { config := c } input).map Origin.text

/-- Lines are written up to the first key that has none, and its failure is the failure of all. -/
theorem exists_good_keys (c : Config) (inputs : List String) :
    ∃ good rest, inputs = good ++ rest ∧
      good.mapM (lineOf c) = .ok (decodeAll { config := c } inputs).lines ∧
      (rest = [] ∧ (decodeAll { config := c } inputs).failure = none ∨
        ∃ bad more failure, rest = bad :: more ∧ lineOf c bad = .error failure ∧
          (decodeAll { config := c } inputs).failure = some failure) := by
  induction inputs with
  | nil => exact ⟨[], [], rfl, rfl, Or.inl ⟨rfl, rfl⟩⟩
  | cons input inputs ih =>
    cases decoded : decodeOne { config := c } input with
    | error failure =>
      have none : lineOf c input = .error failure := by rw [lineOf, decoded]; rfl
      refine ⟨[], input :: inputs, rfl, ?_, Or.inr ⟨input, inputs, failure, rfl, none, ?_⟩⟩
      · rw [decodeAll, decoded]
        rfl
      · rw [decodeAll, decoded]
    | ok origin =>
      have line : lineOf c input = .ok origin.text := by rw [lineOf, decoded]; rfl
      obtain ⟨good, rest, split, lines, ending⟩ := ih
      rw [decodeAll, decoded]
      refine ⟨input :: good, rest, congrArg (input :: ·) split, ?_, ending⟩
      rw [List.mapM_cons, line, lines]
      rfl

theorem failure_decodeAll_eq_none_iff (c : Config) (inputs : List String) :
    (decodeAll { config := c } inputs).failure = none ↔
      ∀ input ∈ inputs, ∃ line, lineOf c input = .ok line := by
  induction inputs with
  | nil => simp [decodeAll]
  | cons input inputs ih =>
    rw [List.forall_mem_cons, decodeAll, lineOf]
    cases decodeOne { config := c } input with
    | error failure => simp [Except.map]
    | ok origin => simpa [Except.map] using ih

variable {c : Config}

theorem lineOf_eq_ok_iff (input line : String) :
    lineOf c input = .ok line ↔
      ∃ origin, decodeOne { config := c } input = .ok origin ∧ line = origin.text := by
  rw [lineOf]
  cases decodeOne { config := c } input with
  | error failure => simp [Except.map]
  | ok origin => simp [Except.map, eq_comm]

/-- A worker that the layout does not know is refused, unless the clock is refused before. -/
theorem issuer_of_unknown (valid : c.validate = .ok ()) {worker : Int}
    (unknown : ¬ c.layout.Knows worker) (command : Command) (now : UInt64) :
    ∃ failure, issuer ⟨c, some worker, command⟩ now = .error failure ∧
      (c.epoch ≤ now → failure = .refused (.workerOutOfRange worker c.layout.maxMachine)) := by
  have rules : Rules.ofConfig c worker =
      .error (.workerOutOfRange worker c.layout.maxMachine) := by
    have machine : c.layout.machineOf worker =
      .error (.workerOutOfRange worker c.layout.maxMachine) := if_neg unknown
    rw [Rules.ofConfig_of_valid valid, machine]
    rfl
  cases started : Issuer.ofSystemClock c now with
  | error fault =>
    refine ⟨.refused fault, by rw [issuer, started]; rfl, ?_⟩
    intro come
    have made := (Issuer.ofSystemClock_eq_ok_iff c now _ _).mpr ⟨valid, come, rfl, rfl⟩
    rw [started] at made
    cases made
  | ok made =>
    obtain ⟨k, clock⟩ := made
    obtain ⟨_, _, rfl, rfl⟩ := (Issuer.ofSystemClock_eq_ok_iff ..).mp started
    have bound : Issuer.bind { config := c } worker =
        (.error (.workerOutOfRange worker c.layout.maxMachine), { config := c }) := by
      simp only [Issuer.bind, rules]
    refine ⟨.refused (.workerOutOfRange worker c.layout.maxMachine), ?_, fun _ => rfl⟩
    simp [issuer, started, Issuer.bindFrom, bound, Except.mapError, bind, Except.bind, throw,
      throwThe, MonadExceptOf.throw]

/-- With a worker that the layout does not know an invocation fails before it writes anything, and
for that reason if the epoch has come. -/
theorem run_of_unknown {σ : Type} [Clock σ] (valid : c.validate = .ok ()) {worker : Int}
    (unknown : ¬ c.layout.Knows worker) (command : Command) (patience : Nat) (wall : σ) :
    (run ⟨c, some worker, command⟩ patience wall).lines = [] ∧
      (run ⟨c, some worker, command⟩ patience wall).failure ≠ none ∧
      ∀ now, (Clock.read wall).1 = .shows now → c.epoch ≤ now →
        (run ⟨c, some worker, command⟩ patience wall).failure =
          some (.refused (.workerOutOfRange worker c.layout.maxMachine)) := by
  rcases read : Clock.read wall with ⟨reading, later⟩
  cases reading with
  | breaksDown =>
    rw [run_of_breakdown read]
    refine ⟨rfl, nofun, ?_⟩
    rintro _ ⟨⟩
  | shows now =>
    obtain ⟨failure, refused, reason⟩ := issuer_of_unknown valid unknown command now
    rw [run_of_failure read refused]
    refine ⟨rfl, nofun, ?_⟩
    rintro _ ⟨⟩ come
    rw [reason come]

theorem valid_of_ofRequest {r : Request} {i : Invocation} (accepted : ofRequest r = .ok i) :
    i.config.validate = .ok () ∧ i.command = r.command := by
  rw [ofRequest] at accepted
  cases made : r.given.config with
  | error failure =>
    rw [made] at accepted
    cases accepted
  | ok c =>
    rw [made] at accepted
    cases accepted
    exact ⟨Given.valid_of_config made, rfl⟩

/-- Whatever request to decode keys is accepted: once the epoch has come, and with no worker or one
that the layout knows, a line is written for every key up to the first that has none, whose failure
ends the run; so the run succeeds exactly if all keys have lines. With any other worker nothing is
written. Where numbers are decoded, the texts with a line are those that write the word of a valid
stamp, and where texts are decoded, those that are read as a key. The decimal form of a valid stamp,
its padded form and its key have the same line, which no other valid stamp has: the time, the
machine and the sequence, with blanks between them. -/
theorem decoding_line_by_line {r : Request} {i : Invocation} {ids : List String}
    (accepted : ofRequest r = .ok i) (command : r.command = .decode ids) {σ : Type} [Clock σ]
    (wall : σ) (patience : Nat) :
    let l := i.config.layout
    let numeric : Config := { i.config with asString := false }
    let textual : Config := { i.config with asString := true }
    let output := run i patience wall
    (∀ now, (Clock.read wall).1 = .shows now → i.config.epoch ≤ now →
      (∀ worker ∈ i.worker, l.Knows worker) →
        (∃ good rest, ids = good ++ rest ∧ good.mapM (lineOf i.config) = .ok output.lines ∧
          (rest = [] ∧ output.failure = none ∨ ∃ bad more failure, rest = bad :: more ∧
            lineOf i.config bad = .error failure ∧ output.failure = some failure)) ∧
        (output.failure = none ↔ ∀ input ∈ ids, ∃ line, lineOf i.config input = .ok line)) ∧
    (∀ worker ∈ i.worker, ¬ l.Knows worker →
      output.lines = [] ∧ output.failure ≠ none ∧
        ∀ now, (Clock.read wall).1 = .shows now → i.config.epoch ≤ now →
          output.failure = some (.refused (.workerOutOfRange worker l.maxMachine))) ∧
    (∀ input, (∃ line, lineOf numeric input = .ok line) ↔
      ∃ s, Text.Literal input s.word.toNat ∧ l.isValid s = true) ∧
    (∀ input, (∃ line, lineOf textual input = .ok line) ↔ ∃ s, l.decodeKey input = .ok s) ∧
    (∀ s, l.isValid s = true → ∃ key origin, l.encodeKey s = .ok key ∧
      i.config.originOf s = .ok origin ∧
      let line := " ".intercalate
        [toString origin.unixMillis, toString origin.machine, toString origin.sequence]
      lineOf numeric s.text = .ok line ∧ lineOf numeric s.padded = .ok line ∧
        lineOf textual key = .ok line) ∧
    ∀ s s', l.isValid s = true → l.isValid s' = true →
      lineOf numeric s.text = lineOf numeric s'.text → s = s' := by
  obtain ⟨valid, asked⟩ := valid_of_ofRequest accepted
  rw [command] at asked
  obtain ⟨c, worker, _⟩ := i
  subst asked
  intro l numeric textual output
  -- neither form of the settings changes what is read from a stamp
  have number {s : Stamp} {origin : Origin} {input : String} (read : c.originOf s = .ok origin)
      (writes : Text.Literal input s.word.toNat) : lineOf numeric input = .ok origin.text :=
    (lineOf_eq_ok_iff ..).mpr ⟨_, (decodeOne_of_numeric rfl ..).mpr ⟨s, writes, read⟩, rfl⟩
  have key {s : Stamp} {origin : Origin} {input : String} (read : c.originOf s = .ok origin)
      (known : l.decodeKey input = .ok s) : lineOf textual input = .ok origin.text :=
    (lineOf_eq_ok_iff ..).mpr ⟨_, (decodeOne_of_textual rfl ..).mpr ⟨s, known, read⟩, rfl⟩
  have readable {s : Stamp} (fits : l.isValid s = true) : ∃ origin, c.originOf s = .ok origin :=
    Config.exists_originOf_of_validate valid fits
  have decimal (s : Stamp) : Text.Literal s.text s.word.toNat := Text.literal_toString s.word.toNat
  refine ⟨?_, ?_, ?_, ?_, ?_, ?_⟩
  · intro now shown come known
    have same : output = decodeAll { config := c } ids :=
      run_eq_decodeAll valid shown come (fun w hw => ⟨_, if_pos (known w hw)⟩) ids patience
    rw [same]
    exact ⟨exists_good_keys c ids, failure_decodeAll_eq_none_iff c ids⟩
  · intro w hw unknown
    obtain rfl : worker = some w := hw
    exact run_of_unknown valid unknown (.decode ids) patience wall
  · intro input
    constructor
    · rintro ⟨line, written⟩
      obtain ⟨origin, decoded, _⟩ := (lineOf_eq_ok_iff ..).mp written
      obtain ⟨s, writes, read⟩ := (decodeOne_of_numeric rfl ..).mp decoded
      exact ⟨s, writes, ((Config.originOf_eq_ok_iff ..).mp read).1⟩
    · rintro ⟨s, writes, fits⟩
      obtain ⟨origin, read⟩ := readable fits
      exact ⟨_, number read writes⟩
  · intro input
    constructor
    · rintro ⟨line, written⟩
      obtain ⟨origin, decoded, _⟩ := (lineOf_eq_ok_iff ..).mp written
      obtain ⟨s, known, _⟩ := (decodeOne_of_textual rfl ..).mp decoded
      exact ⟨s, known⟩
    · rintro ⟨s, known⟩
      have written := (l.decodeKey_eq_ok_iff input s).mp known
      obtain ⟨origin, read⟩ := readable ((l.encodeKey_eq_ok_iff s input).mp written).1
      exact ⟨_, key read known⟩
  · intro s fits
    obtain ⟨text, written, known⟩ := Layout.exists_key_of_isValid fits
    obtain ⟨origin, read⟩ := readable fits
    refine ⟨text, origin, written, read, ?_⟩
    rw [← origin.text_eq]
    exact ⟨number read (decimal s), number read s.literal_padded, key read known⟩
  · intro s s' fits fits' same
    obtain ⟨origin, read⟩ := readable fits
    obtain ⟨origin', read'⟩ := readable fits'
    rw [number read (decimal s), number read' (decimal s')] at same
    have equal := Origin.text_injective (Except.ok.inj same)
    exact Config.originOf_injective read (equal ▸ read')

/-- A plus and leading zeros are fine, a minus is not, and the key behind it is not looked at. -/
theorem decoding_line_by_line_until_minus :
    ∃ i, ofRequest ⟨.decode ["+4222981", "00000000000000000000", "-1", "5"], {}, {}, {}⟩ = .ok i ∧
      (run i 0 ({ lines := [.shows 1477958400000] } : Script)).lines =
        ["1477958400001 7 5", "1477958400000 0 0"] ∧
      (run i 0 ({ lines := [.shows 1477958400000] } : Script)).failure =
        some (.notNumeric "-1" .foreignDigit) ∧
      (∃ input ∈ ["+4222981", "00000000000000000000", "-1", "5"],
        ∀ line, lineOf i.config input ≠ .ok line) ∧
      ∃ key, i.config.layout.encodeKey ⟨4222981⟩ = .ok key ∧
        lineOf { i.config with asString := false } "4222981" = .ok "1477958400001 7 5" ∧
        lineOf { i.config with asString := true } key = .ok "1477958400001 7 5" := by
  have accepted : ofRequest
      ⟨.decode ["+4222981", "00000000000000000000", "-1", "5"], {}, {}, {}⟩ =
    .ok ⟨{}, none, .decode ["+4222981", "00000000000000000000", "-1", "5"]⟩ := rfl
  obtain ⟨lines, _, _, _, forms, _⟩ := decoding_line_by_line accepted rfl
    ({ lines := [.shows 1477958400000] } : Script) 0
  obtain ⟨_, succeeds⟩ := lines 1477958400000 rfl (by decide) (by rintro _ ⟨⟩)
  obtain ⟨key, origin, coded, read, number, _, text⟩ := forms ⟨4222981⟩ rfl
  have found : origin = ⟨1477958400001, 7, 5⟩ := (Except.ok.inj read).symm
  subst found
  refine ⟨_, accepted, rfl, rfl, ?_, key, coded, number, text⟩
  by_contra all
  push Not at all
  cases succeeds.mpr all

end CommandLine.Invocation
end Tickstamp
