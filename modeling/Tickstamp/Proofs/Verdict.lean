import Tickstamp.Proofs.Keys

/-!
# What is said of a text that is read as a key

Every text is judged by the first of three questions that it fails: whether it
has the width of the layout, whether all its bytes are symbols, and whether the
number that these write is one of the layout. The order is kept although digits
are added up while symbols are still looked at, because only the last digit of a
text of the right width can take the number past 64 bits. Texts that are read
with a wrong layout are judged like any others.
-/

namespace Tickstamp
namespace Key

/-- The symbols of the base 62, in the order of the digits that they stand for. -/
def alphabet : List UInt8 :=
  bytes "0123456789ABCDEFGHIJKLMNOPQRSTUVWXYZabcdefghijklmnopqrstuvwxyz"

/-- The number that symbols write to the base 62. -/
def numeral (text : List UInt8) : Nat :=
  Numeral.value 62 (text.map alphabet.idxOf)

/-- The first byte of a text that is no symbol, and where it stands. -/
structure FirstForeign (text : List UInt8) (byte : UInt8) (index : Nat) : Prop where
  at_index : text[index]? = some byte
  foreign : byte ∉ alphabet
  before : ∀ b ∈ text.take index, b ∈ alphabet

theorem mem_alphabet_iff (byte : UInt8) :
    byte ∈ alphabet ↔ ∃ d < 62, byte = (Numeral.symbol d).toUInt8 := by
  have all : alphabet = Numeral.spelling (List.range 62) := by decide
  rw [all, Numeral.spelling, List.mem_map]
  constructor
  · rintro ⟨d, hd, rfl⟩
    exact ⟨d, List.mem_range.mp hd, rfl⟩
  · rintro ⟨d, hd, rfl⟩
    exact ⟨d, List.mem_range.mpr hd, rfl⟩

theorem idxOf_symbol {d : Nat} (h : d < 62) :
    alphabet.idxOf (Numeral.symbol d).toUInt8 = d := by
  revert d
  decide

/-- A symbol stands for its place in the alphabet, and nothing else stands for a digit. -/
theorem digitOfByte?_of_mem {byte : UInt8} (known : byte ∈ alphabet) :
    Numeral.digitOfByte? byte = some (alphabet.idxOf byte) := by
  obtain ⟨d, hd, rfl⟩ := (mem_alphabet_iff byte).mp known
  rw [idxOf_symbol hd]
  exact (Numeral.digitOfByte?_eq_some_iff _ d).mpr ⟨hd, rfl⟩

theorem digitOfByte?_of_not_mem {byte : UInt8} (foreign : byte ∉ alphabet) :
    Numeral.digitOfByte? byte = none := by
  cases read : Numeral.digitOfByte? byte with
  | none => rfl
  | some d =>
    obtain ⟨hd, same⟩ := (Numeral.digitOfByte?_eq_some_iff byte d).mp read
    exact absurd ((mem_alphabet_iff byte).mpr ⟨d, hd, same⟩) foreign

theorem spelling_idxOf {text : List UInt8} (symbols : ∀ b ∈ text, b ∈ alphabet) :
    Numeral.spelling (text.map alphabet.idxOf) = text := by
  have each : ∀ b ∈ text, (Numeral.symbol (alphabet.idxOf b)).toUInt8 = id b := by
    intro b hb
    obtain ⟨d, hd, rfl⟩ := (mem_alphabet_iff b).mp (symbols b hb)
    rw [idxOf_symbol hd, id]
  rw [Numeral.spelling, List.map_map]
  exact (List.map_congr_left each).trans (List.map_id text)

theorem idxOf_lt {text : List UInt8} (symbols : ∀ b ∈ text, b ∈ alphabet) :
    ∀ d ∈ text.map alphabet.idxOf, d < 62 := by
  intro d hd
  obtain ⟨b, hb, rfl⟩ := List.mem_map.mp hd
  exact List.idxOf_lt_length_iff.mpr (symbols b hb)

theorem numeral_lt {text : List UInt8} (symbols : ∀ b ∈ text, b ∈ alphabet) :
    numeral text < 62 ^ text.length := by
  have bound := Numeral.value_lt (idxOf_lt symbols)
  rwa [List.length_map] at bound

theorem numeral_cons (acc : Nat) (byte : UInt8) (text : List UInt8) :
    acc * 62 ^ (byte :: text).length + numeral (byte :: text) =
      (acc * 62 + alphabet.idxOf byte) * 62 ^ text.length + numeral text := by
  have step := Numeral.carry 62 acc (alphabet.idxOf byte) (text.map alphabet.idxOf)
  simpa [numeral] using step

/-- Symbols are read before what follows them, as long as the number has 64 bits. -/
theorem readDigits_append (index acc : Nat) {before : List UInt8} (after : List UInt8)
    (symbols : ∀ b ∈ before, b ∈ alphabet)
    (fits : acc * 62 ^ before.length + numeral before < UInt64.size) :
    readDigits index acc (before ++ after) =
      readDigits (index + before.length) (acc * 62 ^ before.length + numeral before) after := by
  have read := readDigits_spelling_append index acc after (idxOf_lt symbols)
    (by rwa [List.length_map])
  rwa [spelling_idxOf symbols, List.length_map] at read

theorem readDigits_of_large (index : Nat) {acc : Nat} {text : List UInt8}
    (symbols : ∀ b ∈ text, b ∈ alphabet) (small : acc < UInt64.size)
    (large : UInt64.size ≤ acc * 62 ^ text.length + numeral text) :
    readDigits index acc text = .error .tooLarge := by
  induction text generalizing index acc with
  | nil =>
    simp [numeral, Numeral.value] at large
    omega
  | cons byte rest ih =>
    obtain ⟨known, others⟩ := List.forall_mem_cons.mp symbols
    rw [numeral_cons] at large
    rw [readDigits, digitOfByte?_of_mem known]
    by_cases fits : acc * 62 + alphabet.idxOf byte < UInt64.size
    · simp only [if_pos fits]
      exact ih (index + 1) others fits large
    · simp only [if_neg fits]

theorem readDigits_of_firstForeign {text : List UInt8} {byte : UInt8} {index : Nat}
    (first : FirstForeign text byte index) (fits : numeral (text.take index) < UInt64.size) :
    readDigits 0 0 text = .error (.badSymbol byte index) := by
  obtain ⟨inside, found⟩ := List.getElem?_eq_some_iff.mp first.at_index
  have length : (text.take index).length = index := by
    rw [List.length_take]
    omega
  have split : text = text.take index ++ byte :: text.drop (index + 1) := by
    rw [← found, List.getElem_cons_drop, List.take_append_drop]
  have read := readDigits_append 0 0 (byte :: text.drop (index + 1)) first.before (by omega)
  rw [← split, length, readDigits, digitOfByte?_of_not_mem first.foreign, Nat.zero_add] at read
  exact read

theorem readNumeral_of_symbols {text : List UInt8} (symbols : ∀ b ∈ text, b ∈ alphabet) :
    readNumeral text.length text =
      if numeral text < UInt64.size then .ok (numeral text) else .error .tooLarge := by
  rw [readNumeral, if_pos rfl]
  by_cases fits : numeral text < UInt64.size
  · have digits := readDigits_append 0 0 [] symbols (by omega)
    rw [List.append_nil, Nat.zero_mul, Nat.zero_add, Nat.zero_add] at digits
    rw [digits, readDigits, if_pos fits]
  · rw [if_neg fits]
    exact readDigits_of_large 0 symbols (by decide) (by omega)

/-- Either all bytes of a text are symbols, or one that is not comes first. -/
theorem symbols_or_firstForeign (text : List UInt8) :
    (∀ b ∈ text, b ∈ alphabet) ∨ ∃ byte index, FirstForeign text byte index := by
  induction text with
  | nil => exact Or.inl (by simp)
  | cons b rest ih =>
    by_cases known : b ∈ alphabet
    · rcases ih with symbols | ⟨byte, index, first⟩
      · exact Or.inl (List.forall_mem_cons.mpr ⟨known, symbols⟩)
      · refine Or.inr ⟨byte, index + 1, by simpa using first.at_index, first.foreign, ?_⟩
        rw [List.take_succ_cons]
        exact List.forall_mem_cons.mpr ⟨known, first.before⟩
    · exact Or.inr ⟨b, 0, rfl, known, by simp⟩

end Key
namespace Layout

/-- Of a text of the right width only the whole can write a number of more than 64 bits. -/
theorem numeral_take_lt {l : Layout} {text : List UInt8} {index : Nat}
    (inside : index < l.keyWidth) (symbols : ∀ b ∈ text.take index, b ∈ Key.alphabet) :
    Key.numeral (text.take index) < UInt64.size := by
  have narrow : 62 ^ index < 2 ^ l.totalBits := by
    have least := Numeral.widthForBits_le_iff l.totalBits index
    apply Nat.lt_of_not_le
    intro enough
    exact absurd (least.mpr enough) (Nat.not_le.mpr inside)
  have word : 2 ^ l.totalBits ≤ 2 ^ 64 := by
    apply Nat.pow_le_pow_right (by decide)
    have := l.valueBits_lt
    rw [totalBits]
    omega
  have shorter : 62 ^ (text.take index).length ≤ 62 ^ index :=
    Nat.pow_le_pow_right (by decide) (List.length_take_le index text)
  calc Key.numeral (text.take index)
      < 62 ^ (text.take index).length := Key.numeral_lt symbols
    _ ≤ 62 ^ index := shorter
    _ ≤ 2 ^ l.totalBits := Nat.le_of_lt narrow
    _ ≤ UInt64.size := word

/-- What is to be said of a text, and for which reason. -/
inductive Verdict (l : Layout) (key : String) : Except Fault Stamp → Prop where
  | wrongLength (wrong : key.utf8ByteSize ≠ l.keyWidth) :
      Verdict l key (.error (.malformedKey (.wrongLength l.keyWidth key.utf8ByteSize)))
  | badSymbol {byte : UInt8} {index : Nat} (width : key.utf8ByteSize = l.keyWidth)
      (first : Key.FirstForeign (Key.bytes key) byte index) :
      Verdict l key (.error (.malformedKey (.badSymbol byte index)))
  | tooLarge (width : key.utf8ByteSize = l.keyWidth)
      (symbols : ∀ b ∈ Key.bytes key, b ∈ Key.alphabet)
      (large : 2 ^ l.valueBits ≤ Key.numeral (Key.bytes key)) :
      Verdict l key (.error (.malformedKey .tooLarge))
  | stamp {s : Stamp} (width : key.utf8ByteSize = l.keyWidth)
      (symbols : ∀ b ∈ Key.bytes key, b ∈ Key.alphabet)
      (small : Key.numeral (Key.bytes key) < 2 ^ l.valueBits)
      (same : s.word.toNat = Key.numeral (Key.bytes key)) :
      Verdict l key (.ok s)

theorem decodeKey_of_wrongLength {l : Layout} {key : String}
    (wrong : key.utf8ByteSize ≠ l.keyWidth) :
    l.decodeKey key = .error (.malformedKey (.wrongLength l.keyWidth key.utf8ByteSize)) := by
  rw [← Key.length_bytes] at wrong ⊢
  simp [decodeKey, Key.readNumeral, wrong]

theorem decodeKey_of_firstForeign {l : Layout} {key : String} {byte : UInt8} {index : Nat}
    (width : key.utf8ByteSize = l.keyWidth)
    (first : Key.FirstForeign (Key.bytes key) byte index) :
    l.decodeKey key = .error (.malformedKey (.badSymbol byte index)) := by
  obtain ⟨inside, _⟩ := List.getElem?_eq_some_iff.mp first.at_index
  have length : (Key.bytes key).length = l.keyWidth := width
  have fits := l.numeral_take_lt (length ▸ inside) first.before
  simp [decodeKey, Key.readNumeral, length, Key.readDigits_of_firstForeign first fits]

/-- A text of symbols is read as its number, or refused because the number is none of the layout,
whether or not it has 64 bits. -/
theorem decodeKey_of_symbols {l : Layout} {key : String} (width : key.utf8ByteSize = l.keyWidth)
    (symbols : ∀ b ∈ Key.bytes key, b ∈ Key.alphabet) :
    l.decodeKey key = if Key.numeral (Key.bytes key) < 2 ^ l.valueBits
      then .ok ⟨UInt64.ofNat (Key.numeral (Key.bytes key))⟩
      else .error (.malformedKey .tooLarge) := by
  have read := Key.readNumeral_of_symbols symbols
  rw [show (Key.bytes key).length = l.keyWidth from width] at read
  by_cases fits : Key.numeral (Key.bytes key) < UInt64.size
  · have valid := l.isValid_iff ⟨UInt64.ofNat (Key.numeral (Key.bytes key))⟩
    rw [UInt64.toNat_ofNat_of_lt' fits] at valid
    rw [if_pos fits] at read
    by_cases small : Key.numeral (Key.bytes key) < 2 ^ l.valueBits
    · simp [decodeKey, read, small, valid.mpr small]
    · simp [decodeKey, read, small, mt valid.mp small]
  · have large : ¬ Key.numeral (Key.bytes key) < 2 ^ l.valueBits := by
      have below : 2 ^ l.valueBits ≤ UInt64.size := Nat.le_trans l.valueBits_pow_le (by decide)
      omega
    rw [if_neg fits] at read
    simp [decodeKey, read, large]

theorem verdict_decodeKey (l : Layout) (key : String) : l.Verdict key (l.decodeKey key) := by
  by_cases width : key.utf8ByteSize = l.keyWidth
  · rcases Key.symbols_or_firstForeign (Key.bytes key) with symbols | ⟨byte, index, first⟩
    · rw [decodeKey_of_symbols width symbols]
      by_cases small : Key.numeral (Key.bytes key) < 2 ^ l.valueBits
      · rw [if_pos small]
        refine .stamp width symbols small (UInt64.toNat_ofNat_of_lt' ?_)
        exact Nat.lt_of_lt_of_le small (Nat.le_trans l.valueBits_pow_le (by decide))
      · rw [if_neg small]
        exact .tooLarge width symbols (Nat.le_of_not_lt small)
    · rw [decodeKey_of_firstForeign width first]
      exact .badSymbol width first
  · rw [decodeKey_of_wrongLength width]
    exact .wrongLength width

theorem malformed_of_decodeKey {l : Layout} {key : String} {fault : Fault}
    (refused : l.decodeKey key = .error fault) : ∃ cause, fault = .malformedKey cause := by
  have verdict := l.verdict_decodeKey key
  rw [refused] at verdict
  cases verdict with
  | wrongLength _ => exact ⟨_, rfl⟩
  | badSymbol _ _ => exact ⟨_, rfl⟩
  | tooLarge _ _ _ => exact ⟨_, rfl⟩

/-- The verdict on a text is what reading it as a key answers: its length if that is not the width
of the layout, else its first byte that is no symbol, whatever the symbols around it amount to,
else whether the number that it writes is one of the layout. Nothing else is ever answered. -/
theorem decodeKey_classified (l : Layout) (key : String) :
    let text := Key.bytes key
    let bits := l.timestampBits + l.machineBits + l.sequenceBits
    (∀ expected got, l.decodeKey key = .error (.malformedKey (.wrongLength expected got)) ↔
      text.length ≠ l.keyWidth ∧ expected = l.keyWidth ∧ got = text.length) ∧
    (∀ byte index, l.decodeKey key = .error (.malformedKey (.badSymbol byte index)) ↔
      text.length = l.keyWidth ∧ Key.FirstForeign text byte index) ∧
    (l.decodeKey key = .error (.malformedKey .tooLarge) ↔
      text.length = l.keyWidth ∧ (∀ b ∈ text, b ∈ Key.alphabet) ∧ 2 ^ bits ≤ Key.numeral text) ∧
    (∀ s, l.decodeKey key = .ok s ↔
      text.length = l.keyWidth ∧ (∀ b ∈ text, b ∈ Key.alphabet) ∧ Key.numeral text < 2 ^ bits ∧
        s.word.toNat = Key.numeral text) ∧
    ∀ fault, l.decodeKey key = .error fault → ∃ cause, fault = .malformedKey cause := by
  have verdict := l.verdict_decodeKey key
  refine ⟨?_, ?_, ?_, ?_, fun fault => malformed_of_decodeKey⟩
  · intro expected got
    constructor
    · intro answer
      rw [answer] at verdict
      cases verdict with
      | wrongLength wrong => exact ⟨wrong, rfl, rfl⟩
    · rintro ⟨wrong, rfl, rfl⟩
      exact decodeKey_of_wrongLength wrong
  · intro byte index
    constructor
    · intro answer
      rw [answer] at verdict
      cases verdict with
      | badSymbol width first => exact ⟨width, first⟩
    · rintro ⟨width, first⟩
      exact decodeKey_of_firstForeign width first
  · constructor
    · intro answer
      rw [answer] at verdict
      cases verdict with
      | tooLarge width symbols large => exact ⟨width, symbols, large⟩
    · rintro ⟨width, symbols, large⟩
      rw [decodeKey_of_symbols width symbols]
      exact if_neg (Nat.not_lt.mpr large)
  · intro s
    constructor
    · intro answer
      rw [answer] at verdict
      cases verdict with
      | stamp width symbols small same => exact ⟨width, symbols, small, same⟩
    · rintro ⟨width, symbols, small, same⟩
      rw [decodeKey_of_symbols width symbols, ← same, UInt64.ofNat_toNat]
      exact if_pos (same ▸ small)

/-- Five bits need two symbols, the first of which alone can be too large a number; the foreign
second byte is reported all the same. -/
theorem decodeKey_classified_beyond_range :
    ∃ l, ofBits 3 1 1 = .ok l ∧
      l.decodeKey "z-" = .error (.malformedKey (.badSymbol 0x2D 1)) ∧
      l.decodeKey "z0" = .error (.malformedKey .tooLarge) ∧
      l.decodeKey "0é" = .error (.malformedKey (.wrongLength 2 3)) ∧
      l.decodeKey "0V" = .ok ⟨31⟩ := by
  have accepted : ofBits 3 1 1 = .ok _ := rfl
  refine ⟨_, accepted, ?_, ?_, ?_, ?_⟩
  · exact ((decodeKey_classified _ "z-").2.1 0x2D 1).mpr ⟨rfl, rfl, by decide, by decide +kernel⟩
  · exact (decodeKey_classified _ "z0").2.2.1.mpr ⟨rfl, by decide +kernel, by decide⟩
  · exact ((decodeKey_classified _ "0é").1 2 3).mpr ⟨by decide, rfl, rfl⟩
  · exact ((decodeKey_classified _ "0V").2.2.2.1 ⟨31⟩).mpr ⟨rfl, by decide +kernel, by decide, rfl⟩

end Layout
end Tickstamp
