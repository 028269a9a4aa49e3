import Tickstamp.Proofs.Coding
import Tickstamp.Proofs.Numeral

/-!
# Text keys and valid stamps correspond

A text is read as a key exactly if it is what some valid stamp is written as,
and then as that stamp. So every valid stamp has one text, and a text that
differs from it in any byte is refused or belongs to another stamp. Which of
the possible faults a refused text is charged with is not said here.
-/

namespace Tickstamp

namespace Numeral

/-- The bytes that write these digits. -/
def spelling (ds : List Nat) : List UInt8 :=
  ds.map fun d => (symbol d).toUInt8

@[simp] theorem length_spelling (ds : List Nat) : (spelling ds).length = ds.length :=
  List.length_map _

end Numeral
namespace Key

open Numeral

theorem bytes_inj {a b : String} : bytes a = bytes b ↔ a = b := by
  constructor
  · intro h
    apply String.toByteArray_inj.mp
    exact ByteArray.ext (Array.toList_inj.mp h)
  · rintro rfl
    rfl

theorem length_bytes (text : String) : (bytes text).length = text.utf8ByteSize :=
  rfl

theorem bytes_ofList {cs : List Char} (ascii : ∀ c ∈ cs, c.toNat < 128) :
    bytes (String.ofList cs) = cs.map Char.toUInt8 := by
  induction cs with
  | nil => rfl
  | cons c rest ih =>
    have one : c.utf8Size = 1 := by
      rw [Char.utf8Size_eq_one_iff, UInt32.le_iff_toNat_le]
      exact Nat.le_of_lt_succ (ascii c (by simp))
    have rests := ih fun d hd => ascii d (by simp [hd])
    rw [bytes, String.toByteArray_ofList] at rests ⊢
    rw [List.utf8Encode_cons, List.utf8Encode_singleton, String.utf8EncodeChar_eq_singleton one]
    simp [rests]

/-- A numeral of a fixed width has one byte for each digit if all its symbols are ASCII. -/
theorem bytes_digits {base : Nat} {symbol : Nat → Char} (positive : 0 < base)
    (ascii : ∀ d < base, (symbol d).toNat < 128) (width n : Nat) :
    bytes (String.ofList ((digits base width n).map symbol)) =
      (digits base width n).map fun d => (symbol d).toUInt8 := by
  have chars : ∀ c ∈ (digits base width n).map symbol, c.toNat < 128 := by
    intro c hc
    obtain ⟨d, hd, rfl⟩ := List.mem_map.mp hc
    exact ascii d (digits_lt positive width n d hd)
  rw [bytes_ofList chars, List.map_map]
  rfl

theorem bytes_radix62 (width n : Nat) :
    bytes (radix62 width n) = spelling (digits 62 width n) :=
  bytes_digits (by decide) (fun _ => symbol_lt) width n

/-- Digits are read back from their spelling before what follows it, as long as the number has
64 bits. -/
theorem readDigits_spelling_append (index acc : Nat) {ds : List Nat} (after : List UInt8)
    (below : ∀ d ∈ ds, d < 62) (bound : acc * 62 ^ ds.length + value 62 ds < UInt64.size) :
    readDigits index acc (spelling ds ++ after) =
      readDigits (index + ds.length) (acc * 62 ^ ds.length + value 62 ds) after := by
  induction ds generalizing index acc with
  | nil => simp [spelling, value]
  | cons d more ih =>
    obtain ⟨first, others⟩ := List.forall_mem_cons.mp below
    rw [carry] at bound ⊢
    have known : digitOfByte? (symbol d).toUInt8 = some d :=
      (digitOfByte?_eq_some_iff _ d).mpr ⟨first, rfl⟩
    -- no prefix overflows, for the number read so far is never larger than the whole
    have grows : (acc * 62 + d) * 1 ≤ (acc * 62 + d) * 62 ^ more.length :=
      Nat.mul_le_mul_left _ (Nat.one_le_pow _ _ (by decide))
    have fits : acc * 62 + d < UInt64.size := by omega
    have step : readDigits index acc (spelling (d :: more) ++ after) =
        readDigits (index + 1) (acc * 62 + d) (spelling more ++ after) := by
      simp [spelling, readDigits, known, fits]
    rw [step, ih (index + 1) _ others bound, List.length_cons, Nat.add_comm more.length,
      Nat.add_assoc]

theorem spelling_of_readDigits {index acc : Nat} {text : List UInt8} {n : Nat}
    (small : acc < UInt64.size) (read : readDigits index acc text = .ok n) :
    ∃ ds, (∀ d ∈ ds, d < 62) ∧ text = spelling ds ∧
      n = acc * 62 ^ ds.length + value 62 ds ∧ n < UInt64.size := by
  induction text generalizing index acc with
  | nil =>
    cases read
    exact ⟨[], by simp, rfl, by simp [value], small⟩
  | cons byte rest ih =>
    rw [readDigits] at read
    split at read
    · cases read
    · rename_i digit known
      obtain ⟨range, rfl⟩ := (digitOfByte?_eq_some_iff ..).mp known
      split at read
      · rename_i fits
        obtain ⟨ds, below, rfl, rfl, bound⟩ := ih fits read
        exact ⟨digit :: ds, by simpa [range] using below, rfl, (carry ..).symm, bound⟩
      · cases read

/-- A text of the right width is read as the number that is written that way. -/
theorem readNumeral_eq_ok_iff (width : Nat) (text : List UInt8) (n : Nat) :
    readNumeral width text = .ok n ↔
      text = spelling (digits 62 width n) ∧ n < 62 ^ width ∧ n < UInt64.size := by
  constructor
  · intro read
    rw [readNumeral] at read
    split at read
    · rename_i long
      obtain ⟨ds, below, rfl, rfl, bound⟩ := spelling_of_readDigits (by decide) read
      rw [length_spelling] at long
      subst long
      rw [Nat.zero_mul, Nat.zero_add] at bound ⊢
      exact ⟨by rw [digits_value below], value_lt below, bound⟩
    · cases read
  · rintro ⟨rfl, fits, bound⟩
    have whole : value 62 (digits 62 width n) = n :=
      (value_digits 62 width n).trans (Nat.mod_eq_of_lt fits)
    have read := readDigits_spelling_append 0 0 [] (digits_lt (by decide) width n)
      (by rw [whole, Nat.zero_mul, Nat.zero_add]; exact bound)
    rw [List.append_nil, whole, Nat.zero_mul] at read
    rw [readNumeral, if_pos (by simp), read, readDigits, Nat.zero_add]

end Key
namespace Layout

theorem lt_pow_keyWidth_of_isValid {l : Layout} {s : Stamp} (valid : l.isValid s = true) :
    s.word.toNat < 62 ^ l.keyWidth := by
  have enough : 2 ^ l.totalBits ≤ 62 ^ l.keyWidth :=
    (Numeral.widthForBits_le_iff l.totalBits l.keyWidth).mp (Nat.le_refl _)
  have half : 2 ^ l.valueBits ≤ 2 ^ l.totalBits :=
    Nat.pow_le_pow_right (by decide) (by rw [totalBits]; omega)
  exact Nat.lt_of_lt_of_le ((l.isValid_iff s).mp valid) (Nat.le_trans half enough)

theorem encodeKey_eq_ok_iff (l : Layout) (s : Stamp) (key : String) :
    l.encodeKey s = .ok key ↔
      l.isValid s = true ∧ key = Numeral.radix62 l.keyWidth s.word.toNat := by
  simp only [encodeKey, Fault.bind_eq_ok_iff, validate_eq_ok_iff]
  constructor
  · rintro ⟨_, ⟨rfl, valid⟩, written⟩
    exact ⟨valid, (Except.ok.inj written).symm⟩
  · rintro ⟨valid, rfl⟩
    exact ⟨s, ⟨rfl, valid⟩, rfl⟩

/-- Reading accepts exactly what writing produces. -/
theorem decodeKey_eq_ok_iff (l : Layout) (key : String) (s : Stamp) :
    l.decodeKey key = .ok s ↔ l.encodeKey s = .ok key := by
  rw [encodeKey_eq_ok_iff, ← Key.bytes_inj, Key.bytes_radix62]
  constructor
  · intro read
    rw [decodeKey] at read
    split at read
    · cases read
    · rename_i n known
      obtain ⟨spelled, _, bound⟩ := (Key.readNumeral_eq_ok_iff ..).mp known
      have word : (UInt64.ofNat n).toNat = n := UInt64.toNat_ofNat_of_lt' bound
      dsimp only at read
      split at read
      · rename_i valid
        cases read
        rw [word]
        exact ⟨valid, spelled⟩
      · cases read
  · rintro ⟨valid, spelled⟩
    have known : Key.readNumeral l.keyWidth (Key.bytes key) = .ok s.word.toNat :=
      (Key.readNumeral_eq_ok_iff ..).mpr
        ⟨spelled, lt_pow_keyWidth_of_isValid valid, s.word.toNat_lt⟩
    simp [decodeKey, known, valid]

theorem exists_key_of_isValid {l : Layout} {s : Stamp} (valid : l.isValid s = true) :
    ∃ key, l.encodeKey s = .ok key ∧ l.decodeKey key = .ok s := by
  have written := (l.encodeKey_eq_ok_iff s _).mpr ⟨valid, rfl⟩
  exact ⟨_, written, (l.decodeKey_eq_ok_iff _ s).mpr written⟩

theorem utf8ByteSize_of_encodeKey {l : Layout} {s : Stamp} {key : String}
    (written : l.encodeKey s = .ok key) : key.utf8ByteSize = l.keyWidth := by
  obtain ⟨_, rfl⟩ := (l.encodeKey_eq_ok_iff s key).mp written
  rw [← Key.length_bytes, Key.bytes_radix62, Numeral.length_spelling, Numeral.length_digits]

/-- No other text is read as the same stamp. -/
theorem decodeKey_injective {l : Layout} {key key' : String} {s : Stamp}
    (first : l.decodeKey key = .ok s) (second : l.decodeKey key' = .ok s) : key = key' := by
  rw [decodeKey_eq_ok_iff] at first second
  exact Except.ok.inj (first.symm.trans second)

/-- Every valid stamp is written as a text of the width of the layout and is read back from that
text alone, and whatever text is read as a stamp is what the stamp is written as. A stamp with
bits above the layout is refused for its timestamp. -/
theorem keys_bijective (l : Layout) :
    (∀ s, l.isValid s = true → ∃ key, l.encodeKey s = .ok key ∧
      key.utf8ByteSize = l.keyWidth ∧ l.decodeKey key = .ok s) ∧
    (∀ key s, l.decodeKey key = .ok s → l.encodeKey s = .ok key) ∧
    (∀ key key' s, l.decodeKey key = .ok s → l.decodeKey key' = .ok s → key = key') ∧
    (∀ s, l.isValid s = true ↔ ∃! key, l.decodeKey key = .ok s) ∧
    ∀ s, l.isValid s = false → l.encodeKey s = .error (.fieldTooLarge .timestamp
      (s.word >>> UInt64.ofNat l.timestampShift) l.maxTimestamp) := by
  refine ⟨?_, ?_, fun _ _ _ => decodeKey_injective, ?_, ?_⟩
  · intro s valid
    obtain ⟨key, written, read⟩ := exists_key_of_isValid valid
    exact ⟨key, written, utf8ByteSize_of_encodeKey written, read⟩
  · intro key s read
    exact (l.decodeKey_eq_ok_iff key s).mp read
  · intro s
    constructor
    · intro valid
      obtain ⟨key, _, read⟩ := exists_key_of_isValid valid
      exact ⟨key, read, fun _ other => decodeKey_injective other read⟩
    · rintro ⟨key, read, _⟩
      have written := (l.decodeKey_eq_ok_iff key s).mp read
      exact ((l.encodeKey_eq_ok_iff s key).mp written).1
  · intro s invalid
    simp [encodeKey, validate, invalid, bind, Except.bind]

/-- The largest stamp has the last of the texts that are read, and the next word has none. -/
theorem keys_bijective_largest :
    standard.encodeKey ⟨0x7FFFFFFFFFFFFFFF⟩ = .ok "AzL8n0Y58m7" ∧
      standard.decodeKey "AzL8n0Y58m7" = .ok ⟨0x7FFFFFFFFFFFFFFF⟩ ∧
      (∀ key, standard.decodeKey key = .ok ⟨0x7FFFFFFFFFFFFFFF⟩ → key = "AzL8n0Y58m7") ∧
      standard.encodeKey ⟨0x8000000000000000⟩ =
        .error (.fieldTooLarge .timestamp 0x20000000000 0x1FFFFFFFFFF) := by
  obtain ⟨written, rewritten, same, _, refused⟩ := keys_bijective standard
  obtain ⟨key, coded, _, read⟩ := written ⟨0x7FFFFFFFFFFFFFFF⟩ rfl
  obtain rfl : "AzL8n0Y58m7" = key := Except.ok.inj coded
  exact ⟨rewritten _ _ read, read, fun _ other => same _ _ _ other read, refused _ rfl⟩

end Layout
end Tickstamp
