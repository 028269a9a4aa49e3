import Tickstamp.Proofs.Keys

/-!
# All forms of a stamp sort alike

Numerals of one width are in the order of their first differing digit, and the
symbols of both alphabets ascend with their digits. So the valid stamps of a
layout, their fields from the timestamp on, their texts as bytes and their keys
in either form are in one order, and so are all words and their padded decimal
forms. Keys of two layouts are not compared, nor a number with a text.
-/

namespace Tickstamp

/-- The timestamp decides, then the machine, then the sequence. -/
instance : LT Fields where
  lt f g := f.timestamp < g.timestamp ∨ f.timestamp = g.timestamp ∧
    (f.machine < g.machine ∨ f.machine = g.machine ∧ f.sequence < g.sequence)

/-- The strict part of the order in which keys are sorted. -/
instance : LT Key where
  lt a b := Key.le a b = true ∧ ¬ Key.le b a = true

namespace Numeral

theorem value_lt_value_iff {base : Nat} {ds es : List Nat} (width : ds.length = es.length)
    (hd : ∀ d ∈ ds, d < base) (he : ∀ e ∈ es, e < base) :
    value base ds < value base es ↔ ds < es := by
  induction ds generalizing es with
  | nil =>
    obtain rfl := List.length_eq_zero_iff.mp width.symm
    simp
  | cons d ds ih =>
    cases es with
    | nil => simp at width
    | cons e es =>
      have rest : ds.length = es.length := by simpa using width
      obtain ⟨_, lows⟩ := List.forall_mem_cons.mp hd
      obtain ⟨_, lows'⟩ := List.forall_mem_cons.mp he
      have below : value base ds < base ^ es.length := rest ▸ value_lt lows
      rw [value_cons, value_cons, rest, mul_add_lt_mul_add_iff d e below (value_lt lows'),
        ih rest lows lows', List.cons_lt_cons_iff]

/-- Symbols of one byte each that ascend with the digits they stand for. -/
structure Ascending (base : Nat) (symbol : Nat → Char) : Prop where
  ascii : ∀ d < base, (symbol d).toNat < 128
  lt_iff : ∀ d < base, ∀ e < base, ((symbol d).toUInt8 < (symbol e).toUInt8 ↔ d < e)

/-- Digits, upper case and lower case stand in this order in ASCII too. -/
theorem ascending_symbol : Ascending 62 symbol := by
  constructor
  · intro d hd
    exact symbol_lt hd
  · intro d hd e he
    rw [UInt8.lt_iff_toNat_lt, toNat_symbol hd, toNat_symbol he]
    grind

theorem ascending_hexSymbol : Ascending 10 hexSymbol := by
  constructor <;> decide

namespace Ascending

variable {base : Nat} {symbol : Nat → Char}

theorem eq_iff (h : Ascending base symbol) {d e : Nat} (hd : d < base) (he : e < base) :
    (symbol d).toUInt8 = (symbol e).toUInt8 ↔ d = e := by
  constructor
  · intro same
    have less := h.lt_iff d hd e he
    have greater := h.lt_iff e he d hd
    simp only [same, UInt8.lt_irrefl, false_iff] at less greater
    omega
  · rintro rfl
    rfl

theorem map_lt_map_iff (h : Ascending base symbol) {ds es : List Nat}
    (hd : ∀ d ∈ ds, d < base) (he : ∀ e ∈ es, e < base) :
    ds.map (fun d => (symbol d).toUInt8) < es.map (fun e => (symbol e).toUInt8) ↔ ds < es := by
  induction ds generalizing es with
  | nil => cases es <;> simp
  | cons d ds ih =>
    cases es with
    | nil => simp
    | cons e es =>
      obtain ⟨first, others⟩ := List.forall_mem_cons.mp hd
      obtain ⟨first', others'⟩ := List.forall_mem_cons.mp he
      rw [List.map_cons, List.map_cons, List.cons_lt_cons_iff, List.cons_lt_cons_iff,
        h.lt_iff d first e first', h.eq_iff first first', ih others others']

/-- Texts of one width are in the order of the numbers that they write. -/
theorem bytes_lt_bytes_iff (h : Ascending base symbol) {width m n : Nat}
    (positive : 0 < base) (hm : m < base ^ width) (hn : n < base ^ width) :
    Key.bytes (String.ofList ((digits base width m).map symbol)) <
      Key.bytes (String.ofList ((digits base width n).map symbol)) ↔ m < n := by
  have below := digits_lt positive width m
  have below' := digits_lt positive width n
  have same : (digits base width m).length = (digits base width n).length := by simp
  rw [Key.bytes_digits positive h.ascii, Key.bytes_digits positive h.ascii,
    h.map_lt_map_iff below below', ← value_lt_value_iff same below below', value_digits,
    value_digits]
  change m % base ^ width < n % base ^ width ↔ m < n
  rw [Nat.mod_eq_of_lt hm, Nat.mod_eq_of_lt hn]

end Ascending
end Numeral
namespace Key

theorem numeric_lt_numeric_iff (a b : Stamp) : numeric a < numeric b ↔ a < b := by
  change decide (a ≤ b) = true ∧ ¬ decide (b ≤ a) = true ↔ a < b
  rw [decide_eq_true_iff, decide_eq_true_iff]
  change a.word ≤ b.word ∧ ¬ b.word ≤ a.word ↔ a.word < b.word
  rw [UInt64.not_le]
  exact and_iff_right_of_imp UInt64.le_of_lt

theorem text_lt_text_iff (a b : String) : text a < text b ↔ bytes a < bytes b := by
  change decide (bytes a ≤ bytes b) = true ∧ ¬ decide (bytes b ≤ bytes a) = true ↔ _
  rw [decide_eq_true_iff, decide_eq_true_iff, List.not_le]
  exact and_iff_right_of_imp List.le_of_lt

theorem le_total (a b : Key) : le a b = true ∨ le b a = true := by
  cases a with
  | numeric a =>
    cases b with
    | numeric b =>
      exact (UInt64.le_total a.word b.word).imp (fun h => decide_eq_true h) fun h => decide_eq_true h
    | text b => exact Or.inl rfl
  | text a =>
    cases b with
    | numeric b => exact Or.inr rfl
    | text b =>
      exact (List.le_total (bytes a) (bytes b)).imp (fun h => decide_eq_true h) fun h =>
        decide_eq_true h

theorem le_trans (a b c : Key) (first : le a b = true) (second : le b c = true) :
    le a c = true := by
  cases b with
  | numeric b =>
    -- before a number stands nothing but a number
    cases a with
    | text a => cases first
    | numeric a =>
      cases c with
      | text c => rfl
      | numeric c =>
        exact decide_eq_true (UInt64.le_trans (of_decide_eq_true first) (of_decide_eq_true second))
  | text b =>
    cases c with
    | numeric c => cases second
    | text c =>
      cases a with
      | numeric a => rfl
      | text a =>
        exact decide_eq_true (List.le_trans (of_decide_eq_true first) (of_decide_eq_true second))

theorem le_antisymm {a b : Key} (first : le a b = true) (second : le b a = true) : a = b := by
  cases a with
  | numeric a =>
    cases b with
    | text b => cases second
    | numeric b =>
      have words := UInt64.le_antisymm (of_decide_eq_true first) (of_decide_eq_true second)
      exact congrArg numeric (congrArg Stamp.mk words)
  | text a =>
    cases b with
    | numeric b => cases first
    | text b =>
      have same := List.le_antisymm (of_decide_eq_true first) (of_decide_eq_true second)
      exact congrArg text (bytes_inj.mp same)

/-- Sorting gives the only arrangement of the keys in which they ascend. -/
theorem sort_eq_of_perm {keys sorted : List Key} (perm : sorted.Perm keys)
    (ascending : sorted.Pairwise fun a b => le a b = true) : sort keys = sorted := by
  have total (a b : Key) : (le a b || le b a) = true := by simpa using le_total a b
  have ordered : (sort keys).Pairwise fun a b => le a b = true :=
    List.pairwise_mergeSort le_trans total keys
  exact List.Perm.eq_of_pairwise (fun _ _ _ _ => le_antisymm) ordered ascending
    ((List.mergeSort_perm keys le).trans perm.symm)

end Key
namespace Layout

theorem lt_iff_decode_lt {l : Layout} {a b : Stamp} (ha : l.isValid a = true)
    (hb : l.isValid b = true) : a < b ↔ l.decode a < l.decode b := by
  have fields := value_lt_value_iff (l.decode_fits a) (l.decode_fits b)
  rw [value_decode, value_decode, Nat.mod_eq_of_lt ((l.isValid_iff a).mp ha),
    Nat.mod_eq_of_lt ((l.isValid_iff b).mp hb)] at fields
  exact UInt64.lt_iff_toNat_lt.trans fields

/-- The text that a valid stamp is written as. -/
def keyText (l : Layout) (s : Stamp) : String :=
  Numeral.radix62 l.keyWidth s.word.toNat

theorem encodeKey_eq_keyText {l : Layout} {s : Stamp} (valid : l.isValid s = true) :
    l.encodeKey s = .ok (l.keyText s) :=
  (l.encodeKey_eq_ok_iff s _).mpr ⟨valid, rfl⟩

/-- Stamps of a layout are in the order of their texts. -/
theorem bytes_keyText_lt_iff {l : Layout} {a b : Stamp} (ha : l.isValid a = true)
    (hb : l.isValid b = true) :
    Key.bytes (l.keyText a) < Key.bytes (l.keyText b) ↔ a < b :=
  (Numeral.ascending_symbol.bytes_lt_bytes_iff (by decide) (lt_pow_keyWidth_of_isValid ha)
    (lt_pow_keyWidth_of_isValid hb)).trans UInt64.lt_iff_toNat_lt.symm

theorem mapM_encodeKey_eq_ok_iff (l : Layout) (ids : List Stamp) (texts : List String) :
    ids.mapM l.encodeKey = .ok texts ↔
      (∀ x ∈ ids, l.isValid x = true) ∧ texts = ids.map l.keyText := by
  induction ids generalizing texts with
  | nil =>
    rw [List.mapM_nil]
    constructor
    · intro none
      cases none
      simp
    · rintro ⟨_, rfl⟩
      rfl
  | cons x ids ih =>
    simp only [List.mapM_cons, Fault.bind_eq_ok_iff, ih, encodeKey_eq_ok_iff, List.forall_mem_cons]
    constructor
    · rintro ⟨_, ⟨valid, rfl⟩, _, ⟨others, rfl⟩, done⟩
      cases done
      exact ⟨⟨valid, others⟩, rfl⟩
    · rintro ⟨⟨valid, others⟩, rfl⟩
      exact ⟨_, ⟨valid, rfl⟩, _, ⟨others, rfl⟩, rfl⟩

theorem le_keyText {l : Layout} {a b : Stamp} (ha : l.isValid a = true) (hb : l.isValid b = true)
    (le : a ≤ b) : Key.le (.text (l.keyText a)) (.text (l.keyText b)) = true := by
  rw [Key.le, decide_eq_true_iff, ← List.not_lt, bytes_keyText_lt_iff hb ha]
  exact UInt64.not_lt.mpr le

/-- For every layout the order of its stamps is the order of their fields, of their texts byte by
byte, and of their keys in either form, so sorting the text keys of any stamps gives the texts of
the sorted stamps. Every word has a padded form of twenty bytes, and padded forms are in the order
of their words, whether or not these are valid. -/
theorem orders_agree (l : Layout) :
    (∀ a b, l.isValid a = true → l.isValid b = true →
      ∃ ka kb, l.encodeKey a = .ok ka ∧ l.encodeKey b = .ok kb ∧
        (a < b ↔ l.decode a < l.decode b) ∧ (a < b ↔ Key.bytes ka < Key.bytes kb) ∧
        (a < b ↔ Key.text ka < Key.text kb) ∧ (a < b ↔ Key.numeric a < Key.numeric b)) ∧
    (∀ (ids ascending : List Stamp) (texts : List String),
      ids.mapM l.encodeKey = .ok texts → ascending.Perm ids → ascending.Pairwise (· ≤ ·) →
        ∃ sorted, ascending.mapM l.encodeKey = .ok sorted ∧
          Key.sort (texts.map .text) = sorted.map .text ∧
          Key.sort (ids.map .numeric) = ascending.map .numeric) ∧
    ∀ a b : Stamp, a.padded.utf8ByteSize = 20 ∧
      (a < b ↔ Key.bytes a.padded < Key.bytes b.padded) := by
  refine ⟨?_, ?_, ?_⟩
  · intro a b ha hb
    refine ⟨_, _, encodeKey_eq_keyText ha, encodeKey_eq_keyText hb, lt_iff_decode_lt ha hb, ?_, ?_,
      ?_⟩
    · exact (bytes_keyText_lt_iff ha hb).symm
    · rw [Key.text_lt_text_iff, bytes_keyText_lt_iff ha hb]
    · rw [Key.numeric_lt_numeric_iff]
  · intro ids ascending texts written perm increase
    obtain ⟨valid, rfl⟩ := (l.mapM_encodeKey_eq_ok_iff ids texts).mp written
    have each : ∀ x ∈ ascending, l.isValid x = true := fun x hx => valid x (perm.mem_iff.mp hx)
    refine ⟨_, (l.mapM_encodeKey_eq_ok_iff ascending _).mpr ⟨each, rfl⟩, ?_, ?_⟩
    · apply Key.sort_eq_of_perm
      · exact (perm.map _).map _
      · rw [List.map_map, List.pairwise_map]
        exact increase.imp_of_mem fun ha hb => le_keyText (each _ ha) (each _ hb)
    · apply Key.sort_eq_of_perm
      · exact perm.map _
      · rw [List.pairwise_map]
        exact increase.imp fun le => decide_eq_true le
  · intro a b
    constructor
    · rw [← Key.length_bytes, Stamp.padded, Numeral.decimal,
        Key.bytes_digits (by decide) Numeral.ascending_hexSymbol.ascii, List.length_map,
        Numeral.length_digits]
    · have room (s : Stamp) : s.word.toNat < 10 ^ 20 :=
        Nat.lt_trans s.word.toNat_lt (by decide)
      exact UInt64.lt_iff_toNat_lt.trans
        (Numeral.ascending_hexSymbol.bytes_lt_bytes_iff (by decide) (room a) (room b)).symm

/-- Stamps on both sides of where the digits give way to upper case, and upper case to lower. -/
theorem orders_agree_across_letters :
    Key.sort [.text "0000000000a", .text "00000000009", .text "0000000000Z", .text "0000000000A"] =
        [.text "00000000009", .text "0000000000A", .text "0000000000Z", .text "0000000000a"] ∧
      Key.text "0000000000Z" < Key.text "0000000000a" ∧
      Key.bytes (⟨9⟩ : Stamp).padded < Key.bytes (⟨0xFFFFFFFFFFFFFFFF⟩ : Stamp).padded := by
  obtain ⟨pairs, lists, words⟩ := orders_agree standard
  obtain ⟨_, _, written, written', _, _, keys, _⟩ := pairs ⟨35⟩ ⟨36⟩ rfl rfl
  obtain rfl := Except.ok.inj written
  obtain rfl := Except.ok.inj written'
  obtain ⟨_, coded, sorted, _⟩ := lists [⟨36⟩, ⟨9⟩, ⟨35⟩, ⟨10⟩] [⟨9⟩, ⟨10⟩, ⟨35⟩, ⟨36⟩] _ rfl
    (by decide) (by decide)
  obtain rfl := Except.ok.inj coded
  exact ⟨sorted, keys.mp (by decide), (words _ _).2.mp (by decide)⟩

end Layout
end Tickstamp
