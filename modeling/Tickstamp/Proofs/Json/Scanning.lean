import Mathlib.Data.List.Basic
import Tickstamp.Json.Tree
import Tickstamp.Proofs.Json.Number
import Tickstamp.Proofs.Numeral

/-!
# What is written is cut into the same tokens

A text that spells some tokens is cut into these tokens. Blanks may stand before
and after each of them, and every character of a string may be written in any of
its forms. A string ends at its own quote, because every quote in its content is
escaped; a name or a number ends where a character follows that belongs to
neither. Strings that no content can be given to are spelled in one way only.
-/

namespace Tickstamp.Json
namespace Token

/-- A text before which a name or a number ends. -/
def Ends (rest : List Char) : Prop :=
  ∀ c ∈ rest.head?, isWordChar c = false

theorem ends_nil : Ends [] := by
  rintro _ ⟨⟩

theorem ends_cons {c : Char} {rest : List Char} (h : isWordChar c = false) : Ends (c :: rest) := by
  rintro _ ⟨⟩
  exact h

/-! ## Names and numbers -/

theorem start_of_isWordChar {c : Char} (h : isWordChar c = true) :
    start c = (none, some (.word [c])) := by
  have other (d : Char) (hd : isWordChar d = false) : c ≠ d := by
    rintro rfl
    rw [h] at hd
    cases hd
  have blank : isBlank c = false := by
    have space := other ' ' (by decide)
    have line := other '\n' (by decide)
    have tab := other '\t' (by decide)
    have feed := other '\r' (by decide)
    simp [isBlank, space, line, tab, feed]
  have openObject := other '{' (by decide)
  have closeObject := other '}' (by decide)
  have openArray := other '[' (by decide)
  have closeArray := other ']' (by decide)
  have colon := other ':' (by decide)
  have comma := other ',' (by decide)
  have quote := other '"' (by decide)
  simp [start, *]

theorem scan_wordRest {read cs rest : List Char} (word : ∀ c ∈ cs, isWordChar c = true)
    (ends : Ends rest) :
    scan (.word read) (cs ++ rest) = ofWord (read.reverse ++ cs) :: scan .between rest := by
  induction cs generalizing read with
  | nil =>
    rw [List.nil_append, List.append_nil]
    cases rest with
    | nil => rfl
    | cons c rest =>
      have foreign : isWordChar c = false := ends c rfl
      simp only [scan, foreign]
      rcases start c with ⟨token, _ | mode⟩ <;> rfl
  | cons c cs ih =>
    have later : ∀ d ∈ cs, isWordChar d = true := fun d hd => word d (List.mem_cons_of_mem c hd)
    simp [scan, word c List.mem_cons_self, ih later]

/-- A name or a number ends before the first character that belongs to neither. -/
theorem scan_word {c : Char} {cs rest : List Char} (word : ∀ d ∈ c :: cs, isWordChar d = true)
    (ends : Ends rest) :
    scan .between (c :: cs ++ rest) = ofWord (c :: cs) :: scan .between rest := by
  have later : ∀ d ∈ cs, isWordChar d = true := fun d hd => word d (List.mem_cons_of_mem c hd)
  simp [scan, start_of_isWordChar (word c List.mem_cons_self), scan_wordRest later ends]

theorem isWordChar_of_isDigit {c : Char} (digit : c.isDigit = true) : isWordChar c = true := by
  simp [isWordChar, Char.isAlphanum, digit]

theorem ofWord_toDigits (n : Nat) : ofWord (Nat.toDigits 10 n) = .natural n := by
  have noName {c : Char} {cs : List Char} (letter : c.isDigit = false) :
      Nat.toDigits 10 n ≠ c :: cs := by
    intro name
    have digit := NumberParts.digit_of_mem_toDigits n c (by rw [name]; exact List.mem_cons_self)
    rw [letter] at digit
    cases digit
  rw [ofWord, if_neg (noName (by decide)), if_neg (noName (by decide)), if_neg (noName (by decide)),
    NumberParts.read_toDigits]
  simp only [NumberParts.natural?_ofNatural]

/-! ## Strings -/

theorem hexDigit?_hexSymbol {d : Nat} (small : d < 16) :
    hexDigit? (Numeral.hexSymbol d) = some d := by
  revert d
  decide

/-- Four hexadecimal digits, in letters of either case, and the number that they write. -/
def Hex (written : List Char) (n : Nat) : Prop :=
  ∃ a b c d, written.map hexDigit? = [some a, some b, some c, some d] ∧
    n = ((a * 16 + b) * 16 + c) * 16 + d

/-- The escape of a number of 16 bits is read as that number. -/
theorem scan_hex {written : List Char} {n : Nat} (hex : Hex written n) (read : List Piece)
    (rest : List Char) :
    scan (.hex read 0 0) (written ++ rest) = scan (.string (.unit n :: read)) rest := by
  obtain ⟨a, b, c, d, digits, rfl⟩ := hex
  obtain ⟨w, _, rfl, first, digits⟩ := List.map_eq_cons_iff.mp digits
  obtain ⟨x, _, rfl, second, digits⟩ := List.map_eq_cons_iff.mp digits
  obtain ⟨y, _, rfl, third, digits⟩ := List.map_eq_cons_iff.mp digits
  obtain ⟨z, _, rfl, fourth, digits⟩ := List.map_eq_cons_iff.mp digits
  obtain rfl := List.map_eq_nil_iff.mp digits
  simp [scan, first, second, third, fourth]

theorem hex_digits {n : Nat} (small : n < 16 ^ 4) :
    Hex ((Numeral.digits 16 4 n).map Numeral.hexSymbol) n := by
  have digit (m : Nat) : hexDigit? (Numeral.hexSymbol (m % 16)) = some (m % 16) :=
    hexDigit?_hexSymbol (Nat.mod_lt m (by decide))
  refine ⟨n / 16 / 16 / 16 % 16, n / 16 / 16 % 16, n / 16 % 16, n % 16, ?_, by omega⟩
  simp [Numeral.digits, digit]

/-- What may stand between the quotes of a string with this content: a character stands for itself
unless it is a quote, a backslash or a control character, and all have escapes, those of more than
16 bits as two halves. -/
inductive Escaped : (content written : List Char) → Prop where
  | nil : Escaped [] []
  | plain {c : Char} {content written : List Char} (quote : c ≠ '"') (backslash : c ≠ '\\')
      (visible : 32 ≤ c.toNat) (rest : Escaped content written) :
      Escaped (c :: content) (c :: written)
  | short {name c : Char} {content written : List Char} (known : escaped? name = some c)
      (rest : Escaped content written) : Escaped (c :: content) ('\\' :: name :: written)
  | unit {digits content written : List Char} {u : Nat} (hex : Hex digits u)
      (high : Piece.isHigh u = false) (low : Piece.isLow u = false)
      (rest : Escaped content written) :
      Escaped (Char.ofNat u :: content) ('\\' :: 'u' :: (digits ++ written))
  | pair {digits digits' content written : List Char} {u v : Nat} (hex : Hex digits u)
      (hex' : Hex digits' v) (high : Piece.isHigh u = true) (low : Piece.isLow v = true)
      (rest : Escaped content written) :
      Escaped (Char.ofNat (0x10000 + (u - 0xD800) * 0x400 + (v - 0xDC00)) :: content)
        ('\\' :: 'u' :: (digits ++ '\\' :: 'u' :: (digits' ++ written)))

/-- However the content of a string is written, it is read as it was. -/
theorem exists_pieces {content written : List Char} (escaped : Escaped content written) :
    ∃ pieces, (∀ read rest, scan (.string read) (written ++ rest) =
      scan (.string (pieces.reverse ++ read)) rest) ∧ Piece.assemble pieces = some content := by
  induction escaped with
  | nil => exact ⟨[], fun _ _ => rfl, rfl⟩
  | plain quote backslash visible _ ih =>
    obtain ⟨pieces, scanned, assembled⟩ := ih
    refine ⟨.char _ :: pieces, ?_, by rw [Piece.assemble, assembled]; rfl⟩
    intro read rest
    simp [scan, quote, backslash, Nat.not_lt.mpr visible, scanned]
  | short known _ ih =>
    obtain ⟨pieces, scanned, assembled⟩ := ih
    refine ⟨.char _ :: pieces, ?_, by rw [Piece.assemble, assembled]; rfl⟩
    intro read rest
    simp [scan, known, scanned]
  | @unit _ _ _ u hex high low _ ih =>
    obtain ⟨pieces, scanned, assembled⟩ := ih
    refine ⟨.unit u :: pieces, ?_, ?_⟩
    · intro read rest
      simp [scan, escaped?, scan_hex hex, scanned]
    · rw [Piece.assemble.eq_def]
      simp [high, low, assembled]
  | @pair _ _ _ _ u v hex hex' high low _ ih =>
    obtain ⟨pieces, scanned, assembled⟩ := ih
    refine ⟨.unit u :: .unit v :: pieces, ?_, ?_⟩
    · intro read rest
      simp [scan, escaped?, scan_hex hex, scan_hex hex', scanned]
    · rw [Piece.assemble.eq_def]
      simp [high, low, assembled]

/-- The compact spelling of a character is one of its forms. -/
theorem escaped_quoteChar (c : Char) {content written : List Char}
    (rest : Escaped content written) : Escaped (c :: content) (quoteChar c ++ written) := by
  by_cases short : c ∈ ['"', '\\', '\x08', '\x0c', '\n', '\r', '\t']
  · simp only [List.mem_cons, List.not_mem_nil, or_false] at short
    rcases short with rfl | rfl | rfl | rfl | rfl | rfl | rfl <;> exact .short rfl rest
  · simp only [List.mem_cons, List.not_mem_nil, or_false, not_or] at short
    obtain ⟨quote, backslash, back, page, line, feed, tab⟩ := short
    by_cases control : c.toNat < 32
    · have high : Piece.isHigh c.toNat = false := by simp [Piece.isHigh]; omega
      have low : Piece.isLow c.toNat = false := by simp [Piece.isLow]; omega
      have escape := Escaped.unit (hex_digits (show c.toNat < 16 ^ 4 by omega)) high low rest
      have form : quoteChar c =
          ['\\', 'u'] ++ (Numeral.digits 16 4 c.toNat).map Numeral.hexSymbol := by
        simp [quoteChar, *]
      rw [Char.ofNat_toNat] at escape
      rw [form]
      exact escape
    · simpa [quoteChar, *] using Escaped.plain quote backslash (Nat.le_of_not_lt control) rest

theorem escaped_flatMap_quoteChar (content : List Char) :
    Escaped content (content.flatMap quoteChar) := by
  induction content with
  | nil => exact .nil
  | cons c content ih =>
    rw [List.flatMap_cons]
    exact escaped_quoteChar c ih

theorem scan_quoted {content written : List Char} (escaped : Escaped content written)
    (rest : List Char) : scan .between ('"' :: written ++ '"' :: rest) =
      .text (some (String.ofList content)) :: scan .between rest := by
  obtain ⟨pieces, scanned, assembled⟩ := exists_pieces escaped
  have opened : scan .between ('"' :: written ++ '"' :: rest) =
      scan (.string []) (written ++ '"' :: rest) := by
    simp [scan, start]
  rw [opened, scanned]
  simp [scan, assembled]

/-! ## Tokens -/

/-- A token that is a name or a number. -/
def isWord : Token → Bool
  | .null | .bool _ | .natural _ | .decimal _ => true
  | _ => false

/-- A token that can be written. -/
def Plain : Token → Prop
  | .decimal written => ofWord written = .decimal written ∧ ∀ c ∈ written, isWordChar c = true
  | .bad => False
  | _ => True

/-- A token is read from its spelling. -/
theorem scan_chars {token : Token} (plain : token.Plain) {rest : List Char}
    (ends : token.isWord = true → Ends rest) :
    scan .between (token.chars ++ rest) = token :: scan .between rest := by
  -- the spellings of names and numbers have a first character
  have word {c : Char} {cs : List Char} (written : token.chars = c :: cs)
      (all : ∀ d ∈ c :: cs, isWordChar d = true) (value : ofWord (c :: cs) = token)
      (isWord : token.isWord = true) :
      scan .between (token.chars ++ rest) = token :: scan .between rest := by
    rw [written, scan_word all (ends isWord), value]
  cases token with
  | openObject | closeObject | openArray | closeArray | colon | comma => rfl
  | null => exact word rfl (List.all_eq_true.mp rfl) rfl rfl
  | bool b => cases b <;> exact word rfl (List.all_eq_true.mp rfl) rfl rfl
  | natural n =>
    cases digits : Nat.toDigits 10 n with
    | nil => exact absurd digits Nat.toDigits_ne_nil
    | cons c cs =>
      refine word digits ?_ ?_ rfl
      · intro d member
        rw [← digits] at member
        exact isWordChar_of_isDigit (NumberParts.digit_of_mem_toDigits n d member)
      · rw [← digits]
        exact ofWord_toDigits n
  | decimal written =>
    cases written with
    | nil => cases plain.1
    | cons c cs => exact word rfl plain.2 plain.1 rfl
  | text content =>
    cases content with
    | some content =>
      have quoted := scan_quoted (escaped_flatMap_quoteChar content.toList) rest
      rw [String.ofList_toList] at quoted
      simpa [chars] using quoted
    | none => rfl
  | bad => exact plain.elim

/-! ## Texts -/

/-- A token as it may be written: in its own characters, or as a string in any of its forms. -/
inductive Written : Token → List Char → Prop where
  | chars {token : Token} (plain : token.Plain) : Written token token.chars
  | text {content : String} {written : List Char} (escaped : Escaped content.toList written) :
      Written (.text (some content)) ('"' :: written ++ ['"'])

/-- A text that spells some tokens. Blanks may stand before each of them and after the last, and
they have to where a name or a number does not end otherwise. -/
inductive Spelling : List Token → List Char → Prop where
  | nil {blanks : List Char} (blank : ∀ c ∈ blanks, isBlank c = true) : Spelling [] blanks
  | cons {token : Token} {later : List Token} {blanks written rest : List Char}
      (blank : ∀ c ∈ blanks, isBlank c = true) (first : token.Written written)
      (ends : token.isWord = true → Ends rest) (others : Spelling later rest) :
      Spelling (token :: later) (blanks ++ (written ++ rest))

theorem scan_written {token : Token} {written rest : List Char} (first : token.Written written)
    (ends : token.isWord = true → Ends rest) :
    scan .between (written ++ rest) = token :: scan .between rest := by
  cases first with
  | chars plain => exact scan_chars plain ends
  | @text content written escaped =>
    have quoted := scan_quoted escaped rest
    rw [String.ofList_toList] at quoted
    simpa using quoted

theorem scan_blanks {blanks : List Char} (blank : ∀ c ∈ blanks, isBlank c = true)
    (rest : List Char) : scan .between (blanks ++ rest) = scan .between rest := by
  induction blanks with
  | nil => rfl
  | cons c blanks ih =>
    obtain ⟨first, others⟩ := List.forall_mem_cons.mp blank
    have skipped : start c = (none, some .between) := by
      simp only [isBlank, Bool.or_eq_true, beq_iff_eq] at first
      rcases first with ((rfl | rfl) | rfl) | rfl <;> rfl
    simp [scan, skipped, ih others]

/-- A text is cut into the tokens that it spells. -/
theorem scan_spelling {tokens : List Token} {text : List Char} (spelling : Spelling tokens text) :
    scan .between text = tokens := by
  induction spelling with
  | nil blank =>
    have skipped := scan_blanks blank []
    rwa [List.append_nil] at skipped
  | cons blank first ends _ ih => rw [scan_blanks blank, scan_written first ends, ih]

end Token
end Tickstamp.Json
