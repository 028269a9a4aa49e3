import Tickstamp.Proofs.Verdict
import Tickstamp.Proofs.Issuer.Origins

/-!
# Validation is what reading needs

The last timestamp of a layout belongs to a stamp, and no stamp has a later one.
So all stamps can be read exactly if that timestamp has a moment, which is what
is checked when settings are validated. Without that check a valid stamp is refused
only if the moment of its own timestamp is too large. Nothing is said of settings
that are refused for another reason than their epoch.
-/

namespace Tickstamp

namespace Config

variable {c : Config}

theorem originOf_of_not_isValid {s : Stamp} (invalid : c.layout.isValid s = false) :
    c.originOf s = .error (.fieldTooLarge .timestamp
      (s.word >>> UInt64.ofNat c.layout.timestampShift) c.layout.maxTimestamp) := by
  simp [originOf, Layout.validate, invalid, bind, Except.bind]

theorem originOf_of_beyond {s : Stamp} (valid : c.layout.isValid s = true)
    (beyond : UInt64.size ≤ c.epoch.toNat + (c.layout.decode s).timestamp.toNat) :
    c.originOf s = .error (.misconfigured
      (.epochOverflow c.epoch (c.layout.decode s).timestamp)) := by
  simp [originOf, Layout.validate, valid, moment, Nat.not_lt.mpr beyond, bind, Except.bind]

theorem exists_originOf {s : Stamp} (valid : c.layout.isValid s = true)
    (within : c.epoch.toNat + (c.layout.decode s).timestamp.toNat < UInt64.size) :
    ∃ origin, c.originOf s = .ok origin := by
  have moment : c.moment (c.layout.decode s).timestamp =
      .ok (c.epoch + (c.layout.decode s).timestamp) := if_pos within
  exact ⟨⟨_, _, _⟩, (c.originOf_eq_ok_iff s _).mpr ⟨valid, moment, rfl, rfl⟩⟩

theorem exists_last (l : Layout) :
    ∃ s, l.isValid s = true ∧ (l.decode s).timestamp = l.maxTimestamp := by
  have fits : l.Fits ⟨l.maxTimestamp, 0, 0⟩ :=
    ⟨UInt64.le_refl _, UInt64.zero_le, UInt64.zero_le⟩
  have coded := (l.encode_eq_ok_iff _ _).mpr ⟨fits, rfl⟩
  exact ⟨_, Layout.isValid_of_encode coded, by rw [Layout.decode_pack fits]⟩

/-- All stamps of a layout can be read exactly if the last timestamp has a moment. -/
theorem forall_readable_iff (c : Config) :
    (∀ s, c.layout.isValid s = true → ∃ origin, c.originOf s = .ok origin) ↔
      c.epoch.toNat + c.layout.maxTimestamp.toNat < UInt64.size := by
  constructor
  · intro readable
    obtain ⟨s, valid, last⟩ := exists_last c.layout
    obtain ⟨origin, read⟩ := readable s valid
    have sum := (c.moment_eq_ok_iff ..).mp ((c.originOf_eq_ok_iff ..).mp read).2.1
    rw [last] at sum
    rw [← sum]
    exact origin.unixMillis.toNat_lt_size
  · intro room s valid
    have le := UInt64.le_iff_toNat_le.mp (c.layout.decode_fits s).timestamp
    exact exists_originOf valid (by omega)

/-- Validation complains of an overflow exactly if the last timestamp has no moment; an epoch of
zero is refused before, but leaves room for every timestamp. -/
theorem validate_ne_epochOverflow_iff (c : Config) :
    (∀ epoch timestamp, c.validate ≠ .error (.misconfigured (.epochOverflow epoch timestamp))) ↔
      c.epoch.toNat + c.layout.maxTimestamp.toNat < UInt64.size := by
  rw [validate_eq]
  by_cases zero : c.epoch = 0
  · have bound := c.layout.maxTimestamp.toNat_lt_size
    rw [if_pos zero, zero, UInt64.toNat_zero, Nat.zero_add]
    constructor
    · intro _
      exact bound
    · rintro _ _ _ ⟨⟩
  · by_cases room : c.epoch.toNat + c.layout.maxTimestamp.toNat < UInt64.size
    · rw [if_neg zero, if_pos room]
      constructor
      · intro _
        exact room
      · intro _ epoch timestamp refused
        cases policy : c.carryOver with
        | never | half =>
          rw [policy] at refused
          cases refused
        | upTo threshold =>
          rw [policy, CarryOver.validate] at refused
          split at refused <;> cases refused
    · rw [if_neg zero, if_neg room]
      constructor
      · intro never
        exact absurd rfl (never _ _)
      · intro enough
        exact absurd enough room

/-- What a stamp is refused for when it is read. -/
inductive Unreadable (c : Config) (s : Stamp) : Fault → Prop where
  | bits {value max : UInt64} (invalid : c.layout.isValid s = false) :
      Unreadable c s (.fieldTooLarge .timestamp value max)
  | moment (valid : c.layout.isValid s = true)
      (beyond : UInt64.size ≤ c.epoch.toNat + (c.layout.decode s).timestamp.toNat) :
      Unreadable c s (.misconfigured (.epochOverflow c.epoch (c.layout.decode s).timestamp))

theorem unreadable_of_originOf {s : Stamp} {fault : Fault} (refused : c.originOf s = .error fault) :
    c.Unreadable s fault := by
  cases valid : c.layout.isValid s with
  | false =>
    rw [originOf_of_not_isValid valid] at refused
    cases refused
    exact .bits valid
  | true =>
    by_cases within : c.epoch.toNat + (c.layout.decode s).timestamp.toNat < UInt64.size
    · obtain ⟨origin, read⟩ := exists_originOf valid within
      rw [read] at refused
      cases refused
    · rw [originOf_of_beyond valid (Nat.le_of_not_lt within)] at refused
      cases refused
      exact .moment valid (Nat.le_of_not_lt within)

theorem exists_originOf_of_validate (accepted : c.validate = .ok ()) {s : Stamp}
    (valid : c.layout.isValid s = true) : ∃ origin, c.originOf s = .ok origin :=
  (forall_readable_iff c).mpr (c.validate_eq_ok_iff.mp accepted).2.1 s valid

end Config
namespace Issuer

theorem not_isValid_of_decode {k : Issuer} (accepted : k.config.validate = .ok ()) {s : Stamp}
    {fault : Fault} (refused : k.decode s = .error fault) : k.config.layout.isValid s = false := by
  cases valid : k.config.layout.isValid s with
  | false => rfl
  | true =>
    obtain ⟨origin, read⟩ := Config.exists_originOf_of_validate accepted valid
    rw [decode, read] at refused
    cases refused

theorem malformed_of_decodeText {k : Issuer} (accepted : k.config.validate = .ok ())
    {text : String} {fault : Fault} (refused : k.decodeText text = .error fault) :
    ∃ cause, fault = .malformedKey cause := by
  rw [decodeText] at refused
  cases read : k.config.layout.decodeKey text with
  | error reason =>
    rw [read] at refused
    cases refused
    exact Layout.malformed_of_decodeKey read
  | ok s =>
    have written := (k.config.layout.decodeKey_eq_ok_iff text s).mp read
    have valid := ((k.config.layout.encodeKey_eq_ok_iff s text).mp written).1
    obtain ⟨origin, found⟩ := Config.exists_originOf_of_validate accepted valid
    rw [read] at refused
    change k.config.originOf s = .error fault at refused
    rw [found] at refused
    cases refused

end Issuer
namespace Config

/-- Whatever the settings, all stamps of the layout can be read exactly if the last timestamp has a
moment, which is what validation checks. A word is refused for its bits exactly if it has some above
the layout, and else for the settings exactly if its own timestamp has no moment, and never for
anything else. Stamps that can be read are in the order of what is read from them, and no two
are read alike. So an issuer, which has valid settings, refuses no stamp for these, in whichever
state it is, and texts only for being malformed. -/
theorem validation_decides_reading (c : Config) :
    let bits := c.layout.timestampBits + c.layout.machineBits + c.layout.sequenceBits
    let fits := c.epoch.toNat + c.layout.maxTimestamp.toNat ≤ 2 ^ 64 - 1
    ((∀ s, c.layout.isValid s = true → ∃ origin, c.originOf s = .ok origin) ↔ fits) ∧
    (fits ↔ ∃ last, c.moment c.layout.maxTimestamp = .ok last) ∧
    (fits ↔ ∀ epoch timestamp,
      c.validate ≠ .error (.misconfigured (.epochOverflow epoch timestamp))) ∧
    (∀ s, (∃ field value max, c.originOf s = .error (.fieldTooLarge field value max)) ↔
      2 ^ bits ≤ s.word.toNat) ∧
    (∀ s, s.word.toNat < 2 ^ bits →
      ((∃ cause, c.originOf s = .error (.misconfigured cause)) ↔
        2 ^ 64 - 1 < c.epoch.toNat + (c.layout.decode s).timestamp.toNat)) ∧
    (∀ s fault, c.originOf s = .error fault →
      (∃ field value max, fault = .fieldTooLarge field value max) ∨
        ∃ cause, fault = .misconfigured cause) ∧
    (∀ s s' origin origin', c.originOf s = .ok origin → c.originOf s' = .ok origin' →
      (s < s' ↔ origin < origin') ∧ (origin = origin' → s = s')) ∧
    ∀ k, Issuer.ofConfig c = .ok k → ∀ happenings k', k.Reaches happenings k' →
      (∀ s cause, k'.decode s ≠ .error (.misconfigured cause)) ∧
      ∀ text fault, k'.decodeText text = .error fault → ∃ cause, fault = .malformedKey cause := by
  intro bits fits
  have room : fits ↔ c.epoch.toNat + c.layout.maxTimestamp.toNat < UInt64.size := by
    change _ ≤ 2 ^ 64 - 1 ↔ _ < 2 ^ 64
    omega
  have above (s : Stamp) : c.layout.isValid s = false ↔ 2 ^ bits ≤ s.word.toNat := by
    rw [← Bool.not_eq_true, c.layout.isValid_iff s, Nat.not_lt]
    rfl
  refine ⟨?_, ?_, ?_, ?_, ?_, ?_, ?_, ?_⟩
  · rw [room]
    exact forall_readable_iff c
  · rw [room]
    constructor
    · intro last
      exact ⟨_, if_pos last⟩
    · rintro ⟨last, found⟩
      rw [← (c.moment_eq_ok_iff ..).mp found]
      exact last.toNat_lt_size
  · rw [room]
    exact (validate_ne_epochOverflow_iff c).symm
  · intro s
    rw [← above]
    constructor
    · rintro ⟨_, _, _, refused⟩
      cases unreadable_of_originOf refused with
      | bits invalid => exact invalid
    · intro invalid
      exact ⟨_, _, _, originOf_of_not_isValid invalid⟩
  · intro s below
    have valid := (c.layout.isValid_iff s).mpr below
    constructor
    · rintro ⟨_, refused⟩
      cases unreadable_of_originOf refused with
      | moment _ beyond => exact Nat.lt_of_succ_le beyond
    · intro beyond
      exact ⟨_, originOf_of_beyond valid (Nat.succ_le_of_lt beyond)⟩
  · intro s fault refused
    cases unreadable_of_originOf refused with
    | bits _ => exact Or.inl ⟨_, _, _, rfl⟩
    | moment _ _ => exact Or.inr ⟨_, rfl⟩
  · intro s s' origin origin' read read'
    refine ⟨lt_iff_of_originOf read read', ?_⟩
    rintro rfl
    exact originOf_injective read read'
  · intro k made happenings k' course
    obtain ⟨lawful, _, _⟩ := Issuer.lawful_of_ofConfig made
    have accepted := (Issuer.leads_of_reaches lawful course).lawful.valid
    constructor
    · intro s cause refused
      have invalid := Issuer.not_isValid_of_decode accepted refused
      cases unreadable_of_originOf refused with
      | moment valid _ =>
        rw [invalid] at valid
        cases valid
    · intro text fault refused
      exact Issuer.malformed_of_decodeText accepted refused

/-- The largest epoch that leaves room for the standard layout, and the next one, under which the
last stamp alone cannot be read. -/
theorem validation_decides_reading_at_last_epoch :
    ({ epoch := 0xFFFFFE0000000000 } : Config).validate = .ok () ∧
      (∃ origin, ({ epoch := 0xFFFFFE0000000000 } : Config).originOf ⟨0x7FFFFFFFFFFFFFFF⟩ =
        .ok origin) ∧
      (∃ cause, ({ epoch := 0xFFFFFE0000000001 } : Config).originOf ⟨0x7FFFFFFFFFFFFFFF⟩ =
        .error (.misconfigured cause)) ∧
      ∃ origin, ({ epoch := 0xFFFFFE0000000001 } : Config).originOf ⟨0x7FFFFFFFFFBFFFFF⟩ =
        .ok origin := by
  obtain ⟨readable, _⟩ := validation_decides_reading { epoch := 0xFFFFFE0000000000 }
  obtain ⟨_, _, _, _, beyond, _⟩ := validation_decides_reading { epoch := 0xFFFFFE0000000001 }
  refine ⟨rfl, readable.mpr (by decide) _ rfl, ?_, _, rfl⟩
  exact (beyond ⟨0x7FFFFFFFFFFFFFFF⟩ (by decide)).mpr (by decide)

end Config
end Tickstamp
