import DanWs.NumberReadback
import DanWs.TypedValues

namespace DanWs.ReceivedValues

open DanWs.BinaryFloat
open DanWs.CompactDecimals
open DanWs.CompactForms
open DanWs.CompactReadback
open DanWs.DecimalRendering
open DanWs.FlatStates
open DanWs.NumberReadback
open DanWs.ScalarBytes
open DanWs.Serializer
open DanWs.SerializerRoundTrip
open DanWs.TypedValues
open DanWs.ValueSpacing
open DanWs.VarFloats
open DanWs.WireTypes

/-- `deserialize` behind `serialize`, both under the detected data type. -/
def transmit (value : Payload) : Result Payload := do
  deserialize (detectDataType value) (← serialize (detectDataType value) value)

/-- A number that is printed as one digit with a negative exponent. -/
def PrintedAsDigit : Payload → Prop
  | .float bits =>
      binary32.isFinite bits.toNat ∧ IsDigitBelow 5 (rendered (floatToDouble bits).toNat)
  | .double bits => binary64.isFinite bits.toNat ∧ IsDigitBelow 5 (rendered bits.toNat)
  | .null | .bool _ | .uint8 _ | .uint16 _ | .uint32 _ | .uint64 _ | .int32 _ | .int64 _
  | .string _ | .binary _ => False

/-- A float comes back as a double. -/
def asReceived : Payload → Payload
  | .float bits => .double (floatToDouble bits)
  | value => value

def signedZero (value : UInt64) : UInt64 :=
  UInt64.ofNat (binary64.withSign (binary64.signBit value.toNat) 0)

def zeroOf : Payload → Payload
  | .float bits => .double (signedZero (floatToDouble bits))
  | .double bits => .double (signedZero bits)
  | value => value

section Doubles

variable {value : UInt64} {bytes : List UInt8}

theorem deserializeVarDouble_fallback (value : UInt64) :
    deserializeVarDouble (fallbackFloat64 value) = .ok value := by
  rw [deserializeVarDouble, fallbackFloat64, if_neg (by simp), byteAt, List.getD_cons_zero,
    if_pos rfl, if_neg (by simp), List.drop_succ_cons, List.drop_zero, readBE64_writeBE64]

theorem deserializeVarDouble_compact (hlength : bytes.length ≠ 0)
    (hmarker : byteAt bytes 0 ≠ 0x80) :
    deserializeVarDouble bytes = .ok (deserializeCompact bytes) := by
  rw [deserializeVarDouble, if_neg hlength, if_neg hmarker]

theorem deserializeVarFloat_fallback (value : UInt32) :
    deserializeVarFloat (fallbackFloat32 value) = .ok (floatToDouble value) := by
  rw [deserializeVarFloat, fallbackFloat32, if_neg (by simp), byteAt, List.getD_cons_zero,
    if_pos rfl, if_neg (by simp), List.drop_succ_cons, List.drop_zero, readBE32_writeBE32]

theorem deserializeVarFloat_compact (hlength : bytes.length ≠ 0)
    (hmarker : byteAt bytes 0 ≠ 0x80) :
    deserializeVarFloat bytes = .ok (deserializeCompact bytes) := by
  rw [deserializeVarFloat, if_neg hlength, if_neg hmarker]

def readsAs (value : UInt64) (small : Prop) (read : UInt64) : Prop :=
  (small → read = signedZero value) ∧ (¬ small → read = value)

/-- The compact form, or the fallback behind it, is read as the number. -/
theorem exists_read_compact
    (hzero : ¬ (binary64.isZero value.toNat = true ∧ binary64.signBit value.toNat = true))
    (hfinite : binary64.isFinite value.toNat = true) (hrange : magnitude value.toNat < 2 ^ 64)
    {fallback : List UInt8} {deserializeVar : List UInt8 → Result UInt64}
    (hfallback : deserializeVar fallback = .ok value)
    (hcompact : ∀ bytes : List UInt8, bytes.length ≠ 0 → byteAt bytes 0 ≠ 0x80 →
      deserializeVar bytes = .ok (deserializeCompact bytes)) :
    ∃ bytes read, (compactDouble value.toNat).map (fun compact => compact.getD fallback) =
        .ok bytes ∧ deserializeVar bytes = .ok read ∧
      readsAs value (IsDigitBelow 5 (rendered value.toNat)) read := by
  by_cases hdigit : IsDigitBelow 5 (rendered value.toNat)
  · obtain ⟨bytes, hbytes, -⟩ := compactDouble_of_isDigitBelow hdigit
    obtain ⟨hlength, hmarker, hread⟩ := deserializeCompact_of_isDigitBelow hdigit hbytes
    refine ⟨bytes, deserializeCompact bytes, by rw [hbytes]; rfl,
      hcompact bytes hlength hmarker, ?_⟩
    exact ⟨fun _ => hread, fun hnot => absurd hdigit hnot⟩
  · obtain ⟨compact, hsent, -⟩ := compactDouble_sound hrange hdigit
    cases compact with
    | none =>
        refine ⟨fallback, value, by rw [hsent]; rfl, hfallback, ?_⟩
        exact ⟨fun hsmall => absurd hsmall hdigit, fun _ => rfl⟩
    | some bytes =>
        obtain ⟨hlength, hmarker, hread⟩ := deserializeCompact_eq hzero hfinite hrange hdigit hsent
        refine ⟨bytes, deserializeCompact bytes, by rw [hsent]; rfl,
          hcompact bytes hlength hmarker, ?_⟩
        exact ⟨fun hsmall => absurd hsmall hdigit, fun _ => hread⟩

theorem exists_read_double (h : ¬ ExceedsUInt64 (.double value)) :
    ∃ bytes read, serializeVarDouble value = .ok bytes ∧ deserializeVarDouble bytes = .ok read ∧
      readsAs value (PrintedAsDigit (.double value)) read := by
  have hexact : ∀ hnot : ¬ PrintedAsDigit (.double value),
      readsAs value (PrintedAsDigit (.double value)) value :=
    fun hnot => ⟨fun hsmall => absurd hsmall hnot, fun _ => rfl⟩
  cases hfinite : binary64.isFinite value.toNat with
  | false =>
      refine ⟨fallbackFloat64 value, value, ?_, deserializeVarDouble_fallback value, hexact ?_⟩
      · rw [serializeVarDouble, if_pos (by simp [hfinite])]
      · intro hsmall
        exact Bool.false_ne_true (hfinite.symm.trans hsmall.1)
  | true =>
      by_cases hzero : binary64.isZero value.toNat = true ∧ binary64.signBit value.toNat = true
      · refine ⟨fallbackFloat64 value, value, ?_, deserializeVarDouble_fallback value, hexact ?_⟩
        · rw [serializeVarDouble, if_pos (by simpa using Or.inr hzero)]
        · intro hsmall
          exact Bool.false_ne_true ((not_isZero_of_isDigitBelow hsmall.2).symm.trans hzero.1)
      · have hrange : magnitude value.toNat < 2 ^ 64 :=
          not_le.mp fun hlarge => h ⟨hfinite, hlarge⟩
        obtain ⟨bytes, read, hsent, hread, hreads⟩ := exists_read_compact hzero hfinite hrange
          (deserializeVarDouble_fallback value) fun _ => deserializeVarDouble_compact
        refine ⟨bytes, read, (serializeVarDouble_eq hfinite hzero).trans hsent, hread, ?_⟩
        exact ⟨fun hsmall => hreads.1 hsmall.2,
          fun hnot => hreads.2 fun hdigit => hnot ⟨hfinite, hdigit⟩⟩

end Doubles

section Floats

variable {value : UInt32}

theorem exists_read_float (h : ¬ ExceedsUInt64 (.float value)) :
    ∃ bytes read, serializeVarFloat (floatToDouble value) = .ok bytes ∧
      deserializeVarFloat bytes = .ok read ∧
      readsAs (floatToDouble value) (PrintedAsDigit (.float value)) read := by
  have hfallback := deserializeVarFloat_fallback (doubleToFloat (floatToDouble value))
  rw [floatToDouble_doubleToFloat] at hfallback
  cases hfinite : binary32.isFinite value.toNat with
  | false =>
      refine ⟨_, floatToDouble value, serializeVarFloat_eq_fallback (Or.inl ?_), hfallback, ?_⟩
      · exact isFinite_doubleToFloat (isFinite_floatToDouble hfinite)
      · exact ⟨fun hsmall => absurd (hfinite.symm.trans hsmall.1) Bool.false_ne_true, fun _ => rfl⟩
  | true =>
      have hfinite64 := isFinite_floatToDouble_of_finite hfinite
      have hsign := (fields_floatToDouble hfinite).2.1
      have hsame := doubleToFloat_floatToDouble hfinite
      by_cases hzero : binary32.isZero value.toNat = true ∧ binary32.signBit value.toNat = true
      · refine ⟨_, floatToDouble value, serializeVarFloat_eq_fallback (Or.inr ?_), hfallback, ?_⟩
        · rwa [hsame]
        · refine ⟨fun hsmall => ?_, fun _ => rfl⟩
          have hnot := not_isZero_of_isDigitBelow hsmall.2
          rw [isZero_floatToDouble hfinite, hzero.1] at hnot
          cases hnot
      · have hrange : magnitude (floatToDouble value).toNat < 2 ^ 64 :=
          not_le.mp fun hlarge => h ⟨hfinite, hlarge⟩
        obtain ⟨bytes, read, hsent, hread, hreads⟩ := exists_read_compact
          (by rwa [isZero_floatToDouble hfinite, hsign]) hfinite64 hrange hfallback
          fun _ => deserializeVarFloat_compact
        refine ⟨bytes, read, (serializeVarFloat_eq ?_ ?_).trans hsent, hread, ?_⟩
        · rwa [hsame]
        · rwa [hsame]
        · exact ⟨fun hsmall => hreads.1 hsmall.2,
            fun hnot => hreads.2 fun hdigit => hnot ⟨hfinite, hdigit⟩⟩

end Floats

section Payloads

variable {value : Payload}

theorem transmit_of_serialize {bytes : List UInt8} {read : Payload}
    (hsent : serialize (detectDataType value) value = .ok bytes)
    (hread : deserialize (detectDataType value) bytes = .ok read) :
    transmit value = .ok read := by
  rw [transmit, hsent]
  exact hread

theorem transmit_of_error {fault : Fault}
    (h : serialize (detectDataType value) value = .error fault) :
    transmit value = .error fault := by
  rw [transmit, h]
  rfl

theorem isZero_of_large {bits : ℕ} (h : 2 ^ 64 ≤ magnitude bits) :
    binary64.isZero bits = false := by
  rw [← Bool.not_eq_true, ← value_eq_zero_iff, value_binary64]
  intro hzero
  rw [hzero] at h
  norm_num at h

theorem transmit_of_exceeds (h : ExceedsUInt64 value) :
    transmit value = .error .undefinedBehaviour := by
  cases value with
  | float bits =>
      obtain ⟨hfinite, hlarge⟩ := h
      have hzero := isZero_of_large hlarge
      rw [isZero_floatToDouble hfinite] at hzero
      refine transmit_of_error ((serializeVarFloat_eq ?_ ?_).trans ?_)
      · rwa [doubleToFloat_floatToDouble hfinite]
      · rw [doubleToFloat_floatToDouble hfinite, hzero]
        simp
      · rw [compactDouble_eq_error hlarge.not_gt]
        rfl
  | double bits =>
      obtain ⟨hfinite, hlarge⟩ := h
      refine transmit_of_error ((serializeVarDouble_eq hfinite ?_).trans ?_)
      · rw [isZero_of_large hlarge]
        simp
      · rw [compactDouble_eq_error hlarge.not_gt]
        rfl
  | null | bool | uint8 | uint16 | uint32 | uint64 | int32 | int64 | string | binary =>
      exact h.elim

theorem transmit_of_faithful (h : Faithful (detectDataType value) value) :
    transmit value = .ok value := by
  obtain ⟨bytes, hsent, hread⟩ := deserialize_serialize h
  exact transmit_of_serialize hsent hread

/-- A value is read as it was sent, or as a zero, unless it cannot be sent. -/
theorem transmit_cases (h : ¬ ExceedsUInt64 value) :
    (PrintedAsDigit value → transmit value = .ok (zeroOf value)) ∧
      (¬ PrintedAsDigit value → transmit value = .ok (asReceived value)) := by
  cases value with
  | float bits =>
      obtain ⟨bytes, read, hsent, hread, hsmall, hexact⟩ := exists_read_float h
      have htransmit : transmit (.float bits) = .ok (.double read) :=
        transmit_of_serialize hsent (congrArg (Except.map Payload.double) hread)
      exact ⟨fun hdigit => htransmit.trans (by rw [hsmall hdigit]; rfl),
        fun hdigit => htransmit.trans (by rw [hexact hdigit]; rfl)⟩
  | double bits =>
      obtain ⟨bytes, read, hsent, hread, hsmall, hexact⟩ := exists_read_double h
      have htransmit : transmit (.double bits) = .ok (.double read) :=
        transmit_of_serialize hsent (congrArg (Except.map Payload.double) hread)
      exact ⟨fun hdigit => htransmit.trans (by rw [hsmall hdigit]; rfl),
        fun hdigit => htransmit.trans (by rw [hexact hdigit]; rfl)⟩
  | null | bool | uint8 | uint16 | uint32 | uint64 | int32 | int64 | string | binary =>
      exact ⟨False.elim, fun _ => transmit_of_faithful trivial⟩

theorem isZero_signedZero (value : UInt64) : binary64.isZero (signedZero value).toNat = true := by
  rw [signedZero]
  cases binary64.signBit value.toNat <;> decide

theorem zeroOf_ne (h : PrintedAsDigit value) : zeroOf value ≠ asReceived value := by
  have hne : ∀ bits : UInt64, IsDigitBelow 5 (rendered bits.toNat) →
      Payload.double (signedZero bits) ≠ .double bits := by
    intro bits hdigit heq
    have hzero := isZero_signedZero bits
    rw [Payload.double.inj heq, not_isZero_of_isDigitBelow hdigit] at hzero
    cases hzero
  cases value with
  | float bits => exact hne (floatToDouble bits) h.2
  | double bits => exact hne bits h.2
  | null | bool | uint8 | uint16 | uint32 | uint64 | int32 | int64 | string | binary =>
      exact h.elim

/-- The other side holds the value that was sent, a float as a double and any double
to the last bit, exactly if the number is neither too large for the cast nor printed
as one small digit. -/
theorem transmit_eq_iff (value : Payload) :
    transmit value = .ok (asReceived value) ↔
      ¬ ExceedsUInt64 value ∧ ¬ PrintedAsDigit value := by
  by_cases hexceeds : ExceedsUInt64 value
  · rw [transmit_of_exceeds hexceeds]
    simp [hexceeds]
  · obtain ⟨hsmall, hexact⟩ := transmit_cases hexceeds
    by_cases hdigit : PrintedAsDigit value
    · rw [hsmall hdigit, Except.ok.injEq, iff_false_left (zeroOf_ne hdigit)]
      exact fun hboth => hboth.2 hdigit
    · rw [hexact hdigit]
      simp [hexceeds, hdigit]

end Payloads

end DanWs.ReceivedValues
