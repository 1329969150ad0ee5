import DanWs.BigEndianBytes
import DanWs.Leb128
import DanWs.WireTypes

namespace DanWs.ScalarBytes

open DanWs.BigEndianBytes
open DanWs.WireTypes

def byteAt (data : List UInt8) (i : Nat) : UInt8 := data.getD i 0

def writeBE16 (v : UInt16) : List UInt8 :=
  [((v >>> 8) &&& 0xFF).toUInt8, (v &&& 0xFF).toUInt8]

def writeBE32 (v : UInt32) : List UInt8 :=
  [((v >>> 24) &&& 0xFF).toUInt8, ((v >>> 16) &&& 0xFF).toUInt8,
   ((v >>> 8) &&& 0xFF).toUInt8, (v &&& 0xFF).toUInt8]

def writeBE64 (v : UInt64) : List UInt8 :=
  [7, 6, 5, 4, 3, 2, 1, 0].map fun i : UInt64 => ((v >>> (i * 8)) &&& 0xFF).toUInt8

def readBE16 (data : List UInt8) : UInt16 :=
  ((byteAt data 0).toUInt16 <<< 8) ||| (byteAt data 1).toUInt16

def readBE32 (data : List UInt8) : UInt32 :=
  ((byteAt data 0).toUInt32 <<< 24) ||| ((byteAt data 1).toUInt32 <<< 16) |||
    ((byteAt data 2).toUInt32 <<< 8) ||| (byteAt data 3).toUInt32

def readBE64 (data : List UInt8) : UInt64 :=
  [0, 1, 2, 3, 4, 5, 6, 7].foldl
    (fun result i => (result <<< 8) ||| (byteAt data i).toUInt64) 0

theorem writeBE16_eq (v : UInt16) : writeBE16 v = toBytes 2 v.toNat := by
  simp only [writeBE16, toBytes, List.cons.injEq, and_true]
  constructor <;> apply UInt8.toNat_inj.mp <;>
    simp [UInt8.toNat_ofNat', Nat.shiftRight_eq_div_pow, Nat.and_two_pow_sub_one_eq_mod _ 8]

theorem writeBE32_eq (v : UInt32) : writeBE32 v = toBytes 4 v.toNat := by
  simp only [writeBE32, toBytes, List.cons.injEq, and_true]
  refine ⟨?_, ?_, ?_, ?_⟩ <;> apply UInt8.toNat_inj.mp <;>
    simp [UInt8.toNat_ofNat', Nat.shiftRight_eq_div_pow, Nat.and_two_pow_sub_one_eq_mod _ 8]

theorem writeBE64_eq (v : UInt64) : writeBE64 v = toBytes 8 v.toNat := by
  simp only [writeBE64, toBytes, List.map_cons, List.map_nil, List.cons.injEq, and_true]
  refine ⟨?_, ?_, ?_, ?_, ?_, ?_, ?_, ?_⟩ <;> apply UInt8.toNat_inj.mp <;>
    simp [UInt8.toNat_ofNat', Nat.shiftRight_eq_div_pow, Nat.and_two_pow_sub_one_eq_mod _ 8]

theorem readBE16_toNat {data : List UInt8} (h : data.length = 2) :
    (readBE16 data).toNat = ofBytes data := by
  obtain ⟨a, b, rfl⟩ := List.length_eq_two.mp h
  have ha := a.toNat_lt
  simp only [readBE16, byteAt, List.getD_cons_zero, List.getD_cons_succ, UInt16.toNat_or,
    UInt16.toNat_shiftLeft, UInt8.toNat_toUInt16, UInt16.reduceToNat, Nat.reduceMod]
  rw [Nat.mod_eq_of_lt (by rw [Nat.shiftLeft_eq]; omega), shiftLeft_or_byte]
  simp [ofBytes]

theorem readBE32_toNat {data : List UInt8} (h : data.length = 4) :
    (readBE32 data).toNat = ofBytes data := by
  obtain ⟨a, b, c, d, rfl⟩ : ∃ a b c d, data = [a, b, c, d] := by
    match data, h with
    | [a, b, c, d], _ => exact ⟨a, b, c, d, rfl⟩
  have ha := a.toNat_lt
  have hb := b.toNat_lt
  have hc := c.toNat_lt
  have hd := d.toNat_lt
  have hcd : c.toNat <<< 8 ||| d.toNat = c.toNat * 256 + d.toNat := shiftLeft_or_byte _ d
  have hbcd : b.toNat <<< 16 ||| (c.toNat * 256 + d.toNat) =
      b.toNat * 65536 + (c.toNat * 256 + d.toNat) := by
    rw [← Nat.shiftLeft_add_eq_or_of_lt (by omega), Nat.shiftLeft_eq]
  have habcd : a.toNat <<< 24 ||| (b.toNat * 65536 + (c.toNat * 256 + d.toNat)) =
      a.toNat * 16777216 + (b.toNat * 65536 + (c.toNat * 256 + d.toNat)) := by
    rw [← Nat.shiftLeft_add_eq_or_of_lt (by omega), Nat.shiftLeft_eq]
  have hshift : ∀ (x : UInt8) (k : Nat), k ≤ 24 → x.toNat <<< k % 2 ^ 32 = x.toNat <<< k := by
    intro x k hk
    apply Nat.mod_eq_of_lt
    rw [Nat.shiftLeft_eq]
    calc
      x.toNat * 2 ^ k ≤ x.toNat * 2 ^ 24 :=
        Nat.mul_le_mul_left _ (Nat.pow_le_pow_right (by decide) hk)
      _ < 2 ^ 32 := by have := x.toNat_lt; omega
  simp only [readBE32, byteAt, List.getD_cons_zero, List.getD_cons_succ, UInt32.toNat_or,
    UInt32.toNat_shiftLeft, UInt8.toNat_toUInt32, UInt32.reduceToNat, Nat.reduceMod]
  rw [hshift a 24 (by decide), hshift b 16 (by decide), hshift c 8 (by decide),
    Nat.or_assoc, Nat.or_assoc, hcd, hbcd, habcd]
  simp only [ofBytes, List.foldl_cons, List.foldl_nil]
  omega

theorem foldl_shift_or_toNat (data : List UInt8) (start : UInt64) :
    (data.foldl (fun (result : UInt64) byte => (result <<< 8) ||| byte.toUInt64) start).toNat =
      (start.toNat * 256 ^ data.length + ofBytes data) % 2 ^ 64 := by
  induction data generalizing start with
  | nil => simp [ofBytes, Nat.mod_eq_of_lt start.toNat_lt]
  | cons byte data ih =>
      have hstep : ((start <<< 8) ||| byte.toUInt64).toNat =
          (start.toNat * 256 + byte.toNat) % 2 ^ 64 := by
        have hbyte : byte.toNat < 2 ^ 64 := Nat.lt_trans byte.toNat_lt (by decide)
        rw [← shiftLeft_or_byte, Nat.or_mod_two_pow, Nat.mod_eq_of_lt hbyte]
        simp
      rw [List.foldl_cons, ih, hstep, ofBytes_cons, List.length_cons, pow_succ]
      conv_lhs => rw [Nat.add_mod, Nat.mod_mul_mod, ← Nat.add_mod]
      congr 1
      ring

theorem readBE64_toNat {data : List UInt8} (h : data.length = 8) :
    (readBE64 data).toNat = ofBytes data := by
  have hfold : readBE64 data =
      data.foldl (fun (result : UInt64) byte => (result <<< 8) ||| byte.toUInt64) 0 := by
    match data, h with
    | [_, _, _, _, _, _, _, _], _ => rfl
  have hlt := ofBytes_lt data
  rw [h] at hlt
  rw [hfold, foldl_shift_or_toNat]
  simpa using hlt

@[simp] theorem readBE16_writeBE16 (v : UInt16) : readBE16 (writeBE16 v) = v := by
  apply UInt16.toNat_inj.mp
  rw [writeBE16_eq, readBE16_toNat (toBytes_length 2 _), ofBytes_toBytes]
  exact Nat.mod_eq_of_lt v.toNat_lt

@[simp] theorem readBE32_writeBE32 (v : UInt32) : readBE32 (writeBE32 v) = v := by
  apply UInt32.toNat_inj.mp
  rw [writeBE32_eq, readBE32_toNat (toBytes_length 4 _), ofBytes_toBytes]
  exact Nat.mod_eq_of_lt v.toNat_lt

@[simp] theorem readBE64_writeBE64 (v : UInt64) : readBE64 (writeBE64 v) = v := by
  apply UInt64.toNat_inj.mp
  rw [writeBE64_eq, readBE64_toNat (toBytes_length 8 _), ofBytes_toBytes]
  exact Nat.mod_eq_of_lt v.toNat_lt

theorem writeBE16_readBE16 {data : List UInt8} (h : data.length = 2) :
    writeBE16 (readBE16 data) = data := by
  rw [writeBE16_eq, readBE16_toNat h, ← h, toBytes_ofBytes]

theorem writeBE32_readBE32 {data : List UInt8} (h : data.length = 4) :
    writeBE32 (readBE32 data) = data := by
  rw [writeBE32_eq, readBE32_toNat h, ← h, toBytes_ofBytes]

theorem writeBE64_readBE64 {data : List UInt8} (h : data.length = 8) :
    writeBE64 (readBE64 data) = data := by
  rw [writeBE64_eq, readBE64_toNat h, ← h, toBytes_ofBytes]

@[simp] theorem writeBE16_length (v : UInt16) : (writeBE16 v).length = 2 := rfl
@[simp] theorem writeBE32_length (v : UInt32) : (writeBE32 v).length = 4 := rfl
@[simp] theorem writeBE64_length (v : UInt64) : (writeBE64 v).length = 8 := rfl

/-- The loop of `encodeVarInt` over a positive value. -/
def encodeVarIntLoop (value : UInt64) : List UInt8 :=
  if 0 < value then
    let byte := (value &&& 0x7F).toUInt8
    let rest := value >>> 7
    (if 0 < rest then byte ||| 0x80 else byte) :: encodeVarIntLoop rest
  else []
termination_by value.toNat
decreasing_by
  simp only [UInt64.lt_iff_toNat_lt, UInt64.toNat_zero] at *
  simp only [UInt64.toNat_shiftRight, UInt64.reduceToNat, Nat.shiftRight_eq_div_pow,
    Nat.reduceMod, Nat.reducePow]
  omega

def encodeVarInt (value : UInt64) : List UInt8 :=
  if value = 0 then [0] else encodeVarIntLoop value

/-- The loop of `decodeVarInt` over the bytes from `offset` on: the value and
the offset behind the last byte read. -/
def decodeVarIntLoop (value multiplier : UInt64) (offset : Nat) :
    List UInt8 → UInt64 × Nat
  | [] => (value, offset)
  | byte :: rest =>
      let value := value + (byte &&& 0x7F).toUInt64 * multiplier
      if byte &&& 0x80 = 0 then (value, offset + 1)
      else decodeVarIntLoop value (multiplier * 128) (offset + 1) rest

def decodeVarInt (data : List UInt8) (offset : Nat) : UInt64 × Nat :=
  decodeVarIntLoop 0 1 offset (data.drop offset)

theorem byte_high_bit (byte : UInt8) : byte &&& 0x80 = 0 ↔ byte.toNat < 128 := by
  have hall : ∀ b : BitVec 8, b &&& 0x80#8 = 0#8 ↔ b.toNat < 128 := by decide
  rw [← UInt8.toBitVec_inj]
  exact hall byte.toBitVec

theorem byte_or_high_bit {byte : UInt8} (h : byte.toNat < 128) :
    (byte ||| 0x80).toNat = byte.toNat + 128 := by
  have hall : ∀ b : BitVec 8, b.toNat < 128 → (b ||| 0x80#8).toNat = b.toNat + 128 := by
    decide
  exact hall byte.toBitVec h

theorem low_group_toNat (value : UInt64) :
    ((value &&& 0x7F).toUInt8).toNat = value.toNat % 128 := by
  simp only [UInt64.toNat_toUInt8, UInt64.toNat_and, UInt64.reduceToNat,
    Nat.and_two_pow_sub_one_eq_mod _ 7]
  omega

theorem shiftRight_group_toNat (value : UInt64) : (value >>> 7).toNat = value.toNat / 128 := by
  simp only [UInt64.toNat_shiftRight, UInt64.reduceToNat, Nat.shiftRight_eq_div_pow,
    Nat.reduceMod, Nat.reducePow]

theorem encodeVarIntLoop_zero : encodeVarIntLoop 0 = [] := by
  rw [encodeVarIntLoop, if_neg (by decide)]

theorem encodeVarIntLoop_eq {value : UInt64} (h : value ≠ 0) :
    encodeVarIntLoop value = Leb128.encode value.toNat := by
  induction hn : value.toNat using Nat.strongRecOn generalizing value with
  | ind n ih =>
      subst hn
      have hpos : 0 < value := UInt64.pos_iff_ne_zero.mpr h
      have hrest := shiftRight_group_toNat value
      rw [encodeVarIntLoop, if_pos hpos]
      dsimp only
      rcases Nat.lt_or_ge value.toNat 128 with hlast | hmore
      · have hzero : value >>> 7 = 0 := by
          apply UInt64.toNat_inj.mp
          rw [hrest, Nat.div_eq_of_lt hlast]
          rfl
        rw [hzero, encodeVarIntLoop_zero, if_neg (by decide), Leb128.encode_of_lt hlast]
        congr 1
        apply UInt8.toNat_inj.mp
        rw [low_group_toNat, UInt8.toNat_ofNat']
        omega
      · have hne : value >>> 7 ≠ 0 := by
          intro hzero
          rw [hzero] at hrest
          simp only [UInt64.toNat_zero] at hrest
          omega
        have hsmall : ((value &&& 0x7F).toUInt8).toNat < 128 := by
          rw [low_group_toNat]
          exact Nat.mod_lt _ (by decide)
        rw [if_pos (UInt64.pos_iff_ne_zero.mpr hne), Leb128.encode_of_le (by omega)]
        congr 1
        · apply UInt8.toNat_inj.mp
          rw [byte_or_high_bit hsmall, low_group_toNat, UInt8.toNat_ofNat']
          omega
        · rw [← hrest]
          exact ih _ (by omega) hne rfl

theorem encodeVarInt_eq (value : UInt64) : encodeVarInt value = Leb128.encode value.toNat := by
  rw [encodeVarInt]
  split
  · next h =>
      subst h
      rw [Leb128.encode_of_lt (by decide)]
      rfl
  · next h => exact encodeVarIntLoop_eq h

theorem decodeVarIntLoop_eq (value multiplier : UInt64) (offset : Nat) (data : List UInt8) :
    decodeVarIntLoop value multiplier offset data =
      (value + multiplier * UInt64.ofNat (Leb128.decode data).1,
        offset + (Leb128.decode data).2) := by
  induction data generalizing value multiplier offset with
  | nil => simp [decodeVarIntLoop, Leb128.decode]
  | cons byte rest ih =>
      have hgroup : (byte &&& 0x7F).toUInt64 = UInt64.ofNat (byte.toNat % 128) := by
        apply UInt64.toNat_inj.mp
        have := byte.toNat_lt
        simp only [UInt8.toNat_toUInt64, UInt8.toNat_and, UInt8.reduceToNat,
          Nat.and_two_pow_sub_one_eq_mod _ 7, UInt64.toNat_ofNat']
        omega
      rw [decodeVarIntLoop, Leb128.decode]
      simp only [byte_high_bit, hgroup]
      split
      · next hlast =>
          rw [Nat.mod_eq_of_lt hlast]
          simp [UInt64.mul_comm]
      · rw [ih]
        simp only [Prod.mk.injEq]
        refine ⟨?_, by omega⟩
        rw [UInt64.ofNat_add, UInt64.ofNat_mul]
        change _ = value + multiplier * (UInt64.ofNat (byte.toNat % 128) + 128 * _)
        grind

theorem decodeVarInt_encodeVarInt (value : UInt64) (trailing : List UInt8) :
    decodeVarInt (encodeVarInt value ++ trailing) 0 = (value, (encodeVarInt value).length) := by
  rw [decodeVarInt, List.drop_zero, decodeVarIntLoop_eq, encodeVarInt_eq,
    Leb128.decode_encode_append]
  simp

end DanWs.ScalarBytes
