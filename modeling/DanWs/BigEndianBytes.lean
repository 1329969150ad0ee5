import Mathlib.Data.Nat.Basic
import Mathlib.Tactic.Ring

namespace DanWs.BigEndianBytes

/-- The number a byte string denotes, most significant byte first. -/
def ofBytes (bytes : List UInt8) : Nat :=
  bytes.foldl (fun value byte => value * 256 + byte.toNat) 0

/-- The last `width` base-256 digits of a number, most significant first. -/
def toBytes : Nat → Nat → List UInt8
  | 0, _ => []
  | width + 1, value => UInt8.ofNat (value / 256 ^ width) :: toBytes width value

@[simp] theorem toBytes_length (width value : Nat) :
    (toBytes width value).length = width := by
  induction width with
  | zero => rfl
  | succ width ih => simp [toBytes, ih]

theorem foldl_bytes_eq (bytes : List UInt8) (start : Nat) :
    bytes.foldl (fun value byte => value * 256 + byte.toNat) start =
      start * 256 ^ bytes.length + ofBytes bytes := by
  induction bytes generalizing start with
  | nil => simp [ofBytes]
  | cons byte bytes ih =>
      have hhead := ih (start * 256 + byte.toNat)
      have hzero := ih byte.toNat
      simp only [List.foldl_cons, List.length_cons, ofBytes, Nat.zero_mul, Nat.zero_add] at *
      rw [hhead, hzero, pow_succ]
      ring

theorem ofBytes_cons (byte : UInt8) (bytes : List UInt8) :
    ofBytes (byte :: bytes) = byte.toNat * 256 ^ bytes.length + ofBytes bytes := by
  rw [ofBytes, List.foldl_cons, Nat.zero_mul, Nat.zero_add, foldl_bytes_eq]

theorem ofBytes_lt (bytes : List UInt8) : ofBytes bytes < 256 ^ bytes.length := by
  induction bytes with
  | nil => simp [ofBytes]
  | cons byte bytes ih =>
      have hbyte : byte.toNat < 256 := byte.toNat_lt
      calc
        ofBytes (byte :: bytes) =
            byte.toNat * 256 ^ bytes.length + ofBytes bytes := ofBytes_cons byte bytes
        _ < byte.toNat * 256 ^ bytes.length + 256 ^ bytes.length := by omega
        _ = (byte.toNat + 1) * 256 ^ bytes.length := by ring
        _ ≤ 256 * 256 ^ bytes.length := Nat.mul_le_mul_right _ hbyte
        _ = 256 ^ (byte :: bytes).length := by simp [pow_succ, Nat.mul_comm]

theorem ofBytes_toBytes (width value : Nat) :
    ofBytes (toBytes width value) = value % 256 ^ width := by
  induction width with
  | zero => simp [toBytes, ofBytes, Nat.mod_one]
  | succ width ih =>
      have hdigit : (UInt8.ofNat (value / 256 ^ width)).toNat = value / 256 ^ width % 256 := by
        simp [UInt8.toNat_ofNat']
      rw [toBytes, ofBytes_cons, ih, hdigit, toBytes_length, pow_succ, Nat.mod_mul]
      ring

theorem toBytes_ofBytes_add (bytes : List UInt8) (high : Nat) :
    toBytes bytes.length (high * 256 ^ bytes.length + ofBytes bytes) = bytes := by
  induction bytes generalizing high with
  | nil => rfl
  | cons byte bytes ih =>
      have hpos : 0 < 256 ^ bytes.length := Nat.pow_pos (by decide)
      have hsplit : high * 256 ^ (byte :: bytes).length + ofBytes (byte :: bytes) =
          (high * 256 + byte.toNat) * 256 ^ bytes.length + ofBytes bytes := by
        rw [ofBytes_cons, List.length_cons, pow_succ]
        ring
      have hdiv : ((high * 256 + byte.toNat) * 256 ^ bytes.length + ofBytes bytes) /
          256 ^ bytes.length = high * 256 + byte.toNat := by
        rw [Nat.mul_comm, Nat.mul_add_div hpos, Nat.div_eq_of_lt (ofBytes_lt bytes),
          Nat.add_zero]
      have hbyte : UInt8.ofNat (high * 256 + byte.toNat) = byte := by
        apply UInt8.toNat_inj.mp
        have := byte.toNat_lt
        simp only [UInt8.toNat_ofNat']
        omega
      rw [hsplit, List.length_cons, toBytes, hdiv, hbyte, ih]

theorem toBytes_ofBytes (bytes : List UInt8) :
    toBytes bytes.length (ofBytes bytes) = bytes := by
  simpa using toBytes_ofBytes_add bytes 0

/-- Appending a byte by shifting and masking, as accumulation loops do. -/
theorem shiftLeft_or_byte (value : Nat) (byte : UInt8) :
    value <<< 8 ||| byte.toNat = value * 256 + byte.toNat := by
  rw [← Nat.shiftLeft_add_eq_or_of_lt byte.toNat_lt, Nat.shiftLeft_eq]

end DanWs.BigEndianBytes
