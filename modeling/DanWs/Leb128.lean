import Mathlib.Data.Nat.Basic
import Mathlib.Tactic.Ring

namespace DanWs.Leb128

def encode (value : Nat) : List UInt8 :=
  if value < 128 then [UInt8.ofNat value]
  else UInt8.ofNat (value % 128 + 128) :: encode (value / 128)

/-- The value of the leading groups and the number of bytes they take. A
missing last group ends the value. -/
def decode : List UInt8 → Nat × Nat
  | [] => (0, 0)
  | byte :: rest =>
      if byte.toNat < 128 then (byte.toNat, 1)
      else (byte.toNat % 128 + 128 * (decode rest).1, (decode rest).2 + 1)

theorem encode_of_lt {value : Nat} (h : value < 128) : encode value = [UInt8.ofNat value] := by
  rw [encode, if_pos h]

theorem encode_of_le {value : Nat} (h : 128 ≤ value) :
    encode value = UInt8.ofNat (value % 128 + 128) :: encode (value / 128) := by
  rw [encode, if_neg (by omega)]

theorem decode_encode_append (value : Nat) (trailing : List UInt8) :
    decode (encode value ++ trailing) = (value, (encode value).length) := by
  induction value using Nat.strongRecOn with
  | ind value ih =>
      rcases lt_or_ge value 128 with hlast | hmore
      · have hbyte : (UInt8.ofNat value).toNat = value := by
          simp only [UInt8.toNat_ofNat']
          omega
        rw [encode_of_lt hlast, List.singleton_append, decode, hbyte, if_pos hlast]
        rfl
      · have hbyte : (UInt8.ofNat (value % 128 + 128)).toNat = value % 128 + 128 := by
          simp only [UInt8.toNat_ofNat']
          omega
        have hrest := ih (value / 128) (by omega)
        rw [encode_of_le hmore, List.cons_append, decode, hbyte, if_neg (by omega), hrest]
        simp only [Prod.mk.injEq, List.length_cons, and_true]
        omega

/-- The top bit stands on every byte but the last, and the last group adds to the
value unless it is the only one. -/
def IsMinimal : List UInt8 → Prop
  | [] => False
  | [last] => last.toNat < 128
  | byte :: next :: rest => 128 ≤ byte.toNat ∧ next :: rest ≠ [0] ∧ IsMinimal (next :: rest)

theorem isMinimal_cons {byte : UInt8} {rest : List UInt8} (h : rest ≠ []) :
    IsMinimal (byte :: rest) ↔ 128 ≤ byte.toNat ∧ rest ≠ [0] ∧ IsMinimal rest := by
  cases rest with
  | nil => exact absurd rfl h
  | cons next rest => rw [IsMinimal]

theorem encode_ne_nil (value : Nat) : encode value ≠ [] := by
  rw [encode]
  split <;> simp

theorem encode_ne_zero {value : Nat} (h : 0 < value) : encode value ≠ [0] := by
  intro heq
  have hvalue := decode_encode_append value []
  rw [heq] at hvalue
  have hzero : value = 0 := (Prod.mk.inj hvalue).1.symm
  omega

theorem isMinimal_encode (value : Nat) : IsMinimal (encode value) := by
  induction value using Nat.strongRecOn with
  | ind value ih =>
      rcases lt_or_ge value 128 with hlast | hmore
      · rw [encode_of_lt hlast, IsMinimal, UInt8.toNat_ofNat']
        omega
      · rw [encode_of_le hmore, isMinimal_cons (encode_ne_nil _), UInt8.toNat_ofNat']
        exact ⟨by omega, encode_ne_zero (by omega), ih _ (by omega)⟩

theorem decode_pos {data : List UInt8} (h : IsMinimal data) (hne : data ≠ [0]) :
    0 < (decode data).1 := by
  induction data with
  | nil => exact h.elim
  | cons byte rest ih =>
      rw [decode]
      rcases rest with - | ⟨next, rest⟩
      · have hbyte : byte.toNat ≠ 0 := by
          intro hzero
          exact hne (congrArg (fun byte => [byte]) (UInt8.toNat_inj.mp hzero))
        rw [if_pos (by exact h)]
        exact Nat.pos_of_ne_zero hbyte
      · obtain ⟨hbyte, hrest, hminimal⟩ := h
        have hpos := ih hminimal hrest
        rw [if_neg (by omega)]
        dsimp only
        omega

theorem encode_decode {data : List UInt8} (h : IsMinimal data) : encode (decode data).1 = data := by
  induction data with
  | nil => exact h.elim
  | cons byte rest ih =>
      have hbyte := byte.toNat_lt
      rw [decode]
      rcases rest with - | ⟨next, rest⟩
      · have hlast : byte.toNat < 128 := h
        rw [if_pos hlast, encode_of_lt hlast]
        simp
      · obtain ⟨hmore, hne, hminimal⟩ := h
        have hpos := decode_pos hminimal hne
        rw [if_neg (by omega)]
        dsimp only
        rw [encode_of_le (by omega)]
        have hgroup : (byte.toNat % 128 + 128 * (decode (next :: rest)).1) % 128 + 128 =
            byte.toNat := by omega
        have hquotient : (byte.toNat % 128 + 128 * (decode (next :: rest)).1) / 128 =
            (decode (next :: rest)).1 := by omega
        rw [hgroup, hquotient, ih hminimal, UInt8.ofNat_toNat]

theorem encode_eq_iff {value : Nat} {data : List UInt8} :
    encode value = data ↔ IsMinimal data ∧ (decode data).1 = value := by
  constructor
  · rintro rfl
    have hvalue := decode_encode_append value []
    rw [List.append_nil] at hvalue
    exact ⟨isMinimal_encode value, congrArg Prod.fst hvalue⟩
  · rintro ⟨hminimal, rfl⟩
    exact encode_decode hminimal

end DanWs.Leb128
