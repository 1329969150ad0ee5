import Mathlib.Algebra.Group.Nat.Defs
import Mathlib.Data.Set.Function
import Mathlib.Logic.Function.Basic

/-!
Ids that are handed out one after the other and kept at places. As long as the
numbering does not repeat itself, no two places have the same id.
-/

namespace DanWs.Allocations

section Places

variable {Place Id : Type*}

/-- The places have ids among the first `count` ones, each of them at most once. -/
structure Allocated (number : Nat → Id) (count : Nat) (idAt : Place → Option Id) : Prop where
  taken : ∀ place id, idAt place = some id → ∃ i < count, number i = id
  unique : ∀ place other id, idAt place = some id → idAt other = some id → place = other

variable {number : Nat → Id} {count bound : Nat} {idAt later : Place → Option Id}

theorem allocated_none (number : Nat → Id) (count : Nat) :
    Allocated number count (fun _ : Place => none) := by
  constructor <;> simp

theorem Allocated.shrink (h : Allocated number count idAt)
    (hsub : ∀ place id, later place = some id → idAt place = some id) :
    Allocated number count later where
  taken place id hid := h.taken place id (hsub place id hid)
  unique place other id hid hother :=
    h.unique place other id (hsub place id hid) (hsub other id hother)

theorem Allocated.fresh (h : Allocated number count idAt)
    (hinj : Set.InjOn number {i | i < bound}) (hcount : count < bound) (place : Place) :
    idAt place ≠ some (number count) := by
  intro hid
  obtain ⟨i, hi, hnumber⟩ := h.taken place _ hid
  exact hi.ne (hinj (hi.trans hcount) hcount hnumber)

theorem Allocated.update [DecidableEq Place] (h : Allocated number count idAt)
    (hinj : Set.InjOn number {i | i < bound}) (hcount : count < bound) (place : Place) :
    Allocated number (count + 1) (Function.update idAt place (some (number count))) := by
  have hfresh := h.fresh hinj hcount
  constructor
  · intro other id hid
    rw [Function.update_apply] at hid
    split at hid
    · exact ⟨count, Nat.lt_succ_self count, Option.some.inj hid⟩
    · obtain ⟨i, hi, hnumber⟩ := h.taken other id hid
      exact ⟨i, hi.trans (Nat.lt_succ_self count), hnumber⟩
  · intro first second id hfirst hsecond
    rw [Function.update_apply] at hfirst hsecond
    split at hfirst
    · next heq =>
        split at hsecond
        · next heq' => exact heq.trans heq'.symm
        · exact absurd (hsecond.trans hfirst.symm) (hfresh second)
    · split at hsecond
      · exact absurd (hfirst.trans hsecond.symm) (hfresh first)
      · exact h.unique first second id hfirst hsecond

end Places

/-- The values of a 32-bit counter that wraps around. -/
def counterFrom (start : UInt32) (count : Nat) : UInt32 := start + UInt32.ofNat count

theorem counterFrom_zero (start : UInt32) : counterFrom start 0 = start :=
  UInt32.add_zero start

theorem counterFrom_succ (start : UInt32) (count : Nat) :
    counterFrom start (count + 1) = counterFrom start count + 1 := by
  rw [counterFrom, counterFrom, UInt32.ofNat_add, UInt32.add_assoc]
  rfl

theorem injOn_counterFrom (start : UInt32) :
    Set.InjOn (counterFrom start) {i | i < 2 ^ 32} := by
  intro i hi j hj h
  have hofNat : UInt32.ofNat i = UInt32.ofNat j := (UInt32.add_right_inj start).mp h
  have htoNat := congrArg UInt32.toNat hofNat
  rwa [UInt32.toNat_ofNat_of_lt' hi, UInt32.toNat_ofNat_of_lt' hj] at htoNat

end DanWs.Allocations
