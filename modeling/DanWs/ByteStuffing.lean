import Mathlib.Data.List.Basic

/-!
Byte stuffing over an arbitrary alphabet: every occurrence of an escape symbol
is doubled, so that the escape symbol followed by anything else can delimit.
-/

namespace DanWs.ByteStuffing

variable {α : Type*} [DecidableEq α]

def stuff (esc : α) : List α → List α
  | [] => []
  | x :: xs => if x = esc then esc :: esc :: stuff esc xs else x :: stuff esc xs

/-- Keep the symbol behind every `esc` and drop that `esc`. -/
def unstuff (esc : α) : List α → List α
  | [] => []
  | [x] => if x = esc then [] else [x]
  | x :: y :: rest => if x = esc then y :: unstuff esc rest else x :: unstuff esc (y :: rest)

@[simp] theorem stuff_nil (esc : α) : stuff esc [] = [] := rfl

@[simp] theorem stuff_cons_esc (esc : α) (xs : List α) :
    stuff esc (esc :: xs) = esc :: esc :: stuff esc xs := by
  simp [stuff]

theorem stuff_cons_of_ne {esc x : α} (h : x ≠ esc) (xs : List α) :
    stuff esc (x :: xs) = x :: stuff esc xs := by
  simp [stuff, h]

theorem stuff_eq_self {esc : α} {xs : List α} (h : esc ∉ xs) : stuff esc xs = xs := by
  induction xs with
  | nil => rfl
  | cons x xs ih =>
      rw [List.mem_cons, not_or] at h
      obtain ⟨hx, hxs⟩ := h
      rw [stuff_cons_of_ne (Ne.symm hx), ih hxs]

theorem stuff_append (esc : α) (xs ys : List α) :
    stuff esc (xs ++ ys) = stuff esc xs ++ stuff esc ys := by
  induction xs with
  | nil => rfl
  | cons x xs ih =>
      rcases eq_or_ne x esc with rfl | hx
      · rw [List.cons_append, stuff_cons_esc, stuff_cons_esc, ih]
        rfl
      · rw [List.cons_append, stuff_cons_of_ne hx, stuff_cons_of_ne hx, ih]
        rfl

theorem unstuff_cons_of_ne {esc x : α} (h : x ≠ esc) (xs : List α) :
    unstuff esc (x :: xs) = x :: unstuff esc xs := by
  cases xs with
  | nil => simp [unstuff, h]
  | cons y rest => simp [unstuff, h]

theorem unstuff_eq_self {esc : α} {xs : List α} (h : esc ∉ xs) : unstuff esc xs = xs := by
  induction xs with
  | nil => rfl
  | cons x xs ih =>
      rw [List.mem_cons, not_or] at h
      obtain ⟨hx, hxs⟩ := h
      rw [unstuff_cons_of_ne (Ne.symm hx), ih hxs]

theorem unstuff_stuff (esc : α) (xs : List α) : unstuff esc (stuff esc xs) = xs := by
  induction xs with
  | nil => rfl
  | cons x xs ih =>
      rcases eq_or_ne x esc with rfl | hx
      · rw [stuff_cons_esc, unstuff, if_pos rfl, ih]
      · rw [stuff_cons_of_ne hx, unstuff_cons_of_ne hx, ih]

end DanWs.ByteStuffing
