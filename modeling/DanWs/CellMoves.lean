import DanWs.FiniteMaps

/-!
Moves of values between cells of a store that are found by their number, one
after the other and in place. A move loses nothing as long as it comes before
every move onto its source.
-/

namespace DanWs.CellMoves

open DanWs.FiniteMaps

/-- Moves towards lower numbers go upwards. -/
theorem pairwise_down (distance count : ℕ) :
    (List.range count).Pairwise fun i j => i ≠ j + distance ∧ i ≠ j :=
  List.pairwise_lt_range.imp fun h => ⟨by omega, by omega⟩

/-- Moves towards higher numbers go downwards. -/
theorem pairwise_up (distance count : ℕ) :
    (List.range count).reverse.Pairwise fun i j =>
      i + distance ≠ j ∧ i + distance ≠ j + distance :=
  List.pairwise_reverse.mpr (List.pairwise_lt_range.imp fun h => ⟨by omega, by omega⟩)

variable {κ ν : Type*} [DecidableEq κ] (cell : ℕ → Option κ)

/-- A value is moved if both cells are there and the source holds one. -/
def move (store : FiniteMap κ ν) (source target : ℕ) : FiniteMap κ ν :=
  match cell source, cell target with
  | some src, some dst =>
      match store.lookup src with
      | some value => store.insert dst value
      | none => store
  | _, _ => store

def moveAll (source target : ℕ → ℕ) (indices : List ℕ) (store : FiniteMap κ ν) : FiniteMap κ ν :=
  indices.foldl (fun store i => move cell store (source i) (target i)) store

def valueAt (store : FiniteMap κ ν) (number : ℕ) : Option ν := (cell number).bind store.lookup

variable {cell} {source target : ℕ → ℕ} {indices : List ℕ} {store : FiniteMap κ ν}

theorem lookup_move_of_ne {s t : ℕ} {key : κ} (h : cell t ≠ some key) :
    (move cell store s t).lookup key = store.lookup key := by
  rw [move]
  split
  · next src dst hsrc hdst =>
      split
      · rw [lookup_insert_eq_ite, if_neg]
        rintro rfl
        exact h hdst
      · rfl
  · rfl

theorem valueAt_move {s t : ℕ} {value : ν} (htarget : (cell t).isSome)
    (hsource : valueAt cell store s = some value) :
    valueAt cell (move cell store s t) t = some value := by
  obtain ⟨dst, hdst⟩ := Option.isSome_iff_exists.mp htarget
  obtain ⟨src, hsrc, hvalue⟩ := Option.bind_eq_some_iff.mp hsource
  rw [valueAt, move, hsrc, hdst]
  dsimp only
  rw [hvalue, Option.bind_some, lookup_insert_eq_ite, if_pos rfl]

theorem lookup_moveAll_of_ne {key : κ} (h : ∀ i ∈ indices, cell (target i) ≠ some key) :
    (moveAll cell source target indices store).lookup key = store.lookup key := by
  induction indices generalizing store with
  | nil => rfl
  | cons i indices ih =>
      rw [moveAll, List.foldl_cons]
      have hrest : (moveAll cell source target indices
          (move cell store (source i) (target i))).lookup key = _ :=
        ih fun j hj => h j (List.mem_cons_of_mem i hj)
      exact hrest.trans (lookup_move_of_ne (h i List.mem_cons_self))

section Injective

variable (hcell : ∀ i j key, cell i = some key → cell j = some key → i = j)
include hcell

theorem valueAt_move_of_ne {s t number : ℕ} (h : number ≠ t) :
    valueAt cell (move cell store s t) number = valueAt cell store number := by
  cases hnumber : cell number with
  | none => rw [valueAt, valueAt, hnumber, Option.bind_none, Option.bind_none]
  | some key =>
      rw [valueAt, valueAt, hnumber, Option.bind_some, Option.bind_some]
      exact lookup_move_of_ne fun ht => h (hcell number t key hnumber ht)

theorem valueAt_moveAll_of_ne {number : ℕ} (h : ∀ i ∈ indices, number ≠ target i) :
    valueAt cell (moveAll cell source target indices store) number =
      valueAt cell store number := by
  cases hnumber : cell number with
  | none => rw [valueAt, valueAt, hnumber, Option.bind_none, Option.bind_none]
  | some key =>
      rw [valueAt, valueAt, hnumber, Option.bind_some, Option.bind_some]
      exact lookup_moveAll_of_ne fun i hi ht => h i hi (hcell number _ key hnumber ht)

/-- Moves none of which comes behind one onto its own source or target take every
value from where it was at first. -/
theorem valueAt_moveAll
    (horder : indices.Pairwise fun i j => target i ≠ source j ∧ target i ≠ target j)
    (hstored : ∀ i ∈ indices, (valueAt cell store (source i)).isSome) {i : ℕ} (hi : i ∈ indices)
    (htarget : (cell (target i)).isSome) :
    valueAt cell (moveAll cell source target indices store) (target i) =
      valueAt cell store (source i) := by
  induction indices generalizing store with
  | nil => cases hi
  | cons first indices ih =>
      obtain ⟨hfirst, hrest⟩ := List.pairwise_cons.mp horder
      have hkept : ∀ j ∈ indices,
          valueAt cell (move cell store (source first) (target first)) (source j) =
            valueAt cell store (source j) :=
        fun j hj => valueAt_move_of_ne hcell (Ne.symm (hfirst j hj).1)
      rw [moveAll, List.foldl_cons]
      rcases List.mem_cons.mp hi with rfl | hi
      · obtain ⟨value, hvalue⟩ :=
          Option.isSome_iff_exists.mp (hstored i List.mem_cons_self)
        have hafter : valueAt cell (moveAll cell source target indices
            (move cell store (source i) (target i))) (target i) = _ :=
          valueAt_moveAll_of_ne hcell fun j hj => (hfirst j hj).2
        rw [hvalue, ← valueAt_move htarget hvalue]
        exact hafter
      · rw [← hkept i hi]
        refine ih hrest (fun j hj => ?_) hi
        rw [hkept j hj]
        exact hstored j (List.mem_cons_of_mem first hj)

end Injective

end DanWs.CellMoves
