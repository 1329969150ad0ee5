import Mathlib.Data.Finset.Basic
import Mathlib.Logic.Function.Basic

/-!
A table of rows, each with a path, an id and a value, and a replica of it at
the other end of a connection: the names of the ids in both directions, and the
values by id. A replica is told of paths, of values and of dropped ids one at a
time, and mirrors the table as long as no two rows share a path or an id.
-/

namespace DanWs.Replicas

structure Row (Path Id Value : Type*) where
  path : Path
  id : Id
  value : Value
  deriving DecidableEq

structure Replica (Path Id Value : Type*) where
  pathOf : Id → Option Path
  idOf : Path → Option Id
  valueOf : Id → Option Value

section Tables

variable {Path Id Value : Type*}

def UniquePaths (rows : Finset (Row Path Id Value)) : Prop :=
  ∀ row ∈ rows, ∀ other ∈ rows, row.path = other.path → row = other

instance [DecidableEq Path] [DecidableEq Id] [DecidableEq Value]
    (rows : Finset (Row Path Id Value)) : Decidable (UniquePaths rows) :=
  inferInstanceAs
    (Decidable (∀ row ∈ rows, ∀ other ∈ rows, row.path = other.path → row = other))

def UniqueIds (rows : Finset (Row Path Id Value)) : Prop :=
  ∀ row ∈ rows, ∀ other ∈ rows, row.id = other.id → row = other

structure WellKeyed (rows : Finset (Row Path Id Value)) : Prop where
  path : UniquePaths rows
  id : UniqueIds rows

theorem WellKeyed.mono {rows larger : Finset (Row Path Id Value)} (h : WellKeyed larger)
    (hsub : rows ⊆ larger) : WellKeyed rows where
  path row hrow other hother := h.path row (hsub hrow) other (hsub hother)
  id row hrow other hother := h.id row (hsub hrow) other (hsub hother)

/-- The replica knows the paths and ids of these rows and no others. -/
structure Names (replica : Replica Path Id Value) (rows : Finset (Row Path Id Value)) : Prop where
  pathOf : ∀ id path, replica.pathOf id = some path ↔ ∃ row ∈ rows, row.id = id ∧ row.path = path
  idOf : ∀ path id, replica.idOf path = some id ↔ ∃ row ∈ rows, row.path = path ∧ row.id = id

/-- The replica holds the values of these rows and no others. -/
def Holds (replica : Replica Path Id Value) (rows : Finset (Row Path Id Value)) : Prop :=
  ∀ id value, replica.valueOf id = some value ↔ ∃ row ∈ rows, row.id = id ∧ row.value = value

structure Mirrors (replica : Replica Path Id Value) (rows : Finset (Row Path Id Value)) :
    Prop where
  names : Names replica rows
  holds : Holds replica rows

/-- A replica cannot mirror a table in which two rows share a path or an id. -/
theorem Mirrors.wellKeyed {replica : Replica Path Id Value} {rows : Finset (Row Path Id Value)}
    (h : Mirrors replica rows) : WellKeyed rows := by
  have heq : UniqueIds rows := by
    intro row hrow other hother hid
    have hpath := (h.names.pathOf row.id row.path).mpr ⟨row, hrow, rfl, rfl⟩
    have hvalue := (h.holds row.id row.value).mpr ⟨row, hrow, rfl, rfl⟩
    rw [(h.names.pathOf row.id other.path).mpr ⟨other, hother, hid.symm, rfl⟩] at hpath
    rw [(h.holds row.id other.value).mpr ⟨other, hother, hid.symm, rfl⟩] at hvalue
    cases row
    cases other
    simp_all
  refine ⟨fun row hrow other hother hpath => heq row hrow other hother ?_, heq⟩
  have hid := (h.names.idOf row.path row.id).mpr ⟨row, hrow, rfl, rfl⟩
  rw [(h.names.idOf row.path other.id).mpr ⟨other, hother, hpath.symm, rfl⟩] at hid
  exact (Option.some.inj hid).symm

end Tables

namespace Replica

variable {Path Id Value : Type*}

def empty : Replica Path Id Value := ⟨fun _ => none, fun _ => none, fun _ => none⟩

theorem names_empty : Names (empty : Replica Path Id Value) ∅ := by
  constructor <;> simp [empty]

theorem holds_empty : Holds (empty : Replica Path Id Value) ∅ := by
  simp [Holds, empty]

variable [DecidableEq Id]

def put (replica : Replica Path Id Value) (id : Id) (value : Value) : Replica Path Id Value :=
  { replica with valueOf := Function.update replica.valueOf id (some value) }

theorem names_put {replica : Replica Path Id Value} {rows : Finset (Row Path Id Value)}
    (h : Names replica rows) (id : Id) (value : Value) : Names (replica.put id value) rows :=
  ⟨h.pathOf, h.idOf⟩

variable [DecidableEq Path]

def register (replica : Replica Path Id Value) (id : Id) (path : Path) :
    Replica Path Id Value :=
  { replica with
    pathOf := Function.update replica.pathOf id (some path)
    idOf := Function.update replica.idOf path (some id) }

def drop (replica : Replica Path Id Value) (id : Id) : Replica Path Id Value where
  pathOf := Function.update replica.pathOf id none
  idOf :=
    match replica.pathOf id with
    | none => replica.idOf
    | some path => Function.update replica.idOf path none
  valueOf := Function.update replica.valueOf id none

variable {replica : Replica Path Id Value} {rows : Finset (Row Path Id Value)}

theorem holds_register (h : Holds replica rows) (id : Id) (path : Path) :
    Holds (replica.register id path) rows := h

variable [DecidableEq Value] {row : Row Path Id Value}

theorem names_register (h : Names replica rows) (hkeyed : WellKeyed (insert row rows)) :
    Names (replica.register row.id row.path) (insert row rows) := by
  have hid := hkeyed.id row (Finset.mem_insert_self row rows)
  have hpath := hkeyed.path row (Finset.mem_insert_self row rows)
  rw [Finset.forall_mem_insert] at hid hpath
  constructor
  · intro id path
    simp only [register, Function.update_apply, Finset.exists_mem_insert]
    split
    · next heq => grind
    · next hne => grind [h.pathOf id path]
  · intro path id
    simp only [register, Function.update_apply, Finset.exists_mem_insert]
    split
    · next heq => grind
    · next hne => grind [h.idOf path id]

theorem holds_put (h : Holds replica rows) (hkeyed : WellKeyed (insert row rows)) :
    Holds (replica.put row.id row.value) (insert row rows) := by
  have hid := hkeyed.id row (Finset.mem_insert_self row rows)
  rw [Finset.forall_mem_insert] at hid
  intro id value
  simp only [put, Function.update_apply, Finset.exists_mem_insert]
  split
  · next heq => grind
  · next hne => grind [h id value]

theorem mirrors_put (h : Mirrors replica rows) (hrow : row ∈ rows) (value : Value) :
    Mirrors (replica.put row.id value) (insert { row with value } (rows.erase row)) := by
  have hkeyed := h.wellKeyed
  refine ⟨⟨fun id path => ?_, fun path id => ?_⟩, fun id other => ?_⟩
  · rw [show (replica.put row.id value).pathOf id = replica.pathOf id from rfl,
      h.names.pathOf id path]
    simp only [Finset.exists_mem_insert, Finset.mem_erase]
    grind
  · rw [show (replica.put row.id value).idOf path = replica.idOf path from rfl,
      h.names.idOf path id]
    simp only [Finset.exists_mem_insert, Finset.mem_erase]
    grind
  · simp only [put, Function.update_apply, Finset.exists_mem_insert, Finset.mem_erase]
    have hid := hkeyed.id row hrow
    split
    · next heq => grind
    · next hne => grind [h.holds id other]

theorem mirrors_drop (h : Mirrors replica rows) (hrow : row ∈ rows) :
    Mirrors (replica.drop row.id) (rows.erase row) := by
  have hkeyed := h.wellKeyed
  have hid := hkeyed.id row hrow
  have hpath := hkeyed.path row hrow
  have hname := (h.names.pathOf row.id row.path).mpr ⟨row, hrow, rfl, rfl⟩
  refine ⟨⟨fun id path => ?_, fun path id => ?_⟩, fun id value => ?_⟩
  · simp only [drop, Function.update_apply, Finset.mem_erase]
    split
    · next heq => grind
    · next hne => grind [h.names.pathOf id path]
  · simp only [drop, hname, Function.update_apply, Finset.mem_erase]
    split
    · next heq => grind
    · next hne => grind [h.names.idOf path id]
  · simp only [drop, Function.update_apply, Finset.mem_erase]
    split
    · next heq => grind
    · next hne => grind [h.holds id value]

end Replica

end DanWs.Replicas
