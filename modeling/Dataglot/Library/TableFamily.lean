/-
The tables of a database, each with keys and values of its own, and the transactions on one
entry of one table.

A transaction changes at most one cell, so what a sequence of them does is said cell by
cell (`Tables.ext`).
-/
import Dataglot.Library.OrderedTable
import Dataglot.Library.Programs

namespace TableFamily

open OrderedTable (Table)

variable {T : Type} {Key Value : T → Type}

abbrev Tables (Key Value : T → Type) := ∀ t, Table (Key t) (Value t)

/-- A table and a key of it. -/
abbrev Cell (Key : T → Type) := Σ t, Key t

section Cells

variable [DecidableEq T] [∀ t, DecidableEq (Key t)]

namespace Tables

def empty : Tables Key Value := fun _ => ∅

def get (db : Tables Key Value) (c : Cell Key) : Option (Value c.1) := (db c.1).lookup c.2

/-- A cell is given a value, or loses the one it has. -/
def set (db : Tables Key Value) (c : Cell Key) (v : Option (Value c.1)) : Tables Key Value :=
  Function.update db c.1 (v.elim ((db c.1).erase c.2) fun v => (db c.1).insert c.2 v)

variable {db : Tables Key Value} {c c' : Cell Key}

omit [DecidableEq T] in
@[simp] theorem get_empty (c) : (empty : Tables Key Value).get c = none := Finmap.lookup_empty _

@[simp] theorem get_set_self (v) : (db.set c v).get c = v := by
  unfold get set
  rw [Function.update_self]
  cases v with
  | none => exact Finmap.lookup_erase _ _
  | some v => exact Finmap.lookup_insert _

theorem get_set_of_ne (hne : c' ≠ c) (v) : (db.set c v).get c' = db.get c' := by
  obtain ⟨t, k⟩ := c
  obtain ⟨t', k'⟩ := c'
  unfold get set
  dsimp only at v ⊢
  by_cases ht : t' = t
  · subst ht
    have hk : k' ≠ k := fun hk => hne (hk ▸ rfl)
    rw [Function.update_self]
    cases v with
    | none => exact Finmap.lookup_erase_ne hk
    | some v => exact Finmap.lookup_insert_of_ne _ hk
  · rw [Function.update_of_ne ht]

end Tables

/-! ## Transactions -/

inductive Txn (Key Value : T → Type) : Type
  | get (c : Cell Key)
  | insert (c : Cell Key) (v : Value c.1)
  | remove (c : Cell Key)

/-- What a transaction returns; a removal, whether there was something. -/
abbrev Txn.Reply : Txn Key Value → Type
  | get c => Option (Value c.1)
  | insert .. => Unit
  | remove _ => Bool

def Tables.exec (db : Tables Key Value) : (x : Txn Key Value) → x.Reply × Tables Key Value
  | .get c => (db.get c, db)
  | .insert c v => ((), db.set c (some v))
  | .remove c => ((db.get c).isSome, db.set c none)

end Cells

end TableFamily
