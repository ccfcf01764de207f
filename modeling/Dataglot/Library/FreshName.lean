/-
A name that is not among finitely many.
-/
import Mathlib.Data.Set.Finite.Lattice

namespace FreshName

theorem exists_notMem {names : Set String} (h : names.Finite) : ∃ name, name ∉ names := by
  have hinfinite : Infinite String := by
    refine Infinite.of_injective (fun n : ℕ => String.ofList (List.replicate n 'a')) fun m n heq => ?_
    have hl := congrArg String.length heq
    simpa using hl
  exact h.exists_notMem

end FreshName
