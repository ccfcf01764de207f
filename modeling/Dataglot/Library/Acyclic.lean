/-
Where only finitely many things can be reached, every way on comes to an end iff no
way leads back to where it has been.
-/
import Mathlib

namespace Acyclic
open Relation

variable {α : Type} {r : α → α → Prop} {a : α}

theorem acc_of_reflTransGen {x} (h : Acc (Function.swap r) a) (hx : ReflTransGen r a x) :
    Acc (Function.swap r) x := by
  induction hx with
  | refl => exact h
  | tail _ hstep ih => exact ih.inv hstep

theorem not_self_of_acc {s} (h : Acc s a) : ¬ s a a := by
  induction h with
  | intro x _ ih => exact fun hx => ih x hx hx

/-- No way goes on for ever, iff no cycle can be reached. -/
theorem acc_iff_no_cycle (hf : {x | ReflTransGen r a x}.Finite) :
    Acc (Function.swap r) a ↔ ∀ x, ReflTransGen r a x → ¬ TransGen r x x := by
  constructor
  · intro h x hx hc
    exact not_self_of_acc (acc_of_reflTransGen h hx).transGen (transGen_swap.mpr hc)
  · intro h
    refine (Set.WellFoundedOn.acc_iff_wellFoundedOn.out 1 0).mp ?_
    simp only [reflTransGen_swap]
    -- what can be reached is strictly ordered by the ways between
    have : Finite {x | ReflTransGen r a x} := hf
    let below : {x | ReflTransGen r a x} → {x | ReflTransGen r a x} → Prop := fun x y => TransGen r y.1 x.1
    have : IsTrans _ below := ⟨fun _ _ _ hxy hyz => hyz.trans hxy⟩
    have : Std.Irrefl below := ⟨fun x hx => h x.1 x.2 hx⟩
    exact (Finite.wellFounded_of_trans_of_irrefl below).mono fun _ _ hstep => TransGen.single hstep

end Acyclic
