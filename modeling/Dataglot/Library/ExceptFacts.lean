/-
When a computation in `Except` succeeds, one lemma per way of building one.
-/
import Mathlib.Data.List.Forall2

namespace Except
open List

variable {ε ε' α β : Type}

variable {f : α → Except ε β} {x : Except ε α} {xs : List α} {ys : List β}

theorem bind_ok_iff {b} : (x >>= f) = .ok b ↔ ∃ a, x = .ok a ∧ f a = .ok b := by
  cases x <;> simp [bind, Except.bind]

theorem andThen_ok_iff {x} {y : Except ε β} {b} : (x >>= fun _ => y) = .ok b ↔ x = .ok () ∧ y = .ok b := by
  cases x <;> simp [bind, Except.bind]

theorem exists_bind_ok_iff : (∃ b, (x >>= f) = .ok b) ↔ ∃ a, x = .ok a ∧ ∃ b, f a = .ok b := by
  cases x <;> simp [bind, Except.bind]

@[simp] theorem pure_ok_iff {a b} : (pure a : Except ε α) = .ok b ↔ a = b := by
  simp [pure, Except.pure]

@[simp] theorem mapError_ok_iff {f : ε → ε'} {a} : x.mapError f = .ok a ↔ x = .ok a := by
  cases x <;> simp [Except.mapError]

theorem not_exists_ok_iff : (¬ ∃ a, x = .ok a) ↔ ∃ e, x = .error e := by
  cases x <;> simp

theorem forM_ok_iff {f : α → Except ε Unit} : xs.forM f = .ok () ↔ ∀ x ∈ xs, f x = .ok () := by
  induction xs with
  | nil => simp
  | cons x xs ih =>
    simp only [forM_eq_forM, forM_cons, forall_mem_cons, bind_ok_iff] at ih ⊢
    constructor
    · rintro ⟨⟨⟩, hx, hxs⟩
      exact ⟨hx, ih.mp hxs⟩
    · rintro ⟨hx, hxs⟩
      exact ⟨(), hx, ih.mpr hxs⟩

theorem forall₂_of_mapM_ok : ∀ {xs ys}, xs.mapM f = .ok ys → Forall₂ (fun x y => f x = .ok y) xs ys
  | [], ys, h => by
    rw [mapM_nil, pure_ok_iff] at h
    subst h
    exact .nil
  | x :: xs, ys, h => by
    simp only [mapM_cons, bind_ok_iff, pure_ok_iff] at h
    obtain ⟨y, hy, rest, hr, rfl⟩ := h
    exact .cons hy (forall₂_of_mapM_ok hr)

theorem exists_mem_of_mapM_ok (h : xs.mapM f = .ok ys) {x} (hx : x ∈ xs) : ∃ y ∈ ys, f x = .ok y := by
  have ha := forall₂_of_mapM_ok h
  clear h
  induction ha with
  | nil => cases hx
  | @cons x' y' xs' ys' hxy hrest ih =>
    rcases mem_cons.mp hx with rfl | hx
    · exact ⟨y', mem_cons_self, hxy⟩
    · obtain ⟨y, hy, hfy⟩ := ih hx
      exact ⟨y, mem_cons_of_mem _ hy, hfy⟩

theorem mem_of_mapM_ok_iff (h : xs.mapM f = .ok ys) {y} : y ∈ ys ↔ ∃ x ∈ xs, f x = .ok y := by
  constructor
  · have ha := forall₂_of_mapM_ok h
    clear h
    intro hy
    induction ha with
    | nil => cases hy
    | @cons x' y' xs' ys' hxy hrest ih =>
      rcases mem_cons.mp hy with rfl | hy
      · exact ⟨x', mem_cons_self, hxy⟩
      · obtain ⟨x, hx, hfx⟩ := ih hy
        exact ⟨x, mem_cons_of_mem _ hx, hfx⟩
  · rintro ⟨x, hx, hfx⟩
    obtain ⟨y', hy', hfy⟩ := exists_mem_of_mapM_ok h hx
    rw [hfx] at hfy
    cases hfy
    exact hy'

theorem mapM_eq_ok_map {g : α → β} : ∀ {xs : List α}, (∀ x ∈ xs, f x = .ok (g x)) → xs.mapM f = .ok (xs.map g)
  | [], _ => rfl
  | x :: xs, h => by
    rw [mapM_cons, h x mem_cons_self, mapM_eq_ok_map fun y hy => h y (mem_cons_of_mem x hy)]
    rfl

theorem mapM_singleton_ok_iff {x} : [x].mapM f = .ok ys ↔ ∃ y, f x = .ok y ∧ ys = [y] := by
  rw [mapM_cons, bind_ok_iff]
  refine exists_congr fun y => and_congr_right fun _ => ?_
  rw [mapM_nil, pure_bind, pure_ok_iff, eq_comm]

/-- A fold whose steps succeed and are seen as those of a plain fold succeeds, and is seen as the plain fold. -/
theorem foldlM_refines {σ τ : Type} {f : σ → α → Except ε σ} {g} {view : σ → τ} (P : σ → Prop) :
    ∀ {l : List α} {s}, (∀ s, ∀ a ∈ l, P s → ∃ s', f s a = .ok s' ∧ P s' ∧ view s' = g (view s) a) → P s →
      ∃ s', l.foldlM f s = .ok s' ∧ P s' ∧ view s' = l.foldl g (view s)
  | [], s, _, hs => ⟨s, rfl, hs, rfl⟩
  | a :: l, s, hstep, hs => by
    obtain ⟨s₁, hf, hP, hv⟩ := hstep s a mem_cons_self hs
    obtain ⟨s', hfo, hP', hv'⟩ := foldlM_refines P (fun s b hb => hstep s b (mem_cons_of_mem a hb)) hP
    refine ⟨s', ?_, hP', ?_⟩
    · rw [foldlM_cons, hf]
      exact hfo
    · rw [hv', hv, foldl_cons]

end Except
