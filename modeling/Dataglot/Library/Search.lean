/-
Depth-first search with a stack. A node that is met for the first time is reported and
put on the stack; the root is never reported. With one round for the root and one for
each node there can be, the search reports exactly the nodes that can be reached.
-/
import Mathlib

namespace Search
open List

variable {V : Type}

structure State (V : Type) where
  visited : List V
  out : List V
  stack : List V

def start (root : V) : State V := ⟨[root], [], [root]⟩

section Rounds

variable [DecidableEq V]

def discover (s : State V) (v : V) : State V :=
  if v ∈ s.visited then s else ⟨v :: s.visited, v :: s.out, v :: s.stack⟩

/-- Rounds of the search: a node is taken from the stack and its successors are met. -/
def run (next : V → List V) : Nat → State V → State V
  | 0, s => s
  | fuel + 1, s =>
    match s.stack with
    | [] => s
    | node :: rest => run next fuel ((next node).foldl discover { s with stack := rest })

end Rounds

def Edge (next : V → List V) (u v : V) : Prop := v ∈ next u

/-- What holds between the rounds. A visited node that is off the stack has had its successors met. -/
structure Inv (next : V → List V) (bound : List V) (root : V) (s : State V) : Prop where
  visited_eq : s.visited = s.out ++ [root]
  nodup : s.visited.Nodup
  bounded : s.out ⊆ bound
  reached : ∀ v ∈ s.visited, Relation.ReflTransGen (Edge next) root v
  closed : ∀ v ∈ s.visited, v ∉ s.stack → ∀ w ∈ next v, w ∈ s.visited
  on_stack : s.stack ⊆ s.visited

variable {next : V → List V} {bound : List V} {root : V} {s : State V}

theorem inv_start : Inv next bound root (start root) where
  visited_eq := rfl
  nodup := nodup_singleton root
  bounded := nil_subset bound
  reached := by
    intro v hv
    rw [mem_singleton.mp hv]
  closed := fun v hv hn => absurd hv hn
  on_stack := Subset.refl _

theorem Inv.nodup_out (h : Inv next bound root s) : s.out.Nodup := (nodup_append.mp (h.visited_eq ▸ h.nodup)).1

theorem Inv.visited_length_le (h : Inv next bound root s) : s.visited.length ≤ bound.length + 1 := by
  have hle : s.out.length ≤ bound.length := (subperm_of_subset h.nodup_out h.bounded).length_le
  rw [h.visited_eq, length_append, length_singleton]
  omega

variable [DecidableEq V]

theorem foldl_discover : ∀ (l : List V) s, ∃ new,
    l.foldl discover s = ⟨new ++ s.visited, new ++ s.out, new ++ s.stack⟩ ∧ new.Nodup ∧
      ∀ v, v ∈ new ↔ v ∈ l ∧ v ∉ s.visited
  | [], s => ⟨[], rfl, .nil, by simp⟩
  | u :: l, s => by
    rw [foldl_cons]
    obtain ⟨new, heq, hn, hm⟩ := foldl_discover l (discover s u)
    by_cases hu : u ∈ s.visited
    · rw [discover, if_pos hu] at heq hm ⊢
      refine ⟨new, heq, hn, fun v => ?_⟩
      rw [hm, mem_cons]
      constructor
      · rintro ⟨hv, hno⟩
        exact ⟨.inr hv, hno⟩
      · rintro ⟨rfl | hv, hno⟩
        · exact absurd hu hno
        · exact ⟨hv, hno⟩
    · rw [discover, if_neg hu] at heq hm ⊢
      have hne : u ∉ new := fun h => ((hm u).mp h).2 mem_cons_self
      refine ⟨new ++ [u], by rw [heq]; simp, ?_, fun v => ?_⟩
      · exact nodup_append.mpr ⟨hn, nodup_singleton u, by simpa using fun v hv => ne_of_mem_of_not_mem hv hne⟩
      · rw [mem_append, hm, mem_singleton]
        by_cases hvu : v = u
        · simp [hvu, hu]
        · simp [hvu]

theorem Inv.round (h : Inv next bound root s) (hb : ∀ u v, v ∈ next u → v ∈ bound) {node rest}
    (hs : s.stack = node :: rest) : Inv next bound root ((next node).foldl discover { s with stack := rest }) ∧
      ((next node).foldl discover { s with stack := rest }).stack.length + s.visited.length + 1 =
        s.stack.length + ((next node).foldl discover { s with stack := rest }).visited.length := by
  obtain ⟨new, heq, hn, hm⟩ := foldl_discover (next node) { s with stack := rest }
  dsimp only at heq hm
  have hno : node ∈ s.visited := h.on_stack (hs ▸ mem_cons_self)
  rw [heq]
  refine ⟨⟨?_, ?_, ?_, ?_, ?_, ?_⟩, ?_⟩
  · rw [h.visited_eq, append_assoc]
  · refine nodup_append.mpr ⟨hn, h.nodup, fun v hv w hw => ?_⟩
    rintro rfl
    exact ((hm v).mp hv).2 hw
  · refine append_subset.mpr ⟨fun v hv => hb node v ((hm v).mp hv).1, h.bounded⟩
  · intro v hv
    rcases mem_append.mp hv with hv | hv
    · exact (h.reached node hno).tail ((hm v).mp hv).1
    · exact h.reached v hv
  · intro v hv ho w hw
    rw [mem_append, not_or] at ho
    have hol : v ∈ s.visited := (mem_append.mp hv).resolve_left ho.1
    refine mem_append.mpr ?_
    by_cases hvn : v = node
    · subst hvn
      by_cases hwv : w ∈ s.visited
      · exact .inr hwv
      · exact .inl ((hm w).mpr ⟨hw, hwv⟩)
    · refine .inr (h.closed v hol ?_ w hw)
      rw [hs, mem_cons, not_or]
      exact ⟨hvn, ho.2⟩
  · refine append_subset.mpr ⟨fun v hv => mem_append_left _ hv, fun v hv => mem_append_right _ ?_⟩
    exact h.on_stack (hs ▸ mem_cons_of_mem node hv)
  · simp only [hs, length_append, length_cons]
    omega

theorem Inv.run (hb : ∀ u v, v ∈ next u → v ∈ bound) : ∀ {fuel s}, Inv next bound root s →
    bound.length + 1 + s.stack.length ≤ fuel + s.visited.length →
    Inv next bound root (run next fuel s) ∧ (run next fuel s).stack = []
  | 0, s, h, hf => by
    have hle := h.visited_length_le
    refine ⟨h, eq_nil_of_length_eq_zero ?_⟩
    rw [Search.run]
    omega
  | fuel + 1, s, h, hf => by
    rw [Search.run]
    split
    next hs => exact ⟨h, hs⟩
    next node rest hs =>
      obtain ⟨hi, hlength⟩ := h.round hb hs
      exact Inv.run hb hi (by omega)

theorem inv_run_start (hb : ∀ u v, v ∈ next u → v ∈ bound) :
    Inv next bound root (run next (bound.length + 1) (start root)) ∧
      (run next (bound.length + 1) (start root)).stack = [] :=
  Inv.run hb inv_start (Nat.le_refl _)

/-- **What the search reports** is what can be reached from the root, apart from the root. -/
theorem mem_out_run_iff (hb : ∀ u v, v ∈ next u → v ∈ bound) {v} :
    v ∈ (run next (bound.length + 1) (start root)).out ↔ v ≠ root ∧ Relation.ReflTransGen (Edge next) root v := by
  obtain ⟨h, hs⟩ := @inv_run_start V next bound root _ hb
  have hvi : ∀ w, w ∈ (run next (bound.length + 1) (start root)).visited ↔
      w ∈ (run next (bound.length + 1) (start root)).out ∨ w = root := by
    intro w
    rw [h.visited_eq, mem_append, mem_singleton]
  have hro : root ∉ (run next (bound.length + 1) (start root)).out := by
    intro hm
    exact (nodup_append.mp (h.visited_eq ▸ h.nodup)).2.2 root hm root (mem_singleton_self root) rfl
  constructor
  · intro hv
    exact ⟨ne_of_mem_of_not_mem hv hro, h.reached v ((hvi v).mpr (.inl hv))⟩
  · rintro ⟨hne, hr⟩
    -- The visited nodes hold the root and are closed under edges.
    have hm : v ∈ (run next (bound.length + 1) (start root)).visited := by
      clear hne
      induction hr with
      | refl => exact (hvi root).mpr (.inr rfl)
      | tail _ he ih => exact h.closed _ ih (by rw [hs]; exact not_mem_nil) _ he
    exact ((hvi v).mp hm).resolve_right hne

end Search
