/-
Hash maps from a key to a list of values, as they are iterated over: values are bound to a key one
at a time, and a key whose last value goes is dropped. An insertion may leave the entries in any
order; the other operations leave them where they are.
-/
import Mathlib
import Dataglot.Library.KeyedList

/-- The order in which a map is iterated over after an insertion. -/
structure Reorder (α : Type) where
  arrange : List α → List α
  perm : ∀ l, (arrange l).Perm l

namespace BindingMap
open List

variable {K V : Type} [DecidableEq K] [DecidableEq V]

/-- The entry of the key with the value behind its others, and whether it was not there; `none` without an entry. -/
def bindFound (k : K) (v : V) : List (K × List V) → Option (List (K × List V) × Bool)
  | [] => none
  | (k', vs) :: m =>
    if k' = k then some (if v ∈ vs then ((k', vs) :: m, false) else ((k', vs ++ [v]) :: m, true))
    else (bindFound k v m).map fun out => ((k', vs) :: out.1, out.2)

/-- Bind a value to a key, and whether the map moved. -/
def bind (order : Reorder (K × List V)) (k : K) (v : V) (m : List (K × List V)) : List (K × List V) × Bool :=
  match bindFound k v m with
  | some out => out
  | none => (order.arrange (m ++ [(k, [v])]), true)

/-- Unbind a value, and whether it was bound. A key without values is dropped, also one that had none before. -/
def unbind (k : K) (v : V) : List (K × List V) → List (K × List V) × Bool
  | [] => ([], false)
  | (k', vs) :: m =>
    if k' = k then
      let kept := vs.filter fun w => w ≠ v
      (if kept.isEmpty then m else (k', kept) :: m, kept.length != vs.length)
    else
      let (m', changed) := unbind k v m
      ((k', vs) :: m', changed)

def bound (m : List (K × List V)) : List (K × List V) := m.filter fun e => !e.2.isEmpty

def size (m : List (K × List V)) : Nat := (m.map fun e => e.2.length).sum

omit [DecidableEq K] [DecidableEq V] in
theorem size_cons (e) (m : List (K × List V)) : size (e :: m) = e.2.length + size m := by simp [size]

variable {m : List (K × List V)} {k : K} {v : V} {order : Reorder (K × List V)}

omit [DecidableEq K] [DecidableEq V] in
theorem size_eq_of_perm {m'} (h : m.Perm m') : size m = size m' := (h.map _).sum_eq

theorem bindFound_spec : ∀ {m out},
    bindFound k v m = some out → (out.2 = false → out.1 = m) ∧ (out.2 = true → size out.1 = size m + 1)
  | [], out, h => by cases h
  | (k', vs) :: m, out, h => by
    rw [bindFound] at h
    split_ifs at h with hk hv
    · obtain rfl := Option.some.inj h
      exact ⟨fun _ => rfl, nofun⟩
    · obtain rfl := Option.some.inj h
      refine ⟨nofun, fun _ => ?_⟩
      simp only [size_cons, length_append, length_singleton]
      omega
    · obtain ⟨out', ho, rfl⟩ := Option.map_eq_some_iff.mp h
      obtain ⟨hs, hm⟩ := bindFound_spec ho
      refine ⟨fun hf => by rw [hs hf], fun hf => ?_⟩
      rw [size_cons, size_cons, hm hf]
      omega

theorem bind_of_unchanged (h : (bind order k v m).2 = false) : (bind order k v m).1 = m := by
  unfold bind at h ⊢
  cases hf : bindFound k v m with
  | some out =>
    rw [hf] at h
    exact (bindFound_spec hf).1 h
  | none =>
    rw [hf] at h
    cases h

theorem size_bind (h : (bind order k v m).2 = true) : size (bind order k v m).1 = size m + 1 := by
  unfold bind at h ⊢
  cases hf : bindFound k v m with
  | some out =>
    rw [hf] at h
    exact (bindFound_spec hf).2 h
  | none =>
    rw [size_eq_of_perm (order.perm _)]
    simp [size]

theorem bound_unbind_of_unchanged : ∀ {m}, (unbind k v m).2 = false → bound (unbind k v m).1 = bound m
  | [], _ => rfl
  | (k', vs) :: m, h => by
    rw [unbind] at h ⊢
    split_ifs at h ⊢ with hk
    · have hke : (vs.filter fun w => w ≠ v) = vs := by
        simp only [bne_eq_false_iff_eq] at h
        exact filter_eq_self.mpr (length_filter_eq_length_iff.mp h)
      simp only [hke]
      split_ifs with he
      · simp [bound, he]
      · rfl
    · have ih := bound_unbind_of_unchanged h
      unfold bound at ih ⊢
      rw [filter_cons, filter_cons, ih]

theorem size_unbind : ∀ {m}, (unbind k v m).2 = true → size (unbind k v m).1 < size m
  | [], h => by cases h
  | (k', vs) :: m, h => by
    rw [unbind] at h ⊢
    split_ifs at h ⊢ with hk
    · have hless : (vs.filter fun w => w ≠ v).length < vs.length :=
        lt_of_le_of_ne (length_filter_le _ _) (by simpa using h)
      simp only [size_cons]
      split_ifs with hempty
      · omega
      · rw [size_cons]
        simp only
        omega
    · have ih := size_unbind h
      simp only [size_cons]
      omega

theorem not_perm_bind (h : (bind order k v m).2 = true) : ¬ (bind order k v m).1.Perm m := by
  intro hp
  have hmore := size_bind h
  have hsize := size_eq_of_perm hp
  omega

theorem not_perm_unbind (h : (unbind k v m).2 = true) : ¬ (unbind k v m).1.Perm m := by
  intro hp
  have hless := size_unbind h
  have hsize := size_eq_of_perm hp
  omega

end BindingMap

namespace KeyedList

variable {α K B : Type} [DecidableEq K] [DecidableEq B] {key : α → K} {body : α → B}

theorem not_perm_upsert {new} : ∀ {l}, (upsert key body new l).2 = true → ¬ (upsert key body new l).1.Perm l
  | [], _ => by simp [upsert]
  | old :: rest, h => by
    rw [upsert] at h ⊢
    split_ifs at h ⊢ with hkey hb
    · intro hp
      have hs : new ::ₘ (rest : Multiset α) = old ::ₘ rest := Multiset.coe_eq_coe.mpr hp
      exact hb (by rw [(Multiset.cons_inj_left _).mp hs])
    · exact fun hp => not_perm_upsert h ((List.perm_cons old).mp hp)

theorem not_perm_remove {k l} (h : (remove key k l).2 = true) : ¬ (remove key k l).1.Perm l :=
  fun hp => absurd hp.length_eq (by simpa [remove] using h)

end KeyedList
