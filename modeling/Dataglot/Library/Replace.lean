/-
`str::replace`: the occurrences of a pattern are replaced from the left, without overlaps,
and what is put in is not searched again.

The two steps of the search are `replace_hit` and `replace_miss`; everything else goes by
`inductOn`, which has a case for each.
-/
import Mathlib

namespace Replace
open List

variable {α : Type}

variable {c : α} {s : List α} {f : α → List α}

theorem prefix_of_prefix_append {p t} (hc : c ∉ p) (h : p <+: s ++ c :: t) : p <+: s := by
  induction p generalizing s with
  | nil => exact nil_prefix
  | cons d p ih =>
    rw [mem_cons, not_or] at hc
    cases s with
    | nil =>
      rw [nil_append, cons_prefix_cons] at h
      exact absurd h.1.symm hc.1
    | cons e s =>
      rw [cons_append, cons_prefix_cons] at h
      rw [cons_prefix_cons]
      exact ⟨h.1, ih hc.2 h.2⟩

theorem flatMap_of_own : ∀ {p : List α}, (∀ c ∈ p, f c = [c]) → p.flatMap f = p
  | [], _ => rfl
  | c :: p, h => by
    rw [forall_mem_cons] at h
    rw [flatMap_cons, h.1, flatMap_of_own h.2]
    rfl

theorem prefix_flatMap_iff {p} (ho : ∀ c ∈ p, f c = [c])
    (hh : ∀ a, ∀ c ∈ p, (f a).head? = some c → a = c) (hne : ∀ a, f a ≠ []) (s) :
    p <+: s.flatMap f ↔ p <+: s := by
  induction p generalizing s with
  | nil => simp
  | cons c p ih =>
    rw [forall_mem_cons] at ho
    cases s with
    | nil => rfl
    | cons a s =>
      obtain ⟨b, bs, hfa⟩ := exists_cons_of_ne_nil (hne a)
      have ht := ih ho.2 (fun a d hd => hh a d (mem_cons_of_mem _ hd)) s
      rw [flatMap_cons, cons_prefix_cons]
      constructor
      · intro h
        rw [hfa, cons_append, cons_prefix_cons] at h
        have hac : a = c := hh a c mem_cons_self (by rw [hfa, h.1]; rfl)
        obtain rfl : bs = [] := by
          rw [hac, ho.1] at hfa
          exact (cons.inj hfa).2.symm
        exact ⟨hac.symm, ht.mp h.2⟩
      · rintro ⟨rfl, h⟩
        rw [ho.1, singleton_append, cons_prefix_cons]
        exact ⟨rfl, ht.mpr h⟩

variable [DecidableEq α] {pat sub : List α}

/-- The rest of a text, of which `skip` characters belong to an occurrence that has been replaced. -/
def replaceFrom (pat sub : List α) : Nat → List α → List α
  | _, [] => []
  | skip + 1, _ :: rest => replaceFrom pat sub skip rest
  | 0, c :: rest =>
    if pat.isPrefixOf (c :: rest) then sub ++ replaceFrom pat sub (pat.length - 1) rest
    else c :: replaceFrom pat sub 0 rest

def replace (pat sub s : List α) : List α := replaceFrom pat sub 0 s

@[simp] theorem replace_nil : replace pat sub [] = [] := rfl

theorem replaceFrom_append (s t) : replaceFrom pat sub s.length (s ++ t) = replace pat sub t := by
  induction s with
  | nil => rfl
  | cons c s ih => exact ih

theorem replace_hit (hne : pat ≠ []) (t) : replace pat sub (pat ++ t) = sub ++ replace pat sub t := by
  cases hp : pat with
  | nil => exact absurd hp hne
  | cons p ps =>
    have hpr : (p :: ps).isPrefixOf (p :: (ps ++ t)) = true :=
      isPrefixOf_iff_prefix.mpr (prefix_append (p :: ps) t)
    rw [replace, cons_append, replaceFrom, if_pos hpr, length_cons, Nat.add_sub_cancel]
    rw [replaceFrom_append]

theorem replace_miss (h : ¬ pat <+: c :: s) : replace pat sub (c :: s) = c :: replace pat sub s := by
  rw [replace, replaceFrom, if_neg (mt isPrefixOf_iff_prefix.mp h)]
  rfl

/-- The search, as an induction: the text is empty, begins with the pattern, or begins with a character that stays. -/
theorem inductOn {motive : List α → Prop} (hne : pat ≠ []) (nil : motive []) (hit : ∀ t, motive t → motive (pat ++ t))
    (miss : ∀ c s, ¬ pat <+: c :: s → motive s → motive (c :: s)) (s) : motive s := by
  induction hl : s.length using Nat.strong_induction_on generalizing s with
  | _ n ih =>
    cases s with
    | nil => exact nil
    | cons c s =>
      by_cases hp : pat <+: c :: s
      · obtain ⟨t, ht⟩ := hp
        rw [← ht]
        refine hit t (ih t.length ?_ t rfl)
        have hpos := length_pos_iff.mpr hne
        rw [← hl, ← ht, length_append]
        omega
      · refine miss c s hp (ih s.length ?_ s rfl)
        rw [← hl]
        exact Nat.lt_succ_self _

theorem replace_of_absent (h : ¬ pat <:+: s) : replace pat sub s = s := by
  induction s with
  | nil => rfl
  | cons c s ih =>
    rw [infix_cons_iff, not_or] at h
    rw [replace_miss h.1, ih h.2]

theorem replace_pattern (hne : pat ≠ []) : replace pat sub pat = sub := by
  have h : replace pat sub (pat ++ []) = sub ++ replace pat sub [] := replace_hit hne []
  rwa [append_nil, replace_nil, append_nil] at h

theorem replace_by_self (hne : pat ≠ []) (s) : replace pat pat s = s := by
  induction s using inductOn hne with
  | nil => rfl
  | hit t ih => rw [replace_hit hne, ih]
  | miss c s h ih => rw [replace_miss h, ih]

/-! ## Separators -/

theorem replace_append_sep (hne : pat ≠ []) (hc : c ∉ pat) (s t) :
    replace pat sub (s ++ c :: t) = replace pat sub s ++ c :: replace pat sub t := by
  have hs : ∀ s, pat <+: s ++ c :: t → pat <+: s := fun s h => prefix_of_prefix_append hc h
  induction s using inductOn hne with
  | nil => exact replace_miss fun h => hne (prefix_nil.mp (hs [] h))
  | hit s ih => rw [append_assoc, replace_hit hne, replace_hit hne, ih, append_assoc]
  | miss d s h ih =>
    have hm : ¬ pat <+: d :: (s ++ c :: t) := mt (hs (d :: s)) h
    rw [cons_append, replace_miss hm, replace_miss h, ih, cons_append]

theorem replace_sep (hne : pat ≠ []) (hc : c ∉ pat) (t) :
    replace pat sub (c :: t) = c :: replace pat sub t := replace_append_sep hne hc [] t

/-! ## Codes -/

/-- A code of characters by texts in which the pattern stands for itself and for nothing else. -/
structure Code (pat : List α) (f : α → List α) : Prop where
  own : ∀ p ∈ pat, f p = [p]
  head : ∀ a, ∀ p ∈ pat, (f a).head? = some p → a = p
  inner : ∀ a, ∀ p ∈ pat.head?, p ∉ (f a).tail
  ne_nil : ∀ a, f a ≠ []

theorem replace_append_of_head {t} (hne : pat ≠ []) (h : ∀ p ∈ pat.head?, p ∉ s) :
    replace pat sub (s ++ t) = s ++ replace pat sub t := by
  induction s with
  | nil => rfl
  | cons c s ih =>
    have hm : ¬ pat <+: c :: (s ++ t) := by
      obtain ⟨p, ps, rfl⟩ := exists_cons_of_ne_nil hne
      rw [cons_prefix_cons]
      exact fun hpr => h p rfl (hpr.1 ▸ mem_cons_self)
    rw [cons_append, replace_miss hm, ih fun p hp hme => h p hp (mem_cons_of_mem _ hme)]
    rfl

theorem replace_flatMap (hne : pat ≠ []) (hf : Code pat f) (s) :
    replace pat (sub.flatMap f) (s.flatMap f) = (replace pat sub s).flatMap f := by
  induction s using inductOn hne with
  | nil => rfl
  | hit t ih =>
    rw [flatMap_append, flatMap_of_own hf.own, replace_hit hne, replace_hit hne, ih, flatMap_append]
  | miss c s h ih =>
    have hm : ¬ pat <+: (c :: s).flatMap f := mt (prefix_flatMap_iff hf.own hf.head hf.ne_nil (c :: s)).mp h
    obtain ⟨b, bs, hfc⟩ := exists_cons_of_ne_nil (hf.ne_nil c)
    have hi : ∀ p ∈ pat.head?, p ∉ bs := fun p hp => by
      have ht := hf.inner c p hp
      rwa [hfc] at ht
    rw [flatMap_cons, hfc, cons_append] at hm ⊢
    rw [replace_miss hm, replace_append_of_head hne hi, ih, replace_miss h, flatMap_cons, hfc]
    rfl

/-! ## Weights -/

theorem weight_replace (hne : pat ≠ []) {w : List α → Nat} (ha : ∀ s t, w (s ++ t) = w s + w t) (s) :
    ∃ k, w (replace pat sub s) + k * w pat = w s + k * w sub ∧ (pat <:+: s → 0 < k) := by
  induction s using inductOn hne with
  | nil => exact ⟨0, by rw [replace_nil, Nat.zero_mul, Nat.zero_mul], fun h => absurd (infix_nil.mp h) hne⟩
  | hit t ih =>
    obtain ⟨k, hk, -⟩ := ih
    refine ⟨k + 1, ?_, fun _ => Nat.succ_pos k⟩
    rw [replace_hit hne, ha, ha, Nat.succ_mul, Nat.succ_mul]
    omega
  | miss c s h ih =>
    obtain ⟨k, hk, hpos⟩ := ih
    refine ⟨k, ?_, fun hi => hpos ((infix_cons_iff.mp hi).resolve_left h)⟩
    have hs : w (c :: s) = w [c] + w s := ha [c] s
    have hr : w (c :: replace pat sub s) = w [c] + w (replace pat sub s) := ha [c] _
    rw [replace_miss h, hs, hr]
    omega

theorem absent_of_replace_nil (hne : pat ≠ []) (h : replace pat [] s = s) : ¬ pat <:+: s := by
  intro hi
  obtain ⟨k, hk, hpos⟩ := @weight_replace α _ pat [] hne length (fun s t => length_append) s
  have hk0 := hpos hi
  have hp := length_pos_iff.mpr hne
  rw [h, length_nil, Nat.mul_zero] at hk
  have hprod := Nat.mul_pos hk0 hp
  omega

end Replace
