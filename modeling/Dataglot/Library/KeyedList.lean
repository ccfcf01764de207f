/-
Lists that are read by key: an upsert replaces the first entry of its key or goes to the
end, a removal drops every entry of its key. The last upsert of a key wins.
-/
import Mathlib

namespace KeyedList
open List

variable {α K B : Type} [DecidableEq K] (key : α → K) (body : α → B)

/-- What the first entry of a key holds. -/
def bodyAt (l : List α) (k : K) : Option B := (l.find? fun a => key a = k).map body

/-- Drop the entries of a key, and whether there were any. -/
def remove (k : K) (l : List α) : List α × Bool :=
  let kept := l.filter fun a => key a ≠ k
  (kept, kept.length != l.length)

/-- Put an entry in, for the first one of its key if there is one. -/
def put (new : α) : List α → List α
  | [] => [new]
  | old :: rest => if key old = key new then new :: rest else old :: put new rest

/-- Merge an entry in: the first one of its key takes it up, or it goes to the end. -/
def merge (combine : α → α → α) (new : α) : List α → List α
  | [] => [new]
  | old :: rest => if key old = key new then combine old new :: rest else old :: merge combine new rest

section Upsert

variable [DecidableEq B]

/-- Put an entry in, and whether the list moved: an entry that holds the same already is left there. -/
def upsert (new : α) : List α → List α × Bool
  | [] => ([new], true)
  | old :: rest =>
    if key old = key new then
      if body old = body new then (old :: rest, false) else (new :: rest, true)
    else
      let (rest', changed) := upsert new rest
      (old :: rest', changed)

end Upsert

variable {key body}

/-! ## What a key holds -/

@[simp] theorem bodyAt_nil (k) : bodyAt key body [] k = none := rfl

theorem bodyAt_cons (a l k) :
    bodyAt key body (a :: l) k = if key a = k then some (body a) else bodyAt key body l k := by
  unfold bodyAt
  by_cases h : key a = k
  · rw [if_pos h, find?_cons_of_pos (by simpa using h), Option.map_some]
  · rw [if_neg h, find?_cons_of_neg (by simpa using h)]

theorem bodyAt_remove (k₀ k) : ∀ l,
    bodyAt key body (remove key k₀ l).1 k = if k = k₀ then none else bodyAt key body l k
  | [] => by simp [remove]
  | a :: rest => by
    have ih := bodyAt_remove k₀ k rest
    unfold remove at ih ⊢
    dsimp only at ih ⊢
    by_cases ha : key a = k₀
    · rw [filter_cons_of_neg (by simpa using ha), ih, bodyAt_cons]
      by_cases hk : k = k₀
      · rw [if_pos hk, if_pos hk]
      · rw [if_neg hk, if_neg hk, if_neg fun h => hk (h.symm.trans ha)]
    · rw [filter_cons_of_pos (by simpa using ha), bodyAt_cons, ih, bodyAt_cons]
      by_cases hk : k = k₀
      · rw [if_pos hk, if_pos hk, if_neg fun h => ha (h.trans hk)]
      · rw [if_neg hk, if_neg hk]

theorem remove_unchanged_iff (key) (body : α → B) (k : K) (l) :
    ((remove key k l).1 = l ↔ bodyAt key body l k = none) ∧
      ((remove key k l).2 = false ↔ bodyAt key body l k = none) := by
  have hn : bodyAt key body l k = none ↔ ∀ a ∈ l, key a ≠ k := by
    simp [bodyAt, find?_eq_none]
  have hs : (l.filter fun a => key a ≠ k) = l ↔ ∀ a ∈ l, key a ≠ k := by
    rw [filter_eq_self]
    simp
  have hl : (l.filter fun a => key a ≠ k).length = l.length ↔ ∀ a ∈ l, key a ≠ k := by
    rw [length_filter_eq_length_iff]
    simp
  unfold remove
  dsimp only
  rw [hn, bne_eq_false_iff_eq]
  exact ⟨hs, hl⟩

theorem map_key_merge {combine} (hk : ∀ a b, key (combine a b) = key a) (new) : ∀ l,
    (merge key combine new l).map key = if key new ∈ l.map key then l.map key else l.map key ++ [key new]
  | [] => rfl
  | old :: rest => by
    rw [merge, map_cons]
    by_cases ho : key old = key new
    · rw [if_pos ho, if_pos (ho ▸ mem_cons_self), map_cons, hk]
    · rw [if_neg ho, map_cons, map_key_merge hk new rest]
      by_cases hin : key new ∈ rest.map key
      · rw [if_pos hin, if_pos (mem_cons_of_mem _ hin)]
      · have hn : key new ∉ key old :: rest.map key := by
          rw [mem_cons, not_or]
          exact ⟨Ne.symm ho, hin⟩
        rw [if_neg hin, if_neg hn, cons_append]

theorem nodup_merge {combine} (hk : ∀ a b, key (combine a b) = key a) (new) {l}
    (h : (l.map key).Nodup) : ((merge key combine new l).map key).Nodup := by
  rw [map_key_merge hk]
  split_ifs with hin
  · exact h
  · rw [← concat_eq_append]
    exact h.concat hin

theorem bodyAt_eq_some_iff {l} (h : (l.map key).Nodup) {k b} :
    bodyAt key body l k = some b ↔ ∃ a ∈ l, key a = k ∧ body a = b := by
  induction l with
  | nil => simp
  | cons old rest ih =>
    rw [map_cons, nodup_cons] at h
    rw [bodyAt_cons]
    split_ifs with hk
    · constructor
      · intro hb
        exact ⟨old, mem_cons_self, hk, Option.some.inj hb⟩
      · rintro ⟨a, ha, hka, rfl⟩
        rcases mem_cons.mp ha with rfl | ha
        · rfl
        · exact absurd (hk.trans hka.symm ▸ mem_map_of_mem ha) h.1
    · rw [ih h.2]
      constructor
      · rintro ⟨a, ha, hab⟩
        exact ⟨a, mem_cons_of_mem _ ha, hab⟩
      · rintro ⟨a, ha, hka, hb⟩
        rcases mem_cons.mp ha with rfl | ha
        · exact absurd hka hk
        · exact ⟨a, ha, hka, hb⟩

theorem nodup_remove {k l} (h : (l.map key).Nodup) : ((remove key k l).1.map key).Nodup :=
  h.sublist (filter_sublist.map key)

section Upsert

variable [DecidableEq B]

theorem bodyAt_upsert (new k) : ∀ l,
    bodyAt key body (upsert key body new l).1 k = if k = key new then some (body new) else bodyAt key body l k
  | [] => by
    rw [upsert, bodyAt_cons]
    by_cases h : key new = k
    · rw [if_pos h, if_pos h.symm]
    · rw [if_neg h, if_neg (Ne.symm h)]
  | old :: rest => by
    rw [upsert]
    split_ifs with hke hb hk hk hk
    · rw [bodyAt_cons, if_pos (hke.trans hk.symm), hb]
    · rfl
    · rw [bodyAt_cons, if_pos hk.symm]
    · have hne : key new ≠ k := Ne.symm hk
      rw [bodyAt_cons, if_neg hne, bodyAt_cons, if_neg (hke ▸ hne)]
    · have hne : key old ≠ k := fun h => hke (h.trans hk)
      rw [bodyAt_cons, if_neg hne, bodyAt_upsert new k rest, if_pos hk]
    · rw [bodyAt_cons, bodyAt_cons, bodyAt_upsert new k rest, if_neg hk]

theorem upsert_unchanged_iff (key : α → K) (body : α → B) (new) : ∀ l,
    ((upsert key body new l).1 = l ↔ bodyAt key body l (key new) = some (body new)) ∧
      ((upsert key body new l).2 = false ↔ bodyAt key body l (key new) = some (body new))
  | [] => by simp [upsert]
  | old :: rest => by
    obtain ⟨ih₁, ih₂⟩ := upsert_unchanged_iff key body new rest
    rw [upsert, bodyAt_cons]
    split_ifs with hkey hb
    · simp [hb]
    · have hne : new ≠ old := fun h => hb (by rw [h])
      simp [hb, hne]
    · simpa using ⟨ih₁, ih₂⟩

theorem upsert_of_absent {new} : ∀ {l}, (∀ a ∈ l, key a ≠ key new) → upsert key body new l = (l ++ [new], true)
  | [], _ => rfl
  | old :: rest, h => by
    rw [upsert, if_neg (h old mem_cons_self), upsert_of_absent fun a ha => h a (mem_cons_of_mem _ ha)]
    rfl

theorem upsert_of_found {new old after} (ho : key old = key new) : ∀ {before}, (∀ a ∈ before, key a ≠ key new) →
      upsert key body new (before ++ old :: after) =
        if body old = body new then (before ++ old :: after, false) else (before ++ new :: after, true)
  | [], _ => by rw [nil_append, upsert, if_pos ho, nil_append]
  | a :: before, h => by
    rw [cons_append, upsert, if_neg (h a mem_cons_self),
      upsert_of_found ho fun b hb => h b (mem_cons_of_mem _ hb)]
    split_ifs <;> rfl

theorem mem_upsert {new a} : ∀ {l}, a ∈ (upsert key body new l).1 → a = new ∨ a ∈ l
  | [], h => .inl (mem_singleton.mp h)
  | old :: rest, h => by
    rw [upsert] at h
    split_ifs at h with hkey hbody
    · exact .inr h
    · rcases mem_cons.mp h with rfl | h
      · exact .inl rfl
      · exact .inr (mem_cons_of_mem _ h)
    · rcases mem_cons.mp h with rfl | h
      · exact .inr mem_cons_self
      · exact (mem_upsert h).imp id (mem_cons_of_mem _)

theorem nodup_upsert {new} : ∀ {l}, (l.map key).Nodup → ((upsert key body new l).1.map key).Nodup
  | [], _ => by simp [upsert]
  | old :: rest, h => by
    rw [map_cons, nodup_cons] at h
    rw [upsert]
    split_ifs with hk hbody
    · exact nodup_cons.mpr h
    · exact nodup_cons.mpr ⟨hk ▸ h.1, h.2⟩
    · refine nodup_cons.mpr ⟨fun hm => ?_, nodup_upsert h.2⟩
      obtain ⟨a, ha, hka⟩ := mem_map.mp hm
      rcases mem_upsert ha with rfl | ha
      · exact hk hka.symm
      · exact h.1 (hka ▸ mem_map_of_mem ha)

/-! ## Keys with more to them

An upsert goes by the key; entries may have a scope that tells more of them apart. -/

section Scope

variable {S : Type} [DecidableEq S]

/-- The new entry is the one of its scope, and entries of other scopes are what they were. -/
def Settled (scope : α → S) (new : α) (l l' : List α) : Prop :=
  (l'.filter fun a => scope a = scope new) = [new] ∧
    (l'.filter fun a => scope a ≠ scope new) = l.filter fun a => scope a ≠ scope new

/-- What is replaced has to be the one entry of the scope; what is left as it is, the new entry itself. -/
theorem settled_upsert_iff {scope : α → S} (hf : ∀ a b, scope a = scope b → key a = key b) (new l) :
    Settled scope new l (upsert key body new l).1 ↔
      ∀ old, (l.find? fun a => key a = key new) = some old →
        (l.filter fun a => scope a = scope new) = [if body old = body new then new else old] := by
  unfold Settled
  cases hfi : l.find? fun a => key a = key new with
  | none =>
    have hab : ∀ a ∈ l, key a ≠ key new := by simpa using hfi
    have hs : ∀ a ∈ l, scope a ≠ scope new := fun a ha h => hab a ha (hf a new h)
    have hn : (l.filter fun a => scope a = scope new) = [] := by simpa using hs
    rw [upsert_of_absent hab]
    simp [hn]
  | some old =>
    obtain ⟨hk, before, after, rfl, hb⟩ := find?_eq_some_iff_append.mp hfi
    have hk : key old = key new := by simpa using hk
    have hb : ∀ a ∈ before, key a ≠ key new := by simpa using hb
    have hs : (before.filter fun a => scope a = scope new) = [] := by
      simpa using fun a ha h => hb a ha (hf a new h)
    rw [upsert_of_found hk hb]
    simp only [Option.some.injEq, forall_eq']
    by_cases hbo : body old = body new
    · simp [hbo]
    · rw [if_neg hbo, if_neg hbo]
      by_cases ho : scope old = scope new
      · simp [hs, ho]
      · -- the entry that was replaced had a scope of its own
        refine iff_of_false (fun h => ?_) fun h => ?_
        · have hl := congrArg length h.2
          simp [ho] at hl
        · have hm : old ∈ (before ++ old :: after).filter fun a => scope a = scope new := h ▸ mem_singleton_self old
          exact ho (of_decide_eq_true (mem_filter.mp hm).2)

end Scope

end Upsert

/-! ## The last write wins -/

section LastWrite

variable {σ ε : Type}

/-- When each step sets one key, a key holds what the last step for it has set. -/
theorem lookup_foldl (lookup : σ → K → Option B) (step : σ → ε → σ) (keyOf : ε → K) (valueOf : ε → Option B)
    (hstep : ∀ s e k, lookup (step s e) k = if k = keyOf e then valueOf e else lookup s k) (k : K) :
    ∀ (es : List ε) s, lookup (es.foldl step s) k =
      match (es.filter fun e => keyOf e = k).getLast? with
      | some e => valueOf e
      | none => lookup s k
  | [], s => rfl
  | e :: es, s => by
    rw [foldl_cons, lookup_foldl lookup step keyOf valueOf hstep k es, hstep]
    by_cases h : keyOf e = k
    · rw [filter_cons_of_pos (by simpa using h), getLast?_cons, if_pos h.symm]
      cases (es.filter fun e => keyOf e = k).getLast? <;> rfl
    · rw [filter_cons_of_neg (by simpa using h), if_neg (Ne.symm h)]

theorem getLast?_filter_eq_some_iff {r} (ha : ∀ a b, r a b → ¬ r b a) {l : List ε}
    (hs : l.Pairwise r) {p x} :
    (l.filter p).getLast? = some x ↔ (x ∈ l ∧ p x = true) ∧ ∀ y ∈ l, p y = true → y = x ∨ r y x := by
  -- The last entry is above every other one.
  have hlast : ∀ z, (l.filter p).getLast? = some z → (z ∈ l ∧ p z = true) ∧ ∀ y ∈ l, p y = true → y = z ∨ r y z := by
    intro z hz
    obtain ⟨init, hi⟩ := getLast?_eq_some_iff.mp hz
    have hp : (init ++ [z]).Pairwise r := hi ▸ hs.filter p
    refine ⟨mem_filter.mp (hi ▸ mem_append_right _ (mem_singleton_self z)), fun y hy hpy => ?_⟩
    have hm : y ∈ init ++ [z] := hi ▸ mem_filter.mpr ⟨hy, hpy⟩
    rcases mem_append.mp hm with hy | hy
    · exact .inr ((pairwise_append.mp hp).2.2 y hy z (mem_singleton_self z))
    · exact .inl (mem_singleton.mp hy)
  constructor
  · exact hlast x
  · rintro ⟨⟨hx, hpx⟩, hma⟩
    have hne : l.filter p ≠ [] := ne_nil_of_mem (mem_filter.mpr ⟨hx, hpx⟩)
    obtain ⟨z, hz⟩ : ∃ z, (l.filter p).getLast? = some z := ⟨_, getLast?_eq_some_getLast hne⟩
    obtain ⟨⟨hzm, hpz⟩, hza⟩ := hlast z hz
    rw [hz]
    rcases hza x hx hpx with rfl | hxz
    · rfl
    · rcases hma z hzm hpz with rfl | hzx
      · rfl
      · exact absurd hzx (ha x z hxz)

end LastWrite

end KeyedList
