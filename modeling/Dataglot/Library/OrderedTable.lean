/-
Tables that are read in the order of their keys.

A listing is put in order by the keys, so two listings are the same once they have the same
members (`eq_of_increasing`). Under a pair as key, `scan` lists what has the first component
given, in the order of the second.
-/
import Mathlib

namespace OrderedTable
open List

abbrev Table (K V : Type) := Finmap fun _ : K => V

/-- A listing in the order of a rank is determined by its members. -/
theorem eq_of_increasing {A L : Type} [Preorder L] (rank : A → L) {xs ys : List A}
    (hxs : xs.Pairwise fun a b => rank a < rank b) (hys : ys.Pairwise fun a b => rank a < rank b)
    (hm : ∀ a, a ∈ xs ↔ a ∈ ys) : xs = ys := by
  have hn : ∀ {zs : List A}, (zs.Pairwise fun a b => rank a < rank b) → zs.Nodup :=
    fun h => h.imp fun hlt heq => absurd (congrArg rank heq) hlt.ne
  have hp : xs.Perm ys := (perm_ext_iff_of_nodup (hn hxs) (hn hys)).mpr hm
  exact hp.eq_of_pairwise (fun a b _ _ hab hba => absurd hba hab.asymm) hxs hys

section InOrder

variable {A L : Type} [LinearOrder L] {rank : A ↪ L} {s : Finset A}

instance isTrans_rank : IsTrans A fun a b => rank a ≤ rank b := ⟨fun _ _ _ => le_trans⟩

instance antisymm_rank : Std.Antisymm fun a b => rank a ≤ rank b := ⟨fun _ _ h h' => rank.injective (le_antisymm h h')⟩

instance total_rank : Std.Total fun a b => rank a ≤ rank b := ⟨fun a b => le_total (rank a) (rank b)⟩

/-- A set in the order of a rank. -/
def inOrder (rank : A ↪ L) (s : Finset A) : List A := s.sort fun a b => rank a ≤ rank b

@[simp] theorem mem_inOrder {a} : a ∈ inOrder rank s ↔ a ∈ s := Finset.mem_sort _

theorem inOrder_increasing (rank : A ↪ L) (s) : (inOrder rank s).Pairwise fun a b => rank a < rank b := by
  have hn : (inOrder rank s).Nodup := Finset.sort_nodup s _
  have hle : (inOrder rank s).Pairwise fun a b => rank a ≤ rank b := Finset.pairwise_sort s _
  refine (hle.and hn).imp fun h => ?_
  exact lt_of_le_of_ne h.1 fun heq => h.2 (rank.injective heq)

theorem inOrder_eq {xs} (hxs : xs.Pairwise fun a b => rank a < rank b) (hm : ∀ a, a ∈ s ↔ a ∈ xs) :
    inOrder rank s = xs :=
  eq_of_increasing rank (inOrder_increasing rank s) hxs fun a => mem_inOrder.trans (hm a)

end InOrder

section Iter

variable {K V : Type} [LinearOrder K] {t : Table K V} {k : K} {v : V}

def iter (t : Table K V) : List (K × V) :=
  (t.keys.sort (· ≤ ·)).filterMap fun k => (t.lookup k).map fun v => (k, v)

theorem mem_iter {e} : e ∈ iter t ↔ t.lookup e.1 = some e.2 := by
  simp only [iter, mem_filterMap, Finset.mem_sort, Option.map_eq_some_iff]
  constructor
  · rintro ⟨k, -, v, hv, rfl⟩
    exact hv
  · intro h
    exact ⟨e.1, Finmap.mem_keys.mpr (Finmap.mem_of_lookup_eq_some h), e.2, h, rfl⟩

theorem iter_increasing (t : Table K V) : (iter t).Pairwise fun a b => a.1 < b.1 := by
  refine Pairwise.filterMap _ ?_ (Finset.sortedLT_sort t.keys).pairwise
  intro k k' hlt a ha b hb
  obtain ⟨v, -, rfl⟩ := Option.map_eq_some_iff.mp ha
  obtain ⟨v', -, rfl⟩ := Option.map_eq_some_iff.mp hb
  exact hlt

theorem filterMap_iter_increasing {B L : Type} [Preorder L] (rank : B → L) (pick)
    (hp : ∀ e e', e.1 < e'.1 → ∀ b, pick e = some b → ∀ b', pick e' = some b' → rank b < rank b') :
    ((iter t).filterMap pick).Pairwise fun b b' => rank b < rank b' :=
  Pairwise.filterMap pick hp (iter_increasing t)

theorem mem_filterMap_iter {B : Type} {pick} {b : B} :
    b ∈ (iter t).filterMap pick ↔ ∃ k v, t.lookup k = some v ∧ pick (k, v) = some b := by
  simp only [mem_filterMap, mem_iter, Prod.exists]

end Iter

/-! ## Keys with a first component -/

section Scan

variable {A B V : Type} [LinearOrder A] [LinearOrder B]

/-- The entries with the first component given, by the second. -/
def scan (t : Table (A ×ₗ B) V) (a : A) : List (B × V) :=
  (iter t).filterMap fun (k, v) => if (ofLex k).1 = a then some ((ofLex k).2, v) else none

variable {t : Table (A ×ₗ B) V} {a : A}

theorem mem_scan {e : B × V} : e ∈ scan t a ↔ t.lookup (toLex (a, e.1)) = some e.2 := by
  rw [scan, mem_filterMap_iter]
  constructor
  · rintro ⟨k, v, hv, hp⟩
    dsimp only at hp
    split_ifs at hp with hk
    cases hp
    rw [← hk]
    exact hv
  · intro h
    exact ⟨toLex (a, e.1), e.2, h, if_pos rfl⟩

theorem lt_of_toLex_lt {k k' : A ×ₗ B} (hlt : k < k') (h : (ofLex k).1 = (ofLex k').1) :
    (ofLex k).2 < (ofLex k').2 := by
  rcases Prod.Lex.lt_iff.mp hlt with hf | ⟨-, hs⟩
  · exact absurd h hf.ne
  · exact hs

theorem fst_lt_of_toLex_lt {k k' : A ×ₗ B} (hlt : k < k') (h : (ofLex k).2 = (ofLex k').2) :
    (ofLex k).1 < (ofLex k').1 := by
  rcases Prod.Lex.lt_iff.mp hlt with hf | ⟨-, hs⟩
  · exact hf
  · exact absurd h hs.ne

theorem scan_increasing (t : Table (A ×ₗ B) V) (a) : (scan t a).Pairwise fun e e' => e.1 < e'.1 := by
  refine filterMap_iter_increasing Prod.fst _ fun e e' hlt b hb b' hb' => ?_
  dsimp only at hb hb'
  split_ifs at hb hb' with hk hk'
  cases hb
  cases hb'
  exact lt_of_toLex_lt hlt (hk.trans hk'.symm)

theorem scan_eq_iter {m} (h : ∀ b, t.lookup (toLex (a, b)) = m.lookup b) : scan t a = iter m :=
  eq_of_increasing Prod.fst (scan_increasing t a) (iter_increasing m) fun e => by rw [mem_scan, mem_iter, h]

theorem lookup_scan (t : Table (A ×ₗ B) V) (a b) : (scan t a).lookup b = t.lookup (toLex (a, b)) := by
  cases hl : t.lookup (toLex (a, b)) with
  | none =>
    rw [lookup_eq_none_iff]
    intro e he
    rw [mem_scan] at he
    rw [bne_iff_ne]
    rintro rfl
    rw [hl] at he
    cases he
  | some v =>
    obtain ⟨before, after, hs⟩ := append_of_mem (mem_scan.mpr hl : (b, v) ∈ scan t a)
    have hb : ∀ e ∈ before, e.1 < b := fun e he =>
      (pairwise_append.mp (hs ▸ scan_increasing t a)).2.2 e he _ mem_cons_self
    rw [lookup_eq_some_iff]
    exact ⟨before, after, hs, fun e he => bne_iff_ne.mpr (hb e he).ne'⟩

end Scan

theorem lookup_map_snd {B V W : Type} [BEq B] (f : V → W) (b) : ∀ l : List (B × V),
    (l.map fun e => (e.1, f e.2)).lookup b = (l.lookup b).map f
  | [] => rfl
  | (b', v) :: l => by
    rw [map_cons, lookup_cons, lookup_cons, lookup_map_snd f b l]
    dsimp only
    cases b == b' <;> rfl

end OrderedTable
