/-
Which mask the enforcer picks on a field that masks have been propagated to.

Masks for everyone rank the same, so the first one found is picked, and the full name of
the table is looked up first. A propagated mask is under the full name. It is not made
where a mask is configured under a name that `dataset_of` completes to the field's table,
but a mask on a bare or partial name is on tables that `dataset_of` does not take it to.
-/
import Dataglot.Server.Propagation

namespace Dataglot
open DataFusion ColumnMaskingEnforcer List
open ColumnMaskingEnforcer (applicableRank pickRule)

def ColumnMask.Unscoped (m : ColumnMask) : Prop := m.org = none ∧ m.groups = none

theorem ColumnMask.Unscoped.applicableRank {m : ColumnMask} (h : m.Unscoped) (id) :
    applicableRank m.org m.groups id = some 0 := by
  rw [h.1, h.2]
  simp [ColumnMaskingEnforcer.applicableRank, orgRuleApplies_none, subjectMatches_none]

/-! ## The first mask found -/

/-- The masks on a column under some names of tables, in the order of the names. -/
def masksAt (masks : List ColumnMask) (column : String) (keys : List TableReference) : List ColumnMask :=
  keys.flatMap fun cand => masks.filter fun m => (m.table, m.column) = (cand, column)

theorem mem_masksAt {masks column keys r} :
    r ∈ masksAt masks column keys ↔ r ∈ masks ∧ r.column = column ∧ r.table ∈ keys := by
  simp only [masksAt, mem_flatMap, mem_filter, decide_eq_true_eq, Prod.mk.injEq]
  constructor
  · rintro ⟨cand, hc, hr, rfl, rfl⟩
    exact ⟨hr, rfl, hc⟩
  · rintro ⟨hr, rfl, hc⟩
    exact ⟨r.table, hc, hr, rfl, rfl⟩

theorem foldl_pickRule_same_rank {id rank} : ∀ {rules : List (ScopedRule Expr)},
    (∀ r ∈ rules, applicableRank r.org r.groups id = some rank) → ∀ e,
    rules.foldl (pickRule id) (some (rank, e)) = some (rank, e)
  | [], _, _ => rfl
  | r :: rules, h, e => by
    have hp : pickRule id (some (rank, e)) r = some (rank, e) := by
      simp [pickRule, h r mem_cons_self]
    rw [foldl_cons, hp]
    exact foldl_pickRule_same_rank (fun r' hr' => h r' (mem_cons_of_mem r hr')) e

theorem foldl_pickRule_head {id} (rank) {rules : List (ScopedRule Expr)}
    (h : ∀ r ∈ rules, applicableRank r.org r.groups id = some rank) :
    (rules.foldl (pickRule id) none).map (·.2) = rules.head?.map (·.rule) := by
  cases rules with
  | nil => rfl
  | cons r rules =>
    have hp : pickRule id none r = some (rank, r.rule) := by
      simp [pickRule, h r mem_cons_self]
    rw [foldl_cons, hp, foldl_pickRule_same_rank fun r' hr' => h r' (mem_cons_of_mem r hr')]
    rfl

section Unscoped

variable {masks : List ColumnMask} {E : ColumnMaskingEnforcer}

theorem lookupMask_unscoped (hn : new masks = .ok E) (hu : ∀ m ∈ masks, m.Unscoped)
    (defaults aliasMap id rel column) :
    ({ E with sessionDefaults := defaults } : ColumnMaskingEnforcer).lookupMask rel column aliasMap id =
      (masksAt masks column
        (({ E with sessionDefaults := defaults } : ColumnMaskingEnforcer).candidates rel aliasMap)).head?.map (·.mask) := by
  have hru : ∀ keys, ({ E with sessionDefaults := defaults } : ColumnMaskingEnforcer).applicableMasks keys column id =
      (masksAt masks column keys).map fun m => ⟨m.org, m.groups, m.mask⟩ := by
    intro keys
    unfold applicableMasks masksAt
    rw [map_flatMap]
    refine flatMap_congr fun cand _ => ?_
    rw [masks_of_new hn, filter_eq_self]
    intro r hr
    obtain ⟨m, hm, rfl⟩ := mem_map.mp hr
    have hra := (hu m (mem_filter.mp hm).1).applicableRank id
    by_contra hno
    rw [applicableRank_eq_none_iff.mpr (Bool.eq_false_iff.mpr hno)] at hra
    cases hra
  rw [lookupMask_eq, hru, foldl_pickRule_head 0, head?_map, Option.map_map]
  · rfl
  · intro r hr
    obtain ⟨m, hm, rfl⟩ := mem_map.mp hr
    exact (hu m (mem_masksAt.mp hm).1).applicableRank id

theorem masksAt_append (column keys keys') :
    masksAt masks column (keys ++ keys') = masksAt masks column keys ++ masksAt masks column keys' :=
  flatMap_append

theorem exists_candidates_eq (defaults aliasMap) (d : DatasetRef) :
    ∃ rest, ({ E with sessionDefaults := defaults } : ColumnMaskingEnforcer).candidates d.toFull aliasMap =
      [d.toFull] ++ ((matchCandidates d.toFull).tail ++ rest) := by
  unfold candidates candidateRefs
  cases defaults <;> exact ⟨_, rfl⟩

/-- A field that a mask is on gets a mask that is on it, one under the full name of its table if there is one. -/
theorem lookupMask_on (hne : new masks = .ok E) (hu : ∀ m ∈ masks, m.Unscoped)
    (defaults aliasMap id) {d} (hon : ∃ m ∈ masks, m.On d) :
    ∃ r ∈ masks, r.On d ∧
      ({ E with sessionDefaults := defaults } : ColumnMaskingEnforcer).lookupMask d.dataset.toFull d.field aliasMap id =
        some r.mask ∧
      ((∃ r' ∈ masks, r'.column = d.field ∧ r'.table = d.dataset.toFull) → r.table = d.dataset.toFull) := by
  obtain ⟨rest, hca⟩ := exists_candidates_eq (E := E) defaults aliasMap d.dataset
  rw [lookupMask_unscoped hne hu, hca, masksAt_append, masksAt_append]
  cases hf : masksAt masks d.field [d.dataset.toFull] with
  | cons r more =>
    obtain ⟨hr, hc, ht⟩ := mem_masksAt.mp (hf ▸ mem_cons_self : r ∈ masksAt masks d.field _)
    have ht : r.table = d.dataset.toFull := mem_singleton.mp ht
    refine ⟨r, hr, ⟨hc, ?_⟩, rfl, fun _ => ht⟩
    rw [ht]
    exact mem_cons_self
  | nil =>
    have hn : ¬ ∃ r' ∈ masks, r'.column = d.field ∧ r'.table = d.dataset.toFull := by
      rintro ⟨r', hr', hc, ht⟩
      have hme : r' ∈ masksAt masks d.field [d.dataset.toFull] :=
        mem_masksAt.mpr ⟨hr', hc, mem_singleton.mpr ht⟩
      rw [hf] at hme
      cases hme
    obtain ⟨m, hm, hc, ht⟩ := hon
    have hme : m ∈ masksAt masks d.field (matchCandidates d.dataset.toFull).tail := by
      refine mem_masksAt.mpr ⟨hm, hc, ?_⟩
      rcases mem_cons.mp ht with ht | ht
      · exact absurd ⟨m, hm, hc, ht⟩ hn
      · exact ht
    cases hl : masksAt masks d.field (matchCandidates d.dataset.toFull).tail with
    | nil =>
      rw [hl] at hme
      cases hme
    | cons r more =>
      obtain ⟨hr, hc, ht⟩ := mem_masksAt.mp (hl ▸ mem_cons_self : r ∈ masksAt masks d.field _)
      exact ⟨r, hr, ⟨hc, mem_of_mem_tail ht⟩, rfl, fun h => absurd h hn⟩

end Unscoped

/-! ## Configured and propagated masks -/

variable {configured : List ColumnMask} {graph : LineageGraph} {through : Bool} {E : ColumnMaskingEnforcer}

theorem unscoped_propagateMasks (hu : ∀ m ∈ configured, m.Unscoped) :
    ∀ r ∈ propagateMasks configured graph through, r.Unscoped := by
  intro r hr
  rcases mem_propagateMasks.mp hr with hr | ⟨first, d, -, hf, rfl⟩
  · exact hu r hr
  · obtain ⟨before, after, rfl, -⟩ := hf
    exact ⟨(hu first (by simp)).1, rfl⟩

theorem FirstToReach.unique {d m m'} (h : FirstToReach configured graph through d m)
    (h' : FirstToReach configured graph through d m') : m = m' := by
  have hm := find?_offers.mpr h
  rw [find?_offers.mpr h'] at hm
  cases hm
  rfl

theorem configured_of_full {d m} (hm : m ∈ configured) (hc : m.column = d.field)
    (ht : m.table = d.dataset.toFull) : Configured configured d :=
  ⟨m, hm, by rw [ht]; rfl, hc⟩

/-- **Configured before propagated.** On each field that a configured mask is on, the enforcer picks the expression of
a configured mask on that field, if and only if wherever a mask reaches such a field and none is configured on it
under the name the lineage knows, the first mask to reach it has the expression of a configured mask on it. -/
theorem configured_mask_wins_iff (configured : List ColumnMask) (graph : LineageGraph) (through : Bool)
    (hunscoped : ∀ m ∈ configured, m.Unscoped)
    (hnew : ColumnMaskingEnforcer.new (propagateMasks configured graph through) = .ok E)
    (defaults : Option (String × String)) (aliasMap : AliasMap) (id : Identity) :
    (∀ d : FieldRef, (∃ m ∈ configured, m.On d) → ∃ m ∈ configured, m.On d ∧
      ({ E with sessionDefaults := defaults } : ColumnMaskingEnforcer).lookupMask d.dataset.toFull d.field aliasMap id =
        some m.mask) ↔
    ∀ (d : FieldRef) (first : ColumnMask), (∃ m ∈ configured, m.On d) → ¬ Configured configured d →
      FirstToReach configured graph through d first → ∃ m ∈ configured, m.On d ∧ m.mask = first.mask := by
  have hl : ∀ d, (∃ m ∈ configured, m.On d) → _ := fun d ⟨m, hm, hon⟩ =>
    lookupMask_on hnew (unscoped_propagateMasks hunscoped) defaults aliasMap id
      ⟨m, mem_propagateMasks.mpr (.inl hm), hon⟩
  constructor
  · intro hw d first hon hn hf
    obtain ⟨m, hm, hmo, hp⟩ := hw d hon
    obtain ⟨r, hr, hro, hp', hfu⟩ := hl d hon
    have hi : inheritedMask first d ∈ propagateMasks configured graph through :=
      mem_propagateMasks.mpr (.inr ⟨first, d, hn, hf, rfl⟩)
    have ht : r.table = d.dataset.toFull := hfu ⟨_, hi, rfl, rfl⟩
    rw [hp] at hp'
    refine ⟨m, hm, hmo, (Option.some.inj hp').trans ?_⟩
    rcases mem_propagateMasks.mp hr with hr | ⟨first', d', -, hf', rfl⟩
    · exact absurd (configured_of_full hr hro.1 ht) hn
    · obtain rfl := inheritedMask_on.mp hro
      rw [hf.unique hf']
      rfl
  · intro hc d hon
    obtain ⟨r, hr, hro, hp, -⟩ := hl d hon
    rcases mem_propagateMasks.mp hr with hr | ⟨first, d', hn, hf, rfl⟩
    · exact ⟨r, hr, hro, hp⟩
    · obtain rfl := inheritedMask_on.mp hro
      obtain ⟨m, hm, hmo, hma⟩ := hc d' first hon hn hf
      exact ⟨m, hm, hmo, by rw [hma]; exact hp⟩

theorem single_configured_mask_wins :
    let mask := emailMask none none
    ∃ E, ColumnMaskingEnforcer.new (propagateMasks [mask] viewGraph false) = .ok E ∧
      ∀ d : FieldRef, (∃ m ∈ [mask], m.On d) → ∃ m ∈ [mask], m.On d ∧
        (E.withSessionDefaults "dataglot" "public").lookupMask d.dataset.toFull d.field ∅ (Identity.ofUser "ann") =
          some m.mask := by
  intro mask
  have hu : ∀ m ∈ [mask], m.Unscoped := List.forall_mem_singleton.mpr ⟨rfl, rfl⟩
  refine ⟨_, rfl, ?_⟩
  refine (configured_mask_wins_iff [mask] viewGraph false hu rfl (some ("dataglot", "public")) ∅ _).mpr ?_
  rintro d first ⟨m, hm, hon⟩ - ⟨before, after, heq, -⟩
  have hf : first ∈ [mask] := heq ▸ by simp
  rw [List.mem_singleton.mp hm] at hon
  exact ⟨mask, List.mem_singleton_self mask, hon, by rw [List.mem_singleton.mp hf]⟩

/-- The view has a mask of its own, on its bare name; the mask of the table is put on the view's full name. -/
theorem propagated_mask_beats_configured :
    let mask := emailMask none none
    let viewMask : ColumnMask := ⟨.bare "v", "email", .literal (.utf8 "hidden"), none, none⟩
    ∃ E, ColumnMaskingEnforcer.new (propagateMasks [mask, viewMask] viewGraph false) = .ok E ∧
      mask.Unscoped ∧ viewMask.Unscoped ∧ viewMask.On viewEmail ∧ ¬ mask.On viewEmail ∧
      E.lookupMask viewEmail.dataset.toFull viewEmail.field ∅ (Identity.ofUser "ann") = some (.literal (.utf8 "***")) :=
  ⟨_, rfl, ⟨rfl, rfl⟩, ⟨rfl, rfl⟩, by decide, by decide, rfl⟩

end Dataglot
