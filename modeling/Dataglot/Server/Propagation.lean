/-
Masks that follow the lineage (`propagation.rs`). A mask on a field is put on every field
that derives from it, under the full name of its table and for the org of the mask.

A field gets one propagated mask, that of the first mask to reach it, and none where a
mask is configured; the groups of the mask are dropped. So the propagated masks are for
whom the configured ones are for only under conditions on the scopes of the masks.
-/
import Dataglot.Core.LineageGraph
import Dataglot.Policy.Mask

namespace Dataglot
open DataFusion ColumnMask List
open ColumnMaskingEnforcer (applicableRank)

/-! ## Propagation -/

def datasetOf : TableReference → DatasetRef
  | .bare table => ⟨"default", "public", table⟩
  | .partialRef schema table => ⟨"default", schema, table⟩
  | .full catalog schema table => ⟨catalog, schema, table⟩

def maskMatchesSource (mask : TableReference) (source : DatasetRef) : Bool :=
  match mask with
  | .bare table => table == source.table
  | .partialRef schema table => table == source.table && schema == source.schema
  | .full catalog schema table => table == source.table && schema == source.schema && catalog == source.catalog

/-- The table of a dataset under its full name. -/
def DatasetRef.toFull (dataset : DatasetRef) : TableReference := .full dataset.catalog dataset.schema dataset.table

/-- The variables of `propagate_masks`. -/
structure Propagating where
  seen : List FieldRef
  out : List ColumnMask

/-- The mask that a field inherits. -/
def inheritedMask (mask : ColumnMask) (desc : FieldRef) : ColumnMask :=
  ⟨desc.dataset.toFull, desc.field, mask.mask, mask.org, none⟩

/-- The body of the loops. -/
def cover (mask : ColumnMask) (acc : Propagating) (desc : FieldRef) : Propagating :=
  if desc ∈ acc.seen then acc else ⟨desc :: acc.seen, acc.out ++ [inheritedMask mask desc]⟩

/-- The source fields that a mask is on. -/
def matchedFields (graph : LineageGraph) (mask : ColumnMask) : List FieldRef :=
  graph.sourceFields.filter fun src => src.field == mask.column && maskMatchesSource mask.table src.dataset

def propagateMasks (configured : List ColumnMask) (graph : LineageGraph) (propagateThroughAggregation : Bool) :
    List ColumnMask :=
  let seeded : Propagating := ⟨configured.map fun m => ⟨datasetOf m.table, m.column⟩, configured⟩
  let covered := configured.foldl (fun acc mask =>
    (matchedFields graph mask).foldl (fun acc source =>
      (graph.descendants source propagateThroughAggregation).foldl (cover mask) acc) acc) seeded
  covered.out

/-! ## Scopes -/

namespace ColumnMask

def AppliesTo (m : ColumnMask) (id : Identity) : Prop := (applicableRank m.org m.groups id).isSome = true

instance (m : ColumnMask) (id : Identity) : Decidable (m.AppliesTo id) :=
  inferInstanceAs (Decidable ((applicableRank m.org m.groups id).isSome = true))

/-- Whom a mask is for, of its org: everyone, or the members of one of its groups. -/
def scopes (m : ColumnMask) : List (Option OrgGroupId) :=
  match m.groups with
  | none => [none]
  | some groups => groups.map some

/-- The mask is for all sessions of an org (of any org, if there is none) that are in a scope. -/
def IsFor (m : ColumnMask) (org : Option String) (scope : Option OrgGroupId) : Prop :=
  (m.org = none ∨ m.org = org) ∧ (m.groups = none ∨ ∃ g groups, scope = some g ∧ m.groups = some groups ∧ g ∈ groups)

/-- The mask is on the field, as the enforcer finds masks for the table's full name. -/
def On (m : ColumnMask) (d : FieldRef) : Prop := m.column = d.field ∧ m.table ∈ matchCandidates d.dataset.toFull

instance (m : ColumnMask) (d : FieldRef) : Decidable (m.On d) :=
  inferInstanceAs (Decidable (m.column = d.field ∧ m.table ∈ matchCandidates d.dataset.toFull))

end ColumnMask

/-- A session of an org that is in a scope. -/
structure InScope (org : Option String) (scope : Option OrgGroupId) (id : Identity) : Prop where
  org_applies : orgRuleApplies org id = true
  in_group : ∀ g, scope = some g → g.asStr ∈ id.orgGroups

/-- The session that is in a scope and in no other. -/
def sessionOf (org : Option String) (scope : Option OrgGroupId) : Identity :=
  ⟨none, org, scope.toList.map (·.asStr), [], false⟩

namespace ColumnMask

variable {m r : ColumnMask} {id : Identity} {org : Option String} {scope : Option OrgGroupId}

theorem appliesTo_iff :
    m.AppliesTo id ↔ orgRuleApplies m.org id = true ∧ subjectMatches m.groups id.orgGroups = true := by
  unfold AppliesTo applicableRank
  cases orgRuleApplies m.org id <;> cases subjectMatches m.groups id.orgGroups <;> simp

theorem subjectMatches_some {groups names} :
    subjectMatches (some groups) names = true ↔ ∃ g ∈ groups, g.asStr ∈ names := by
  simp [subjectMatches]

theorem appliesTo_iff_inScope : m.AppliesTo id ↔ ∃ scope ∈ m.scopes, InScope m.org scope id := by
  rw [appliesTo_iff]
  unfold scopes
  cases m.groups with
  | none =>
    constructor
    · rintro ⟨ho, -⟩
      exact ⟨none, mem_singleton_self none, ho, fun g hg => by cases hg⟩
    · rintro ⟨scope, -, hs⟩
      exact ⟨hs.org_applies, rfl⟩
  | some groups =>
    rw [subjectMatches_some]
    constructor
    · rintro ⟨ho, g, hg, hin⟩
      exact ⟨some g, mem_map_of_mem hg, ho, fun g' hg' => by cases hg'; exact hin⟩
    · rintro ⟨scope, hs, hid⟩
      obtain ⟨g, hg, rfl⟩ := mem_map.mp hs
      exact ⟨hid.org_applies, g, hg, hid.in_group g rfl⟩

theorem inScope_sessionOf : InScope org scope (sessionOf org scope) where
  org_applies := by simp [orgRuleApplies, sessionOf]
  in_group := by
    rintro g rfl
    exact mem_singleton_self g.asStr

theorem IsFor.appliesTo (h : r.IsFor org scope) (hid : InScope org scope id) : r.AppliesTo id := by
  obtain ⟨ho, hgr⟩ := h
  refine appliesTo_iff.mpr ⟨?_, ?_⟩
  · rcases ho with ho | ho
    · rw [ho, orgRuleApplies_none]
    · rw [ho]
      exact hid.org_applies
  · rcases hgr with hgr | ⟨g, groups, rfl, hgr, hg⟩
    · rw [hgr, subjectMatches_none]
    · rw [hgr]
      exact subjectMatches_some.mpr ⟨g, hg, hid.in_group g rfl⟩

theorem isFor_iff : r.IsFor org scope ↔ r.AppliesTo (sessionOf org scope) := by
  constructor
  · intro h
    exact h.appliesTo inScope_sessionOf
  · intro h
    obtain ⟨ho, hgr⟩ := appliesTo_iff.mp h
    refine ⟨by simpa [orgRuleApplies, sessionOf] using ho, ?_⟩
    cases hr : r.groups with
    | none => exact .inl rfl
    | some groups =>
      rw [hr] at hgr
      obtain ⟨g, hg, hin⟩ := subjectMatches_some.mp hgr
      obtain ⟨g', hg', heq⟩ := mem_map.mp hin
      obtain rfl : g' = g := by
        cases g
        cases g'
        exact congrArg OrgGroupId.mk heq
      exact .inr ⟨g', groups, Option.mem_toList.mp hg', rfl, hg⟩

/-- Some masks are for everyone that a mask is for when one of them is for each of its scopes. -/
theorem covered_iff (m : ColumnMask) (M : ColumnMask → Prop) :
    (∀ id, m.AppliesTo id → ∃ r, M r ∧ r.AppliesTo id) ↔ ∀ scope ∈ m.scopes, ∃ r, M r ∧ r.IsFor m.org scope := by
  constructor
  · intro hc scope hs
    have ha : m.AppliesTo (sessionOf m.org scope) := appliesTo_iff_inScope.mpr ⟨scope, hs, inScope_sessionOf⟩
    obtain ⟨r, hr, ha'⟩ := hc _ ha
    exact ⟨r, hr, isFor_iff.mpr ha'⟩
  · intro hsc id ha
    obtain ⟨scope, hs, hid⟩ := appliesTo_iff_inScope.mp ha
    obtain ⟨r, hr, hf⟩ := hsc scope hs
    exact ⟨r, hr, hf.appliesTo hid⟩

end ColumnMask

/-! ## What is propagated -/

variable {configured : List ColumnMask} {graph : LineageGraph} {through : Bool}

/-- The mask is on a source field that a field derives from. -/
def Reaches (graph : LineageGraph) (through : Bool) (m : ColumnMask) (d : FieldRef) : Prop :=
  ∃ source ∈ graph.sourceFields, m.On source ∧ graph.Descends through source d

/-- The first of the masks, in their order, that reaches a field. -/
def FirstToReach (configured : List ColumnMask) (graph : LineageGraph) (through : Bool) (d : FieldRef) (m : ColumnMask) :
    Prop :=
  ∃ before after, configured = before ++ m :: after ∧ Reaches graph through m d ∧
    ∀ m' ∈ before, ¬ Reaches graph through m' d

/-- A mask is configured on the field, by the name that the lineage knows its table under. -/
def Configured (configured : List ColumnMask) (d : FieldRef) : Prop :=
  ∃ m ∈ configured, datasetOf m.table = d.dataset ∧ m.column = d.field

theorem maskMatchesSource_iff {table source} :
    maskMatchesSource table source = true ↔ table ∈ matchCandidates source.toFull := by
  obtain ⟨catalog, schema, name⟩ := source
  cases table <;> simp [maskMatchesSource, matchCandidates, DatasetRef.toFull, and_comm]

variable {m c : ColumnMask} {d : FieldRef}

theorem mem_matchedFields {source} : source ∈ matchedFields graph m ↔ source ∈ graph.sourceFields ∧ m.On source := by
  rw [matchedFields, mem_filter, Bool.and_eq_true, beq_iff_eq, maskMatchesSource_iff, On, eq_comm]

/-- A mask and the fields it reaches, in the order in which it is offered to them. -/
def offersOf (graph : LineageGraph) (through : Bool) (mask : ColumnMask) : List (ColumnMask × FieldRef) :=
  (matchedFields graph mask).flatMap fun source => (graph.descendants source through).map fun desc => (mask, desc)

theorem mem_offersOf : (m, d) ∈ offersOf graph through c ↔ m = c ∧ Reaches graph through c d := by
  simp only [offersOf, mem_flatMap, mem_map, mem_matchedFields, LineageGraph.mem_descendants]
  constructor
  · rintro ⟨source, ⟨hs, hon⟩, desc, hd, heq⟩
    cases heq
    exact ⟨rfl, source, hs, hon, hd⟩
  · rintro ⟨rfl, source, hs, hon, hd⟩
    exact ⟨source, ⟨hs, hon⟩, d, hd, rfl⟩

theorem propagateMasks_eq : propagateMasks configured graph through =
      ((configured.flatMap (offersOf graph through)).foldl (fun acc offer => cover offer.1 acc offer.2)
        ⟨configured.map fun m => ⟨datasetOf m.table, m.column⟩, configured⟩).out := by
  simp only [offersOf, foldl_flatMap, foldl_map]
  rfl

theorem foldl_cover : ∀ (offers : List (ColumnMask × FieldRef)) acc, ∃ new,
    (offers.foldl (fun acc offer => cover offer.1 acc offer.2) acc).out = acc.out ++ new ∧
      ∀ r, r ∈ new ↔ ∃ m d, d ∉ acc.seen ∧ offers.find? (fun offer => offer.2 = d) = some (m, d) ∧ r = inheritedMask m d
  | [], acc => ⟨[], by simp⟩
  | (mask, desc) :: offers, acc => by
    rw [foldl_cons]
    obtain ⟨new, ho, hn⟩ := foldl_cover offers (cover mask acc desc)
    by_cases hs : desc ∈ acc.seen
    · rw [cover, if_pos hs] at ho hn ⊢
      refine ⟨new, ho, fun r => (hn r).trans ?_⟩
      refine exists_congr fun m => exists_congr fun d => and_congr_right fun hd => ?_
      have hne : desc ≠ d := fun h => hd (h ▸ hs)
      rw [find?_cons_of_neg (by simpa using hne)]
    · rw [cover, if_neg hs] at ho hn ⊢
      refine ⟨inheritedMask mask desc :: new, by rw [ho]; simp, fun r => ?_⟩
      rw [mem_cons, hn]
      constructor
      · rintro (rfl | ⟨m, d, hd, hf, rfl⟩)
        · exact ⟨mask, desc, hs, find?_cons_of_pos (by simp), rfl⟩
        · rw [mem_cons, not_or] at hd
          refine ⟨m, d, hd.2, ?_, rfl⟩
          rw [find?_cons_of_neg (by simpa using Ne.symm hd.1)]
          exact hf
      · rintro ⟨m, d, hd, hf, rfl⟩
        by_cases hde : desc = d
        · subst hde
          rw [find?_cons_of_pos (by simp)] at hf
          cases hf
          exact .inl rfl
        · rw [find?_cons_of_neg (by simpa using hde)] at hf
          exact .inr ⟨m, d, by simpa using ⟨Ne.symm hde, hd⟩, hf, rfl⟩

theorem firstToReach_cons {cs} : FirstToReach (c :: cs) graph through d m ↔
      (Reaches graph through c d ∧ m = c) ∨ (¬ Reaches graph through c d ∧ FirstToReach cs graph through d m) := by
  constructor
  · rintro ⟨before, after, heq, hm, hb⟩
    cases before with
    | nil =>
      cases heq
      exact .inl ⟨hm, rfl⟩
    | cons b before =>
      cases heq
      exact .inr ⟨hb c mem_cons_self, before, after, rfl, hm, fun m' hm' => hb m' (mem_cons_of_mem c hm')⟩
  · rintro (⟨hc, rfl⟩ | ⟨hc, before, after, rfl, hm, hb⟩)
    · exact ⟨[], cs, rfl, hc, fun m' hm' => (not_mem_nil hm').elim⟩
    · refine ⟨c :: before, after, rfl, hm, fun m' hm' => ?_⟩
      rcases mem_cons.mp hm' with rfl | hm'
      · exact hc
      · exact hb m' hm'

theorem find?_offersOf (h : Reaches graph through c d) :
    (offersOf graph through c).find? (fun offer => offer.2 = d) = some (c, d) := by
  have hme : (c, d) ∈ offersOf graph through c := mem_offersOf.mpr ⟨rfl, h⟩
  cases hf : (offersOf graph through c).find? (fun offer => offer.2 = d) with
  | none => exact absurd (decide_eq_true rfl) (find?_eq_none.mp hf (c, d) hme)
  | some offer =>
    obtain ⟨m, d'⟩ := offer
    have hd : d' = d := by simpa using find?_some hf
    have hm := (mem_offersOf.mp (mem_of_find?_eq_some hf)).1
    rw [hm, hd]

theorem find?_offers : ∀ {configured},
    (configured.flatMap (offersOf graph through)).find? (fun offer => offer.2 = d) = some (m, d) ↔
      FirstToReach configured graph through d m
  | [] => by simp [FirstToReach]
  | c :: cs => by
    rw [flatMap_cons, find?_append, firstToReach_cons, ← find?_offers]
    by_cases hc : Reaches graph through c d
    · rw [find?_offersOf hc]
      simp [hc, eq_comm]
    · have hn : (offersOf graph through c).find? (fun offer => offer.2 = d) = none := by
        rw [find?_eq_none]
        rintro ⟨m', d'⟩ hm hd
        obtain rfl : d' = d := by simpa using hd
        exact hc (mem_offersOf.mp hm).2
      rw [hn]
      simp [hc]

/-- The configured masks, and behind them one inherited mask for each field that is reached and has none
configured. -/
theorem propagateMasks_spec (configured graph through) :
    ∃ inherited, propagateMasks configured graph through = configured ++ inherited ∧
    ∀ r, r ∈ inherited ↔ ∃ first d, ¬ Configured configured d ∧ FirstToReach configured graph through d first ∧
      r = inheritedMask first d := by
  obtain ⟨inherited, ho, hm⟩ := foldl_cover (configured.flatMap (offersOf graph through))
    ⟨configured.map fun m => ⟨datasetOf m.table, m.column⟩, configured⟩
  refine ⟨inherited, propagateMasks_eq.trans ho, fun r => (hm r).trans ?_⟩
  have hs : ∀ d, d ∈ (configured.map fun m => (⟨datasetOf m.table, m.column⟩ : FieldRef)) ↔ Configured configured d := by
    intro d
    rw [mem_map]
    refine exists_congr fun m => and_congr_right fun _ => ?_
    rw [FieldRef.mk.injEq]
  simp only [hs, find?_offers]

/-! ## Scopes of propagated masks -/

theorem inheritedMask_on {d'} : (inheritedMask m d').On d ↔ d' = d := by
  obtain ⟨⟨catalog, schema, table⟩, field⟩ := d
  obtain ⟨⟨catalog', schema', table'⟩, field'⟩ := d'
  simp [On, inheritedMask, DatasetRef.toFull, matchCandidates, and_comm]

theorem inheritedMask_isFor {org scope} : (inheritedMask m d).IsFor org scope ↔ m.org = none ∨ m.org = org := by
  simp [IsFor, inheritedMask]

theorem mem_propagateMasks {r} : r ∈ propagateMasks configured graph through ↔ r ∈ configured ∨
    ∃ first d, ¬ Configured configured d ∧ FirstToReach configured graph through d first ∧ r = inheritedMask first d := by
  obtain ⟨inherited, heq, hi⟩ := propagateMasks_spec configured graph through
  rw [heq, mem_append, hi]

theorem mem_propagated {r} : r ∈ (propagateMasks configured graph through).drop configured.length ↔
    ∃ first d, ¬ Configured configured d ∧ FirstToReach configured graph through d first ∧ r = inheritedMask first d := by
  obtain ⟨inherited, heq, hi⟩ := propagateMasks_spec configured graph through
  rw [heq, drop_left, hi]

theorem exists_mask_isFor_iff {org scope} :
    (∃ r, (r ∈ propagateMasks configured graph through ∧ r.On d) ∧ r.IsFor org scope) ↔
      (∃ r ∈ configured, r.On d ∧ r.IsFor org scope) ∨
        ¬ Configured configured d ∧
          ∃ first, FirstToReach configured graph through d first ∧ (first.org = none ∨ first.org = org) := by
  constructor
  · rintro ⟨r, ⟨hr, hon⟩, hfo⟩
    rcases mem_propagateMasks.mp hr with hr | ⟨first, d', hn, hf, rfl⟩
    · exact .inl ⟨r, hr, hon, hfo⟩
    · obtain rfl := inheritedMask_on.mp hon
      exact .inr ⟨hn, first, hf, inheritedMask_isFor.mp hfo⟩
  · rintro (⟨r, hr, hon, hfo⟩ | ⟨hn, first, hf, ho⟩)
    · exact ⟨r, ⟨mem_propagateMasks.mpr (.inl hr), hon⟩, hfo⟩
    · exact ⟨inheritedMask first d, ⟨mem_propagateMasks.mpr (.inr ⟨first, d, hn, hf, rfl⟩), inheritedMask_on.mpr rfl⟩,
        inheritedMask_isFor.mpr ho⟩

theorem propagation_covers_iff :
    (∀ m ∈ configured, ∀ source ∈ matchedFields graph m, ∀ d, graph.Descends false source d → ∀ id, m.AppliesTo id →
      ∃ r ∈ propagateMasks configured graph through, r.On d ∧ r.AppliesTo id) ↔
    ∀ m ∈ configured, ∀ d, Reaches graph false m d → ∀ scope ∈ m.scopes,
      (∃ r ∈ configured, r.On d ∧ r.IsFor m.org scope) ∨
        ¬ Configured configured d ∧
          ∃ first, FirstToReach configured graph through d first ∧ (first.org = none ∨ first.org = m.org) := by
  refine forall₂_congr fun m _ => ?_
  have hco : ∀ d, (∀ id, m.AppliesTo id → ∃ r ∈ propagateMasks configured graph through, r.On d ∧ r.AppliesTo id) ↔
      ∀ scope ∈ m.scopes, (∃ r ∈ configured, r.On d ∧ r.IsFor m.org scope) ∨
        ¬ Configured configured d ∧
          ∃ first, FirstToReach configured graph through d first ∧ (first.org = none ∨ first.org = m.org) := by
    intro d
    have hc := m.covered_iff fun r => r ∈ propagateMasks configured graph through ∧ r.On d
    simp only [exists_mask_isFor_iff] at hc
    simpa only [and_assoc] using hc
  simp only [mem_matchedFields, hco]
  constructor
  · rintro h d ⟨source, hs, hon, hd⟩
    exact h source ⟨hs, hon⟩ d hd
  · rintro h source ⟨hs, hon⟩ d hd
    exact h d ⟨source, hs, hon, hd⟩

theorem propagation_justified_iff :
    (∀ r ∈ (propagateMasks configured graph through).drop configured.length, ∀ d, r.On d → ∀ id, r.AppliesTo id →
      ∃ m ∈ configured, ∃ source ∈ matchedFields graph m, graph.Descends through source d ∧ m.AppliesTo id) ↔
    ∀ d first, ¬ Configured configured d → FirstToReach configured graph through d first →
      ∃ m ∈ configured, Reaches graph through m d ∧ m.groups = none ∧ (m.org = none ∨ m.org = first.org) := by
  have hso : ∀ d id, (∃ m ∈ configured, ∃ source ∈ matchedFields graph m, graph.Descends through source d ∧ m.AppliesTo id) ↔
      ∃ m, (m ∈ configured ∧ Reaches graph through m d) ∧ m.AppliesTo id := by
    intro d id
    simp only [mem_matchedFields]
    constructor
    · rintro ⟨m, hm, source, ⟨hs, hon⟩, hd, ha⟩
      exact ⟨m, ⟨hm, source, hs, hon, hd⟩, ha⟩
    · rintro ⟨m, ⟨hm, source, hs, hon, hd⟩, ha⟩
      exact ⟨m, hm, source, ⟨hs, hon⟩, hd, ha⟩
  -- An inherited mask has one scope: everyone of its org.
  have hj : ∀ d first, (∀ id, (inheritedMask first d).AppliesTo id →
      ∃ m ∈ configured, ∃ source ∈ matchedFields graph m, graph.Descends through source d ∧ m.AppliesTo id) ↔
      ∃ m ∈ configured, Reaches graph through m d ∧ m.groups = none ∧ (m.org = none ∨ m.org = first.org) := by
    intro d first
    have hsc : (inheritedMask first d).scopes = [none] := rfl
    simp only [hso]
    rw [(inheritedMask first d).covered_iff fun m => m ∈ configured ∧ Reaches graph through m d, hsc,
      forall_mem_singleton]
    refine exists_congr fun m => and_assoc.trans (and_congr_right fun _ => and_congr_right fun _ => ?_)
    simp [IsFor, inheritedMask, and_comm]
  constructor
  · intro h d first hn hf
    exact (hj d first).mp fun id ha =>
      h _ (mem_propagated.mpr ⟨first, d, hn, hf, rfl⟩) d (inheritedMask_on.mpr rfl) id ha
  · intro h r hr d hon
    obtain ⟨first, d', hn, hf, rfl⟩ := mem_propagated.mp hr
    obtain rfl := inheritedMask_on.mp hon
    exact (hj d' first).mpr (h d' first hn hf)

/-- **Whom propagated masks are for.** Every session that a configured mask is for finds a mask on each field that
derives from the mask's column, and a propagated mask is only for sessions that a configured mask on one of the
field's sources is for, if and only if

* for each scope of a mask that reaches a field, a mask configured on the field is for it, or none is configured
  there and the first mask to reach the field is of no org or of the same org; and
* where the first mask to reach a field is propagated, a mask for all groups reaches it that is of no org or of
  the same org. -/
theorem propagation_scopes_iff (configured : List ColumnMask) (graph : LineageGraph) (through : Bool) :
    ((∀ m ∈ configured, ∀ source ∈ matchedFields graph m, ∀ d, graph.Descends false source d → ∀ id, m.AppliesTo id →
        ∃ r ∈ propagateMasks configured graph through, r.On d ∧ r.AppliesTo id) ∧
      ∀ r ∈ (propagateMasks configured graph through).drop configured.length, ∀ d, r.On d → ∀ id, r.AppliesTo id →
        ∃ m ∈ configured, ∃ source ∈ matchedFields graph m, graph.Descends through source d ∧ m.AppliesTo id) ↔
    ((∀ m ∈ configured, ∀ d, Reaches graph false m d → ∀ scope ∈ m.scopes,
        (∃ r ∈ configured, r.On d ∧ r.IsFor m.org scope) ∨
          ¬ Configured configured d ∧
            ∃ first, FirstToReach configured graph through d first ∧ (first.org = none ∨ first.org = m.org)) ∧
      ∀ d first, ¬ Configured configured d → FirstToReach configured graph through d first →
        ∃ m ∈ configured, Reaches graph through m d ∧ m.groups = none ∧ (m.org = none ∨ m.org = first.org)) :=
  and_congr propagation_covers_iff propagation_justified_iff

/-! A view that passes the column of a table through. -/

def usersEmail : FieldRef := ⟨⟨"pg", "public", "users"⟩, "email"⟩

def viewEmail : FieldRef := ⟨⟨"dataglot", "public", "v"⟩, "email"⟩

def viewGraph : LineageGraph :=
  LineageGraph.empty.addProduct viewEmail.dataset [⟨"email", [⟨usersEmail, .identity⟩]⟩]

def emailMask (org : Option String) (groups : Option (List OrgGroupId)) : ColumnMask :=
  ⟨.bare "users", "email", .literal (.utf8 "***"), org, groups⟩

/-- Two orgs mask the column: the view is masked for the first and open to the second. And a mask for contractors
is on the view for everyone. -/
theorem propagation_loses_org_and_widens_group :
    let acme := emailMask (some "acme") none
    let beta := emailMask (some "beta") none
    let contractors := emailMask none (some [⟨"contractor"⟩])
    (usersEmail ∈ matchedFields viewGraph beta ∧ viewGraph.Descends false usersEmail viewEmail ∧
      beta.AppliesTo ((Identity.ofUser "bob").withOrg "beta") ∧
      ∀ r ∈ propagateMasks [acme, beta] viewGraph false, r.On viewEmail →
        ¬ r.AppliesTo ((Identity.ofUser "bob").withOrg "beta")) ∧
    ∃ r ∈ (propagateMasks [contractors] viewGraph false).drop 1,
      r.AppliesTo (Identity.ofUser "ann") ∧ ¬ contractors.AppliesTo (Identity.ofUser "ann") := by
  intro acme beta contractors
  have hd : viewGraph.Descends false usersEmail viewEmail :=
    LineageGraph.mem_descendants.mp (show viewEmail ∈ [viewEmail] from List.mem_singleton_self _)
  refine ⟨⟨by decide, hd, by decide, fun r hr hon => ?_⟩, inheritedMask contractors viewEmail, ?_, by decide, by decide⟩
  · have hm : propagateMasks [acme, beta] viewGraph false = [acme, beta, inheritedMask acme viewEmail] := rfl
    rw [hm] at hr
    simp only [List.mem_cons, List.not_mem_nil, or_false] at hr
    rcases hr with rfl | rfl | rfl
    · decide
    · exact absurd hon (by decide)
    · decide
  · exact List.mem_singleton_self _

end Dataglot
