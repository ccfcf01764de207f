/-
The masking flag of emitted lineage (`lineage.rs` of the server): the configured masks are
laid over the column lineage of a plan, and a contribution whose field one of them names
is flagged.

The overlay knows the configured pairs of table and column only. The enforcer drops
entries of lower priority, asks for the groups of the session, and completes the names of
scans from the session's defaults where the lineage has its own. So both agree only on
configurations where none of that makes a difference.
-/
import Dataglot.Core.ColumnLineage
import Dataglot.Server.PolicyConfig
import Dataglot.Server.Propagation

namespace Dataglot
open DataFusion TableReference ColumnMaskingEnforcer List

/-! ## The overlay -/

structure MaskedColumns where
  entries : List (TableReference × String)

/-- `InputFieldContribution` with its flag. -/
structure FlaggedContribution extends InputFieldContribution where
  masking : Bool

structure FlaggedFieldLineage where
  outputField : String
  inputs : List FlaggedContribution

namespace MaskedColumns

def new (S : SqlParser) (masks : List (String × String)) : MaskedColumns :=
  ⟨masks.map fun (table, column) => (S.parseStr table, column)⟩

def ofConfig (S : SqlParser) (masks : List MaskConfig) : MaskedColumns :=
  new S (masks.map fun m => (m.table, m.column))

variable (M : MaskedColumns)

def isMasked (field : FieldRef) : Bool :=
  M.entries.any fun (tr, col) =>
    col == field.field && tr.table == field.dataset.table &&
      tr.schema.all (· == field.dataset.schema) && tr.catalog.all (· == field.dataset.catalog)

/-- One contribution under the overlay. -/
def flag (c : InputFieldContribution) : FlaggedContribution :=
  if M.isMasked c.field then ⟨⟨c.field, c.transform.combine .transformation⟩, true⟩ else ⟨c, false⟩

/-- `overlay`. Without entries it returns at once, which comes to the same. -/
def overlay (cl : ColumnLineage) : List FlaggedFieldLineage :=
  cl.map fun ofl => ⟨ofl.outputField, ofl.inputs.map M.flag⟩

theorem field_flag (c) : (M.flag c).field = c.field := by
  unfold flag
  split <;> rfl

theorem masking_flag (c) : (M.flag c).masking = M.isMasked c.field := by
  unfold flag
  split
  next h => exact h.symm
  next h => exact (Bool.eq_false_iff.mpr h).symm

/-- An entry is on a field as the enforcer finds masks for the table's full name. -/
theorem isMasked_ofConfig_iff {S masks field} : (ofConfig S masks).isMasked field = true ↔
      ∃ m ∈ masks, m.column = field.field ∧ S.parseStr m.table ∈ matchCandidates field.dataset.toFull := by
  have hm : ∀ tr, (tr.table = field.dataset.table ∧ tr.schema.all (· == field.dataset.schema) = true ∧
      tr.catalog.all (· == field.dataset.catalog) = true) ↔ tr ∈ matchCandidates field.dataset.toFull := by
    intro tr
    rw [← maskMatchesSource_iff]
    cases tr <;> simp [maskMatchesSource, table, schema, catalog, and_assoc]
  simp only [isMasked, ofConfig, new, map_map, any_map, any_eq_true, Function.comp_apply, Bool.and_eq_true,
    beq_iff_eq, and_assoc, hm]

end MaskedColumns

/-! ## The enforcer of the same configuration -/

section Config

variable {S : SqlParser} {I : IterationOrder} {masks : List MaskConfig} {rules : List ColumnMask}
  {E : ColumnMaskingEnforcer}

theorem isSome_lookupMask_config_iff (hru : buildMaskRules S I masks = .ok rules)
    (hn : new rules = .ok E) (defaults t column id) :
    (({ E with sessionDefaults := defaults } : ColumnMaskingEnforcer).lookupMask t column ∅ id).isSome ↔
      ∃ top, MaskConfig.IsTop masks top ∧ top.column = column ∧ top.AppliesTo id ∧
        ∃ r, parseTableRef S top.table = .ok r ∧
          r ∈ ({ E with sessionDefaults := defaults } : ColumnMaskingEnforcer).candidateRefs t := by
  have hca : ({ E with sessionDefaults := defaults } : ColumnMaskingEnforcer).candidates t ∅ =
      ({ E with sessionDefaults := defaults } : ColumnMaskingEnforcer).candidateRefs t := append_nil _
  have ha : ∀ m : ColumnMask, (ScopedRule.mk m.org m.groups m.mask).applies id = true ↔
      (applicableRank m.org m.groups id).isSome = true := by
    intro m
    rw [← not_iff_not, Bool.not_eq_true, Bool.not_eq_true, Option.isSome_eq_false_iff, Option.isNone_iff_eq_none]
    exact applicableRank_eq_none_iff.symm
  rw [Option.isSome_iff_ne_none, Ne, lookupMask_eq_none_iff, hca]
  simp only [masks_of_new hn]
  push Not
  constructor
  · rintro ⟨cand, hcd, r, hr, hap⟩
    obtain ⟨m, hm, rfl⟩ := mem_map.mp hr
    rw [mem_filter, decide_eq_true_iff, Prod.mk.injEq] at hm
    obtain ⟨hm, rfl, rfl⟩ := hm
    obtain ⟨top, hto, hl⟩ := (mem_buildMaskRules hru).mp hm
    obtain ⟨ht, hc, -, -⟩ := lowerMask_ok hl
    have hap := (ha m).mp (Bool.not_eq_false _ ▸ hap)
    exact ⟨top, hto, hc.symm, (applicableRank_of_lowerMask hl id).mp hap, m.table, ht, hcd⟩
  · rintro ⟨top, hto, rfl, hap, r, ht, hcd⟩
    obtain ⟨m, hm, hl⟩ := exists_rule_of_isTop hru hto
    obtain ⟨ht', hc, -, -⟩ := lowerMask_ok hl
    rw [ht] at ht'
    cases ht'
    refine ⟨m.table, hcd, ⟨m.org, m.groups, m.mask⟩, mem_map.mpr ⟨m, ?_, rfl⟩, ?_⟩
    · exact mem_filter.mpr ⟨hm, decide_eq_true (Prod.mk.injEq .. ▸ ⟨rfl, hc⟩)⟩
    · rw [(ha m).mpr ((applicableRank_of_lowerMask hl id).mpr hap)]
      exact Bool.false_ne_true.symm

def Scans (plan : LogicalPlan) (t : TableReference) : Prop :=
  ∃ projection filters fetch, LogicalPlan.Within (.tableScan t projection filters fetch) plan

theorem columnLineage_scan (t column) :
    PlanData.columnLineage ⟨fun _ => [column], fun _ => .inner, fun _ => 0, fun _ => false⟩
    (.tableScan t none [] none) = [⟨column, [⟨⟨scanDataset t, column⟩, .identity⟩]⟩] := rfl

/-- The flag of a scanned column says what the enforcer does, for every plan and session. -/
theorem flags_agree_iff (M : MaskedColumns) (E : ColumnMaskingEnforcer) :
    (∀ (D : PlanData) plan id, ∀ ofl ∈ M.overlay (D.columnLineage plan),
      ∀ c ∈ ofl.inputs, ∀ t, Scans plan t → scanDataset t = c.field.dataset →
        (c.masking = true ↔ (E.lookupMask t c.field.field ∅ id).isSome)) ↔
    ∀ t column id,
      M.isMasked ⟨scanDataset t, column⟩ = true ↔ (E.lookupMask t column ∅ id).isSome := by
  constructor
  · intro ha t column id
    have hl := columnLineage_scan t column
    have h := ha _ (.tableScan t none [] none) id _ (by rw [hl]; exact mem_singleton_self _)
      (M.flag ⟨⟨scanDataset t, column⟩, .identity⟩) (mem_singleton_self _) t ⟨_, _, _, .refl⟩ (by rw [M.field_flag])
    rwa [M.masking_flag, M.field_flag] at h
  · intro ha D plan id ofl ho c hc t _ hd
    obtain ⟨ofl, -, rfl⟩ := mem_map.mp ho
    obtain ⟨c, -, rfl⟩ := mem_map.mp hc
    rw [M.field_flag] at hd
    rw [M.masking_flag, M.field_flag, ← ha t c.field.field id, hd]

/-- **The flag and enforcement.** For every plan and every session, a contribution of a scanned column is flagged
exactly when the enforcer of the same configuration masks the column, if and only if

* whatever scan an entry is on as the lineage names it, an entry of highest priority for everyone is on as the
  enforcer looks it up; and
* whatever scan an entry of highest priority is on as the enforcer looks it up, some entry is on as the lineage
  names it. -/
theorem masking_flag_agrees_iff (hrules : buildMaskRules S I masks = .ok rules)
    (hnew : ColumnMaskingEnforcer.new rules = .ok E) (defaults : Option (String × String)) :
    (∀ (D : PlanData) (plan : LogicalPlan) (id : Identity),
      ∀ ofl ∈ (MaskedColumns.ofConfig S masks).overlay (D.columnLineage plan), ∀ c ∈ ofl.inputs,
      ∀ t, Scans plan t → scanDataset t = c.field.dataset → (c.masking = true ↔
        (({ E with sessionDefaults := defaults } : ColumnMaskingEnforcer).lookupMask t c.field.field ∅ id).isSome)) ↔
    ((∀ m ∈ masks, ∀ t, S.parseStr m.table ∈ matchCandidates (scanDataset t).toFull →
        ∃ top, MaskConfig.IsTop masks top ∧ top.column = m.column ∧ top.entryGroups = [] ∧
          ∃ r, parseTableRef S top.table = .ok r ∧
            r ∈ ({ E with sessionDefaults := defaults } : ColumnMaskingEnforcer).candidateRefs t) ∧
      ∀ top, MaskConfig.IsTop masks top → ∀ t r, parseTableRef S top.table = .ok r →
        r ∈ ({ E with sessionDefaults := defaults } : ColumnMaskingEnforcer).candidateRefs t →
        ∃ m ∈ masks, m.column = top.column ∧ S.parseStr m.table ∈ matchCandidates (scanDataset t).toFull) := by
  rw [flags_agree_iff]
  simp only [MaskedColumns.isMasked_ofConfig_iff, isSome_lookupMask_config_iff hrules hnew]
  constructor
  · intro ha
    refine ⟨fun m hm t hon => ?_, fun top hto t r ht hca => ?_⟩
    · -- A session without groups: only an entry for everyone applies to it.
      obtain ⟨top, hto, hc, hap, hca⟩ := (ha t m.column .anonymous).mp ⟨m, hm, rfl, hon⟩
      rcases hap with he | ⟨g, -, hg⟩
      · exact ⟨top, hto, hc, he, hca⟩
      · cases hg
    · have hap : top.AppliesTo (Identity.anonymous.withGroups top.entryGroups) := by
        cases hgr : top.entryGroups with
        | nil => exact .inl hgr
        | cons g gs => exact .inr ⟨g, hgr ▸ List.mem_cons_self, List.mem_cons_self⟩
      exact (ha t top.column _).mpr ⟨top, hto, rfl, hap, r, ht, hca⟩
  · rintro ⟨hf, hma⟩ t column id
    constructor
    · rintro ⟨m, hm, rfl, hon⟩
      obtain ⟨top, hto, hc, he, hca⟩ := hf m hm t hon
      exact ⟨top, hto, hc, .inl he, hca⟩
    · rintro ⟨top, hto, rfl, -, r, ht, hca⟩
      exact hma top hto t r ht hca

end Config

theorem bare_mem_candidates_iff {name t} {E : ColumnMaskingEnforcer} :
    .bare name ∈ matchCandidates (scanDataset t).toFull ↔ .bare name ∈ E.candidateRefs t := by
  unfold candidateRefs
  cases E.sessionDefaults <;> cases t <;>
    simp [matchCandidates, DatasetRef.toFull, scanDataset, datasetOfWithDefaults, table]

/-- One entry for everyone, on a bare name. -/
theorem masking_flag_agrees_of_single :
    ∃ rules E, buildMaskRules .bareNames .asWritten [maskEntry "***" 0 none] = .ok rules ∧
      ColumnMaskingEnforcer.new rules = .ok E ∧
      ∀ (D : PlanData) (plan : LogicalPlan) (id : Identity),
        ∀ ofl ∈ (MaskedColumns.ofConfig .bareNames [maskEntry "***" 0 none]).overlay (D.columnLineage plan),
        ∀ c ∈ ofl.inputs, ∀ t, Scans plan t → scanDataset t = c.field.dataset →
          (c.masking = true ↔
            ((E.withSessionDefaults "dataglot" "public").lookupMask t c.field.field ∅ id).isSome) := by
  refine ⟨_, _, rfl, rfl, ?_⟩
  refine (masking_flag_agrees_iff (I := .asWritten) rfl rfl (some ("dataglot", "public"))).mpr ⟨?_, ?_⟩
  · intro m hm t hon
    rw [List.mem_singleton.mp hm] at hon ⊢
    refine ⟨_, ⟨List.mem_singleton_self _, by decide⟩, rfl, rfl, .bare "users", rfl, ?_⟩
    exact bare_mem_candidates_iff.mp hon
  · rintro top ⟨hto, -⟩ t r ht hc
    rw [List.mem_singleton.mp hto] at ht ⊢
    obtain rfl : .bare "users" = r := Except.ok.inj ht
    exact ⟨_, List.mem_singleton_self _, rfl, bare_mem_candidates_iff.mpr hc⟩

def SqlParser.threeParts : SqlParser where
  parseStr := fun s => if s = "dataglot.public.users" then .full "dataglot" "public" "users" else .bare s
  col := fun name => ⟨none, name⟩
  parseSqlPredicate := .error

/-- A mask for contractors is flagged for everyone. And a mask on a full name is applied to the table that the session
takes a bare name for, where it is not flagged. -/
theorem masking_flag_disagrees :
    let scan : LogicalPlan := .tableScan (.bare "users") none [] none
    let D : PlanData := ⟨fun _ => ["email"], fun _ => .inner, fun _ => 0, fun _ => false⟩
    let forContractors := maskEntry "***" 0 (some ["contractor"])
    let onFullName := { maskEntry "***" 0 none with table := "dataglot.public.users" }
    (∃ rules E, buildMaskRules .bareNames .asWritten [forContractors] = .ok rules ∧
      ColumnMaskingEnforcer.new rules = .ok E ∧
      ((MaskedColumns.ofConfig .bareNames [forContractors]).overlay (D.columnLineage scan)).map
        (·.inputs.map (·.masking)) = [[true]] ∧
      (E.withSessionDefaults "dataglot" "public").lookupMask (.bare "users") "email" ∅ (.ofUser "ann") = none) ∧
    ∃ rules E, buildMaskRules .threeParts .asWritten [onFullName] = .ok rules ∧
      ColumnMaskingEnforcer.new rules = .ok E ∧
      ((MaskedColumns.ofConfig .threeParts [onFullName]).overlay (D.columnLineage scan)).map
        (·.inputs.map (·.masking)) = [[false]] ∧
      (E.withSessionDefaults "dataglot" "public").lookupMask (.bare "users") "email" ∅ (.ofUser "ann") =
        some (.literal (.utf8 "***")) := by
  exact ⟨⟨_, _, rfl, rfl, rfl, rfl⟩, _, _, rfl, rfl, rfl, rfl⟩

end Dataglot
