/-
Column masks (`mask.rs`): in the expressions that reach a query's output, a
reference to a masked column is replaced by the mask's expression. What a `Filter`,
a `Join`, a `Sort` or a scan reads is left as it is.

`mask_expr` walks an expression from the top and goes on into what it has put in:
a mask's own columns are masked again. The walk then need not end, so it takes a
number of masks inside one another that it may unfold.
-/
import Dataglot.DataFusion.MapExpressions
import Dataglot.Policy.AliasTargets
import Dataglot.Policy.Rule

namespace Dataglot
open DataFusion Except List

structure ColumnMask where
  table : TableReference
  column : String
  mask : Expr
  org : Option String
  groups : Option (List OrgGroupId)

/-- `mask::BuildError`. -/
inductive MaskBuildError
  | duplicateRule (table : TableReference) (column : String)
  deriving DecidableEq, Repr

def MaskBuildError.message : MaskBuildError → String
  | duplicateRule table column =>
    "duplicate masking rule for column `" ++ column ++ "` of table `" ++ table.render ++ "`"

/-- `ColumnMaskingEnforcer`: the masks of every scope, by table and column. -/
structure ColumnMaskingEnforcer where
  masks : RuleMap (TableReference × String) Expr
  sessionDefaults : Option (String × String)

/-- The nodes whose expressions are not masked. -/
def readsForItself : LogicalPlan → Bool
  | .filter _ _ => true
  | .tableScan _ _ _ _ => true
  | .node .join _ _ _ _ => true
  | .node .sort _ _ _ _ => true
  | _ => false

mutual

/-- `transform_down` over an expression with a replacement for some of its columns. -/
def replaceColumns (hit : Column → Option (Except DataFusionError Expr)) :
    Expr → Except DataFusionError (Transformed Expr)
  | .column c =>
    match hit c with
    | some replacement => do return .yes (← replacement)
    | none => .ok (.no (.column c))
  | .aliasExpr e r n => do
    let e' ← replaceColumns hit e
    return e'.map fun e => .aliasExpr e r n
  | .op h args => do
    let args' ← replaceColumnsList hit args
    return args'.map fun args => .op h args
  | .inSubquery e q o neg => do
    let e' ← replaceColumns hit e
    return e'.map fun e => .inSubquery e q o neg
  | .setComparison e q o c k => do
    let e' ← replaceColumns hit e
    return e'.map fun e => .setComparison e q o c k
  | .outerReferenceColumn c => .ok (.no (.outerReferenceColumn c))
  | .literal v => .ok (.no (.literal v))
  | .scalarSubquery q o => .ok (.no (.scalarSubquery q o))
  | .existsSubquery q o neg => .ok (.no (.existsSubquery q o neg))

def replaceColumnsList (hit : Column → Option (Except DataFusionError Expr)) :
    List Expr → Except DataFusionError (Transformed (List Expr))
  | [] => .ok (.no [])
  | e :: es => do
    let e' ← replaceColumns hit e
    let es' ← replaceColumnsList hit es
    return ⟨e'.data :: es'.data, e'.transformed || es'.transformed⟩

end

/-- What becomes of a mask that has just been put in: the walk goes on below its root. -/
def goOnBelow (walk : Expr → Except DataFusionError (Transformed Expr)) (mask : Expr) :
    Except DataFusionError Expr :=
  match mask with
  | .column c => .ok (.column c)
  | mask => do
    let out ← walk mask
    return out.data

/-- The walk of `mask_expr` below the top of an expression. -/
def maskNested (lookup : Column → Option Expr) : Nat → Expr → Except DataFusionError (Transformed Expr)
  | 0 => replaceColumns fun c => (lookup c).map fun _ => .error .recursionLimit
  | n + 1 => replaceColumns fun c => (lookup c).map (goOnBelow (maskNested lookup n))

namespace ColumnMaskingEnforcer

def new (masks : List ColumnMask) : Except MaskBuildError ColumnMaskingEnforcer := do
  let rules := masks.map fun m => ((m.table, m.column), ScopedRule.mk m.org m.groups m.mask)
  let map ← (RuleMap.build rules).mapError fun key => .duplicateRule key.1 key.2
  return ⟨map, none⟩

variable (E : ColumnMaskingEnforcer)

def withSessionDefaults (catalog schema : String) : ColumnMaskingEnforcer :=
  { E with sessionDefaults := some (catalog, schema) }

/-- `candidate_refs`: with session defaults, a reference is completed to all three parts first. -/
def candidateRefs (rel : TableReference) : List TableReference :=
  match E.sessionDefaults with
  | none => matchCandidates rel
  | some (dc, ds) =>
    match rel with
    | .bare table => [.full dc ds table, .partialRef ds table, .bare table]
    | .partialRef schema table => [.full dc schema table, .partialRef schema table, .bare table]
    | .full _ _ _ => matchCandidates rel

/-- `applicable_rank`: an org counts more than groups do. -/
def applicableRank (org : Option String) (groups : Option (List OrgGroupId)) (id : Identity) : Option Nat :=
  if !orgRuleApplies org id || !subjectMatches groups id.orgGroups then none
  else some (org.isSome.toNat * 2 + groups.isSome.toNat)

/-- One rule of a key: it takes over from the best so far if it ranks strictly higher. -/
def pickRule (id : Identity) (best : Option (Nat × Expr)) (rule : ScopedRule Expr) : Option (Nat × Expr) :=
  match applicableRank rule.org rule.groups id with
  | none => best
  | some rank =>
    match best with
    | none => some (rank, rule.rule)
    | some (r, mask) => if rank > r then some (rank, rule.rule) else some (r, mask)

def lookupMask (rel : TableReference) (column : String) (aliasMap : AliasMap) (id : Identity) : Option Expr :=
  let candidates := E.candidateRefs rel ++
    match aliasMap.lookup rel with
    | some original => E.candidateRefs original
    | none => []
  let best := candidates.foldl (fun best cand =>
    match E.masks.lookup (cand, column) with
    | none => best
    | some entries => entries.foldl (pickRule id) best) none
  best.map (·.2)

/-- The mask of a column as it is written; an unqualified one has none. -/
def maskOf (aliasMap : AliasMap) (id : Identity) (c : Column) : Option Expr :=
  match c.relation with
  | none => none
  | some rel => E.lookupMask rel c.name aliasMap id

variable (schemaName : Expr → String)

/-- `mask_expr`. `schemaName` is DataFusion's name for the field that an expression computes. -/
def maskExpr (fuel : Nat) (E : ColumnMaskingEnforcer) (expr : Expr) (aliasMap : AliasMap)
    (id : Identity) : Except DataFusionError (Transformed Expr) :=
  match expr with
  | .column c =>
    match E.maskOf aliasMap id c with
    | some mask => .ok (.yes (.aliasExpr mask c.relation c.name))
    | none => .ok (.no (.column c))
  | expr => do
    let out ← maskNested (E.maskOf aliasMap id) fuel expr
    return if !out.transformed then .no out.data
    else if schemaName out.data == schemaName expr then .yes out.data
    else .yes (.aliasExpr out.data none (schemaName expr))

/-- The closure of `rewrite`; the alias map is that of the plan the walk started from. -/
def visit (fuel : Nat) (E : ColumnMaskingEnforcer) (id : Identity) : Action :=
  fun root node =>
    if readsForItself node then .ok (.no node, .cont)
    else do
      let out ← node.mapExpressions fun e => E.maskExpr schemaName fuel e (aliasTargets root) id
      return (out, .cont)

def rewrite (fuel : Nat) (E : ColumnMaskingEnforcer) (plan : LogicalPlan)
    (id : Identity) : Except DataFusionError (Transformed LogicalPlan) :=
  if E.masks.entries.isEmpty then .ok (.no plan) else rewriteTree (E.visit schemaName fuel id) plan plan

/-! ## The mask of a column -/

variable {E : ColumnMaskingEnforcer} {id : Identity}

variable {masks : List ColumnMask} {column : String}

theorem masks_of_new (h : new masks = .ok E) (k) : E.masks.rulesAt k =
      (masks.filter fun m => (m.table, m.column) = k).map fun m => ⟨m.org, m.groups, m.mask⟩ := by
  simp only [new, bind_ok_iff, mapError_ok_iff, pure_ok_iff] at h
  obtain ⟨m, hm, rfl⟩ := h
  rw [RuleMap.rulesAt_build hm k, filter_map, map_map]
  rfl

theorem exists_new_of_subperm {masks'} (hs : masks'.Subperm masks) (h : new masks = .ok E) :
    ∃ E', new masks' = .ok E' := by
  simp only [new, bind_ok_iff, mapError_ok_iff] at h
  obtain ⟨m, hm, -⟩ := h
  obtain ⟨kept, hp, hk⟩ := hs
  obtain ⟨m', hm'⟩ := RuleMap.exists_build_of_subperm ⟨_, hp.map _, hk.map _⟩ hm
  exact ⟨⟨m', none⟩, by rw [new, hm']; rfl⟩

theorem mem_rulesAt_singleton {m} (h : new [m] = .ok E) (k r) : r ∈ E.masks.rulesAt k ↔ k = (m.table, m.column) ∧ r = ⟨m.org, m.groups, m.mask⟩ := by
  rw [masks_of_new h]
  simp [eq_comm]

theorem sessionDefaults_of_new (h : new masks = .ok E) : E.sessionDefaults = none := by
  simp only [new, bind_ok_iff, pure_ok_iff] at h
  obtain ⟨m, -, rfl⟩ := h
  rfl

/-- The keys a relation is looked up under, its own and those of the table it is an alias of. -/
def candidates (rel : TableReference) (aliasMap : AliasMap) : List TableReference :=
  E.candidateRefs rel ++ ((aliasMap.lookup rel).map E.candidateRefs).getD []

theorem candidates_congr {E₁ E₂ : ColumnMaskingEnforcer} (h : E₁.sessionDefaults = E₂.sessionDefaults)
    (rel aliasMap) : E₁.candidates rel aliasMap = E₂.candidates rel aliasMap := by
  have hr : E₁.candidateRefs = E₂.candidateRefs := by
    funext rel
    rw [candidateRefs, candidateRefs, h]
  rw [candidates, candidates, hr]

/-- The masks of a column for the session, in the order they are looked at. -/
def applicableMasks (keys : List TableReference) (column : String) (id : Identity) : List (ScopedRule Expr) :=
  keys.flatMap fun cand => (E.masks.rulesAt (cand, column)).filter (·.applies id)

theorem applicableRank_eq_none_iff {rule : ScopedRule Expr} :
    applicableRank rule.org rule.groups id = none ↔ rule.applies id = false := by
  unfold applicableRank ScopedRule.applies
  cases orgRuleApplies rule.org id <;> cases subjectMatches rule.groups id.orgGroups <;> simp

theorem pickRule_eq (id best rule) :
    pickRule id best rule = if rule.applies id then pickRule id best rule else best := by
  split
  next => rfl
  next h =>
    have hn := applicableRank_eq_none_iff.mpr (Bool.eq_false_iff.mpr h)
    rw [pickRule, hn]

theorem lookupMask_eq (rel column aliasMap id) : E.lookupMask rel column aliasMap id =
      ((E.applicableMasks (E.candidates rel aliasMap) column id).foldl (pickRule id) none).map (·.2) := by
  have hk : ∀ best cand, (match E.masks.lookup (cand, column) with
      | none => best
      | some entries => entries.foldl (pickRule id) best) =
      ((E.masks.rulesAt (cand, column)).filter (·.applies id)).foldl (pickRule id) best := by
    intro best cand
    rw [foldl_filter]
    simp only [← pickRule_eq]
    unfold RuleMap.rulesAt
    cases E.masks.lookup (cand, column) <;> rfl
  have hc : E.candidateRefs rel ++ (match aliasMap.lookup rel with
      | some original => E.candidateRefs original
      | none => []) = E.candidates rel aliasMap := by
    unfold candidates
    cases aliasMap.lookup rel <;> rfl
  rw [applicableMasks, foldl_flatMap]
  simp only [lookupMask, hc, hk]

theorem foldl_pickRule {rules} (h : ∀ r ∈ rules, r.applies id) :
    ∀ best, (rules.foldl (pickRule id) best = none ↔ best = none ∧ rules = []) ∧
      ∀ p, rules.foldl (pickRule id) best = some p → best = some p ∨ ∃ r ∈ rules, r.rule = p.2 := by
  induction rules with
  | nil => simp
  | cons r rules ih =>
    intro best
    obtain ⟨ihnone, ihsome⟩ := ih (fun r' hr' => h r' (by simp [hr'])) (pickRule id best r)
    have hr : applicableRank r.org r.groups id ≠ none := by
      rw [Ne, applicableRank_eq_none_iff, h r (by simp)]
      simp
    obtain ⟨rank, hr⟩ := Option.ne_none_iff_exists'.mp hr
    have hpi : pickRule id best r = some (rank, r.rule) ∨ (pickRule id best r = best ∧ best ≠ none) := by
      unfold pickRule
      rw [hr]
      cases best with
      | none => exact .inl rfl
      | some b =>
        by_cases hgt : rank > b.1
        · simp [hgt]
        · simp [hgt]
    rw [foldl_cons]
    refine ⟨?_, fun p hp => ?_⟩
    · rw [ihnone]
      rcases hpi with hpi | ⟨hpi, hb⟩
      · simp [hpi]
      · simp [hpi, hb]
    · rcases ihsome p hp with hp | ⟨r', hr', hp⟩
      · rcases hpi with hpi | ⟨hpi, -⟩
        · rw [hpi] at hp
          exact .inr ⟨r, by simp, by rw [← Option.some.inj hp]⟩
        · exact .inl (hpi ▸ hp)
      · exact .inr ⟨r', by simp [hr'], hp⟩

theorem applies_of_mem_applicableMasks {keys} : ∀ r ∈ E.applicableMasks keys column id, r.applies id := by
  intro r hr
  obtain ⟨cand, -, hr⟩ := mem_flatMap.mp hr
  exact (mem_filter.mp hr).2

theorem lookupMask_eq_none_iff {rel aliasMap} : E.lookupMask rel column aliasMap id = none ↔
      ∀ cand ∈ E.candidates rel aliasMap, ∀ r ∈ E.masks.rulesAt (cand, column), r.applies id = false := by
  rw [lookupMask_eq, Option.map_eq_none_iff, (foldl_pickRule applies_of_mem_applicableMasks none).1]
  simp [applicableMasks, flatMap_eq_nil_iff, filter_eq_nil_iff]

theorem maskOf_of_isEmpty (h : E.masks.entries.isEmpty) (aliasMap c) :
    E.maskOf aliasMap id c = none := by
  unfold maskOf
  cases c.relation with
  | none => rfl
  | some rel =>
    refine lookupMask_eq_none_iff.mpr fun cand _ r hr => ?_
    rw [RuleMap.rulesAt_of_isEmpty h] at hr
    cases hr

theorem mem_of_lookupMask {rel aliasMap mask} (h : E.lookupMask rel column aliasMap id = some mask) :
    ∃ r ∈ E.applicableMasks (E.candidates rel aliasMap) column id, r.rule = mask := by
  rw [lookupMask_eq] at h
  obtain ⟨p, hp, rfl⟩ := Option.map_eq_some_iff.mp h
  rcases (foldl_pickRule applies_of_mem_applicableMasks none).2 p hp with hp | hp
  · cases hp
  · exact hp

end ColumnMaskingEnforcer

end Dataglot
