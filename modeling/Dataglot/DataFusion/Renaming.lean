/-
Renaming the table aliases of a plan.

Every alias gets the name that a function gives it, where it is declared and
wherever a qualifier leads to it. Which name a qualifier leads to is known from
the names in sight: below the node for a column, around the subquery for an outer
reference. A name in sight is that of a scan, which is not renamed, or an alias.
-/
import Dataglot.DataFusion.Scope
import Dataglot.Library.FreshName

namespace DataFusion
open TableReference Expr List

/-- A name in sight, of a scan or declared as an alias. -/
structure Sighted where
  name : TableReference
  isAlias : Bool
  deriving DecidableEq, Repr

abbrev Sight := List Sighted

mutual

/-- The names a plan's fields are qualified by. -/
def sight : LogicalPlan → Sight
  | .tableScan t _ _ _ => [⟨t, false⟩]
  | .subqueryAlias name _ => [⟨name, true⟩]
  | .filter _ input => sight input
  | .projection _ input _ => sight input
  | .node _ _ _ inputs _ => sightList inputs

def sightList : List LogicalPlan → Sight
  | [] => []
  | p :: ps => sight p ++ sightList ps

end

/-- The names that the expressions of a node see: those below it, or its own for a scan's filters. -/
def sightOf : LogicalPlan → Sight
  | .tableScan t _ _ _ => [⟨t, false⟩]
  | p => sightList p.inputs

section Rename

variable (ρ : TableReference → TableReference)

def Sighted.renamed (s : Sighted) : TableReference := if s.isAlias then ρ s.name else s.name

/-- A qualifier under the renaming: it follows the alias it leads to. -/
def requalify (names : Sight) (rel : TableReference) : TableReference :=
  match names.find? fun s => rel.resolvedEq s.name with
  | some s => if s.isAlias then ρ s.name else rel
  | none => rel

def Column.requalified (names : Sight) (c : Column) : Column := ⟨c.relation.map (requalify ρ names), c.name⟩

mutual

/-- The plan with its aliases renamed, in a subquery with the names around it. -/
def rename (around : Sight) : LogicalPlan → LogicalPlan
  | .tableScan t projection filters fetch =>
    .tableScan t projection (renameExprs [⟨t, false⟩] around filters) fetch
  | .filter predicate input => .filter (renameExpr (sightList [input]) around predicate) (rename around input)
  | .projection expr input schema =>
    .projection (renameExprs (sightList [input]) around expr) (rename around input)
      (schema.map (Column.requalified ρ (sightList [input])))
  | .subqueryAlias name input => .subqueryAlias (ρ name) (rename around input)
  | .node kind detail exprs inputs schema =>
    .node kind detail (renameExprs (sightList inputs) around exprs) (renameInputs around inputs)
      (schema.map (Column.requalified ρ (sightList inputs)))

def renameInputs (around : Sight) : List LogicalPlan → List LogicalPlan
  | [] => []
  | p :: ps => rename around p :: renameInputs around ps

def renameExpr (own around : Sight) : Expr → Expr
  | .column c => .column (c.requalified ρ own)
  | .outerReferenceColumn c => .outerReferenceColumn (c.requalified ρ around)
  | .literal v => .literal v
  | .aliasExpr e relation name => .aliasExpr (renameExpr own around e) (relation.map (requalify ρ own)) name
  | .op head args => .op head (renameExprs own around args)
  | .scalarSubquery q outer =>
    .scalarSubquery (rename (own ++ around) q) (renameExprs [] (own ++ around) outer)
  | .inSubquery e q outer negated =>
    .inSubquery (renameExpr own around e) (rename (own ++ around) q) (renameExprs [] (own ++ around) outer) negated
  | .setComparison e q outer cmp quantifier =>
    .setComparison (renameExpr own around e) (rename (own ++ around) q) (renameExprs [] (own ++ around) outer) cmp
      quantifier
  | .existsSubquery q outer negated =>
    .existsSubquery (rename (own ++ around) q) (renameExprs [] (own ++ around) outer) negated

def renameExprs (own around : Sight) : List Expr → List Expr
  | [] => []
  | e :: es => renameExpr own around e :: renameExprs own around es

end

/-- At a node, the names in sight stay apart under the renaming, and a qualifier that leads to none of them
does not come to lead to one. -/
def KeptApart (_root : LogicalPlan) (around : Sight) (node : LogicalPlan) : Prop :=
  (∀ a ∈ sightOf node ++ around, ∀ b ∈ sightOf node ++ around,
    (a.renamed ρ).resolvedEq (b.renamed ρ) → a.name.resolvedEq b.name) ∧
  ∀ e ∈ node.expressions, ∀ c : Column, ∀ rel, c.relation = some rel →
    (.column c ∈ e.nodes → (∀ a ∈ sightOf node, rel.resolvedEq a.name = false) →
      ∀ a ∈ sightOf node, rel.resolvedEq (a.renamed ρ) = false) ∧
    (.outerReferenceColumn c ∈ e.nodes → (∀ a ∈ around, rel.resolvedEq a.name = false) →
      ∀ a ∈ around, rel.resolvedEq (a.renamed ρ) = false)

abbrev enterSight (p : LogicalPlan) (around : Sight) : Sight := sightOf p ++ around

/-- **A consistent renaming**: no two names that are in sight together become one, and none captures a
qualifier. -/
def ConsistentRenaming (p : LogicalPlan) : Prop := EachNode enterSight (KeptApart ρ) p [] p

end Rename

/-! ## The renamed plan -/

section Renamed

variable {ρ : TableReference → TableReference}

theorem renameInputs_eq_map (around ps) : renameInputs ρ around ps = ps.map (rename ρ around) := by
  induction ps with
  | nil => rfl
  | cons p ps ih => rw [renameInputs, ih, map_cons]

theorem renameExprs_eq_map (own around es) : renameExprs ρ own around es = es.map (renameExpr ρ own around) := by
  induction es with
  | nil => rfl
  | cons e es ih => rw [renameExprs, ih, map_cons]

theorem inputs_rename (around) (p) : (rename ρ around p).inputs = p.inputs.map
    (rename ρ around) := by
  cases p <;> simp [rename, LogicalPlan.inputs, renameInputs_eq_map]

theorem expressions_rename (around) (p) :
    (rename ρ around p).expressions = p.expressions.map (renameExpr ρ (sightOf p) around) := by
  cases p <;> simp [rename, LogicalPlan.expressions, renameExprs_eq_map, sightOf, LogicalPlan.inputs]

theorem nodes_renameExpr (own around) : ∀ e, (renameExpr ρ own around e).nodes = e.nodes.map (renameExpr ρ own around)
  | .column _ | .outerReferenceColumn _ | .literal _ | .scalarSubquery _ _ | .existsSubquery _ _ _ => rfl
  | .aliasExpr e _ _ | .inSubquery e _ _ _ | .setComparison e _ _ _ _ => by
    simp only [renameExpr, nodes, nodes_renameExpr own around e, map_cons]
  | .op _ args => by
    simp only [renameExpr, nodes, renameExprs_eq_map, nodesList_eq_flatMap, map_cons, flatMap_map,
      map_flatMap]
    exact congrArg _ (flatMap_congr fun e _ => nodes_renameExpr own around e)

theorem column_mem_nodes_renameExpr {own around e c'} :
    .column c' ∈ (renameExpr ρ own around e).nodes ↔ ∃ c, .column c ∈ e.nodes ∧ c.requalified ρ own = c' := by
  rw [nodes_renameExpr, mem_map]
  constructor
  · rintro ⟨s, hs, heq⟩
    cases s <;> simp only [renameExpr, column.injEq, reduceCtorEq] at heq
    exact ⟨_, hs, heq⟩
  · rintro ⟨c, hc, rfl⟩
    exact ⟨_, hc, rfl⟩

theorem embeds_renameExpr {own around e q'} :
    (renameExpr ρ own around e).Embeds q' ↔ ∃ q, e.Embeds q ∧ rename ρ (own ++ around) q = q' := by
  have hsu : ∀ s, (renameExpr ρ own around s).embeddedSubquery =
      s.embeddedSubquery.map (rename ρ (own ++ around)) := by
    intro s
    cases s <;> rfl
  unfold Embeds
  rw [nodes_renameExpr]
  constructor
  · rintro ⟨s', hs', hq'⟩
    obtain ⟨s, hs, rfl⟩ := mem_map.mp hs'
    rw [hsu, Option.map_eq_some_iff] at hq'
    obtain ⟨q, hq, heq⟩ := hq'
    exact ⟨q, ⟨s, hs, hq⟩, heq⟩
  · rintro ⟨q, ⟨s, hs, hq⟩, rfl⟩
    refine ⟨_, mem_map_of_mem hs, ?_⟩
    rw [hsu, hq, Option.map_some]

theorem exists_of_within_rename {q' p'} (h : q'.Within p') : ∀ {p around},
    p' = rename ρ around p → ∃ q around', q.Within p ∧ q' = rename ρ around' q := by
  induction h with
  | refl =>
    rintro p around rfl
    exact ⟨p, around, .refl, rfl⟩
  | input hi _ ih =>
    rintro p around rfl
    rw [inputs_rename] at hi
    obtain ⟨i, hm, rfl⟩ := mem_map.mp hi
    obtain ⟨q, around', hq, heq⟩ := ih rfl
    exact ⟨q, around', .input hm hq, heq⟩
  | subquery he hs _ ih =>
    rintro p around rfl
    rw [expressions_rename] at he
    obtain ⟨e, hm, rfl⟩ := mem_map.mp he
    obtain ⟨s, hem, rfl⟩ := embeds_renameExpr.mp hs
    obtain ⟨q, around', hq, heq⟩ := ih rfl
    exact ⟨q, around', .subquery hm hem hq, heq⟩

theorem exists_rename_within {q p} (h : q.Within p) : ∀ around,
    ∃ around', (rename ρ around' q).Within (rename ρ around p) := by
  induction h with
  | refl => exact fun around => ⟨around, .refl⟩
  | input hi _ ih =>
    intro around
    obtain ⟨around', hq⟩ := ih around
    refine ⟨around', .input ?_ hq⟩
    rw [inputs_rename]
    exact mem_map_of_mem hi
  | @subquery p s e he hs _ ih =>
    intro around
    obtain ⟨around', hq⟩ := ih (sightOf p ++ around)
    refine ⟨around', .subquery ?_ (embeds_renameExpr.mpr ⟨s, hs, rfl⟩) hq⟩
    rw [expressions_rename]
    exact mem_map_of_mem he

end Renamed

/-! ## Fresh names -/

/-- The node has the name in sight, or in a qualifier. -/
def MentionedAt (name : String) (p : LogicalPlan) : Prop :=
  (∃ a ∈ sightOf p, a.name.table = name) ∨
    ∃ e ∈ p.expressions, ∃ c : Column, (.column c ∈ e.nodes ∨ .outerReferenceColumn c ∈ e.nodes) ∧
      ∃ rel, c.relation = some rel ∧ rel.table = name

def Fresh (name : String) (p : LogicalPlan) : Prop := ∀ q : LogicalPlan, q.Within p → ¬ MentionedAt name q

theorem finite_mentionedAt (p) : {name | MentionedAt name p}.Finite := by
  let qualifier : Expr → Option String
    | .column c | .outerReferenceColumn c => c.relation.map table
    | _ => none
  have hs : {name | MentionedAt name p} ⊆
      {name | name ∈ (sightOf p).map (·.name.table) ++ p.expressions.flatMap fun e => e.nodes.filterMap qualifier} := by
    rintro name (⟨a, ha, rfl⟩ | ⟨e, he, c, hc, rel, hr, rfl⟩)
    · exact mem_append_left _ (mem_map.mpr ⟨a, ha, rfl⟩)
    · refine mem_append_right _ (mem_flatMap.mpr ⟨e, he, mem_filterMap.mpr ?_⟩)
      rcases hc with hc | hc
      · exact ⟨_, hc, by simp [qualifier, hr]⟩
      · exact ⟨_, hc, by simp [qualifier, hr]⟩
  exact (finite_toSet _).subset hs

theorem exists_fresh (p) : ∃ name, Fresh name p := by
  have hf : (⋃ q ∈ {q : LogicalPlan | q.Within p}, {name | MentionedAt name q}).Finite :=
    (LogicalPlan.finite_within p).biUnion fun q _ => finite_mentionedAt q
  obtain ⟨name, hname⟩ := FreshName.exists_notMem hf
  refine ⟨name, fun q hq hm => hname ?_⟩
  exact Set.mem_biUnion hq hm

section FreshAlias

variable {name : String} {old : TableReference}

def renameOne (old : TableReference) (name : String) (n : TableReference) : TableReference :=
  if n = old then .bare name else n

theorem renamed_renameOne (old) (name) (a : Sighted) :
    (a.renamed (renameOne old name) = .bare name ∧ a.name = old) ∨ a.renamed (renameOne old name) = a.name := by
  unfold Sighted.renamed renameOne
  by_cases ha : a.isAlias
  · by_cases ho : a.name = old
    · exact .inl ⟨by simp [ha, ho], ho⟩
    · exact .inr (by simp [ha, ho])
  · exact .inr (by simp [ha])

theorem keptApart_renameOne {root node around} (hf : ¬ MentionedAt name node)
    (har : ∀ a ∈ around, a.name.table ≠ name) : KeptApart (renameOne old name) root around node := by
  have hs : ∀ a ∈ sightOf node ++ around, a.name.table ≠ name := by
    intro a ha
    rcases mem_append.mp ha with ha | ha
    · exact fun heq => hf (.inl ⟨a, ha, heq⟩)
    · exact har a ha
  -- a qualifier of the node does not lead to the new name
  have hm : ∀ e ∈ node.expressions, ∀ c rel, c.relation = some rel →
      (.column c ∈ e.nodes ∨ .outerReferenceColumn c ∈ e.nodes) → ∀ a : Sighted, rel.resolvedEq a.name = false →
      rel.resolvedEq (a.renamed (renameOne old name)) = false := by
    intro e he c rel hr hc a ha
    rcases renamed_renameOne old name a with ⟨hn, -⟩ | hsa
    · have hne : rel.table ≠ name := fun heq => hf (.inr ⟨e, he, c, hc, rel, hr, heq⟩)
      rw [hn, resolvedEq_bare_right]
      simpa using hne
    · rw [hsa]
      exact ha
  refine ⟨fun a ha b hb heq => ?_, fun e he c rel hr => ⟨fun hc hno a ha => ?_, fun hc hno a ha => ?_⟩⟩
  · rcases renamed_renameOne old name a with ⟨hn, ho⟩ | hsa
    · rcases renamed_renameOne old name b with ⟨-, ho'⟩ | hs'
      · rw [ho, ho']
        exact resolvedEq_self old
      · rw [hn, hs', resolvedEq_bare_left, beq_iff_eq] at heq
        exact absurd heq.symm (hs b hb)
    · rcases renamed_renameOne old name b with ⟨hn', -⟩ | hs'
      · rw [hn', hsa, resolvedEq_bare_right, beq_iff_eq] at heq
        exact absurd heq (hs a ha)
      · rw [hsa, hs'] at heq
        exact heq
  · exact hm e he c rel hr (.inl hc) a (hno a ha)
  · exact hm e he c rel hr (.inr hc) a (hno a ha)

theorem consistentRenaming_renameOne {p} (hf : Fresh name p) : ConsistentRenaming (renameOne old name) p := by
  have key : ∀ p, ∀ root around, Fresh name p → (∀ a ∈ around, a.name.table ≠ name) →
      EachNode enterSight (KeptApart (renameOne old name)) root around p := by
    intro p
    refine LogicalPlan.induct ?_ p
    intro p hin hex root around hf har
    have hh : ¬ MentionedAt name p := hf p .refl
    refine .intro (keptApart_renameOne hh har) (fun i hi => ?_) fun e he q hq => ?_
    · exact hin i hi root around (fun q hq => hf q (.input hi hq)) har
    · refine hex e he q hq q _ (fun q' hq' => hf q' (.subquery he hq hq')) fun a ha => ?_
      rcases mem_append.mp ha with ha | ha
      · exact fun heq => hh (.inl ⟨a, ha, heq⟩)
      · exact har a ha
  exact key p p [] hf nofun

end FreshAlias

end DataFusion
