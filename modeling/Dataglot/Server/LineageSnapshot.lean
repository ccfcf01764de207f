/-
The lineage view (`lineage_snapshot.rs`): the fields of the lineage graph as numbered
nodes, with their edges by number, and for each whether a mask is on it.

The view finds masks in its own way: configured ones as propagation matches them to
sources, propagated ones by the name that `dataset_of` gives their table. On masks for
everyone it says of each node what the enforcer does.
-/
import Dataglot.Core.LineageReach
import Dataglot.Server.PropagationLookup

namespace Dataglot
open DataFusion LineageGraph ColumnMaskingEnforcer List

/-- `DerivedProductConfig`, as far as the view reads it. -/
structure DerivedProductConfig where
  name : String
  sql : String
  catalog : Option String
  schema : Option String

structure LineageNode where
  catalog : String
  schema : String
  table : String
  field : String
  kind : String
  mask : Option String
  deriving DecidableEq, Repr

/-- `LineageEdgeView`: the numbers of its two nodes. -/
structure LineageEdgeView where
  fromIx : Nat
  toIx : Nat
  transform : String
  deriving DecidableEq, Repr

structure ProductSummary where
  name : String
  catalog : String
  schema : String
  sql : String
  planned : Bool
  deriving DecidableEq, Repr

structure LineageSnapshot where
  products : List ProductSummary
  nodes : List LineageNode
  edges : List LineageEdgeView
  deriving DecidableEq, Repr

/-! ## Numbering -/

/-- The variables `index` and `nodes`. -/
structure Numbering where
  index : AList fun _ : FieldRef => Nat
  nodes : List FieldRef

namespace Numbering

def empty : Numbering := ⟨∅, []⟩

/-- `idx_of`: the number of a field; a new field gets the next one. -/
def idxOf (s : Numbering) (f : FieldRef) : Numbering × Nat :=
  match s.index.lookup f with
  | some i => (s, i)
  | none => (⟨s.index.insert f s.nodes.length, s.nodes ++ [f]⟩, s.nodes.length)

end Numbering

/-- The name of a transformation in the view. -/
def TransformationType.viewName : TransformationType → String
  | .identity => "identity"
  | .transformation => "transformation"
  | .aggregation => "aggregation"

/-- The body of the loop over the edges. -/
def numberEdge (acc : Numbering × List LineageEdgeView) (e : LineageGraph.Edge) : Numbering × List LineageEdgeView :=
  let (s, fromIx) := acc.1.idxOf e.1
  let (s, toIx) := s.idxOf e.2.1
  (s, acc.2 ++ [⟨fromIx, toIx, e.2.2.viewName⟩])

/-! ## The view -/

/-- The dataset of a product, with the defaults filled in. -/
def DerivedProductConfig.datasetRef (p : DerivedProductConfig) (defaultCatalog defaultSchema : String) : DatasetRef :=
  ⟨p.catalog.getD defaultCatalog, p.schema.getD defaultSchema, p.name⟩

/-- Which masks are on a field. -/
def annotatedMask (configuredMasks propagatedRules : List ColumnMask) (f : FieldRef) : Option String :=
  if configuredMasks.any fun m => m.column == f.field && maskMatchesSource m.table f.dataset then some "configured"
  else if propagatedRules.any fun m => m.column == f.field && datasetOf m.table == f.dataset then some "propagated"
  else none

def buildLineageSnapshot (graph : LineageGraph) (products : List DerivedProductConfig)
    (configuredMasks : List ColumnMask) (defaultCatalog defaultSchema : String) : LineageSnapshot :=
  let (s, edges) := graph.allEdges.foldl numberEdge (.empty, [])
  let productRefs := products.map fun p => (p.datasetRef defaultCatalog defaultSchema, p)
  let allRules := propagateMasks configuredMasks graph false
  let propagatedRules := allRules.drop configuredMasks.length
  let nodeViews := s.nodes.map fun f =>
    let kind := if productRefs.any fun dp => dp.1 == f.dataset then "derived" else "source"
    let mask := annotatedMask configuredMasks propagatedRules f
    ⟨f.dataset.catalog, f.dataset.schema, f.dataset.table, f.field, kind, mask⟩
  let productViews := productRefs.map fun dp =>
    ⟨dp.2.name, dp.1.catalog, dp.1.schema, dp.2.sql, s.nodes.any fun f => f.dataset == dp.1⟩
  ⟨productViews, nodeViews, edges⟩

def LineageNode.fieldRef (n : LineageNode) : FieldRef := ⟨⟨n.catalog, n.schema, n.table⟩, n.field⟩

/-! ## What the numbers stand for -/

namespace Numbering

variable {s : Numbering}

/-- A field has the number of its only place. -/
structure Inv (s : Numbering) : Prop where
  lookup_eq : ∀ f, s.index.lookup f = if f ∈ s.nodes then some (s.nodes.idxOf f) else none
  nodup : s.nodes.Nodup

theorem inv_empty : Inv empty where
  lookup_eq := fun _ => rfl
  nodup := nodup_nil

theorem Inv.idxOf (h : s.Inv) (f) :
    (s.idxOf f).1.Inv ∧ (s.idxOf f).1.nodes[(s.idxOf f).2]? = some f ∧ s.nodes <+: (s.idxOf f).1.nodes ∧
      ∀ g, g ∈ (s.idxOf f).1.nodes ↔ g ∈ s.nodes ∨ g = f := by
  unfold Numbering.idxOf
  rw [h.lookup_eq f]
  by_cases hf : f ∈ s.nodes
  · rw [if_pos hf]
    refine ⟨h, getElem?_idxOf hf, prefix_rfl, fun g => ⟨.inl, ?_⟩⟩
    rintro (hg | rfl)
    · exact hg
    · exact hf
  · rw [if_neg hf]
    refine ⟨⟨fun g => ?_, ?_⟩, by simp, prefix_append .., by simp⟩
    · dsimp only
      by_cases hg : g = f
      · subst hg
        rw [AList.lookup_insert, if_pos (by simp), idxOf_append_of_notMem hf]
        simp
      · have hm : g ∈ s.nodes ++ [f] ↔ g ∈ s.nodes := by simp [hg]
        rw [AList.lookup_insert_ne hg, h.lookup_eq]
        simp only [hm]
        split_ifs with hin
        · rw [idxOf_append_of_mem hin]
        · rfl
    · exact nodup_append.mpr
        ⟨h.nodup, nodup_singleton f, by simpa using fun g hg => ne_of_mem_of_not_mem hg hf⟩

end Numbering

/-- The view of an edge has the numbers of the edge's ends, and its transformation. -/
structure ShowsEdge (nodes : List FieldRef) (v : LineageEdgeView) (e : LineageGraph.Edge) : Prop where
  source : nodes[v.fromIx]? = some e.1
  target : nodes[v.toIx]? = some e.2.1
  transform : v.transform = e.2.2.viewName

theorem getElem?_of_extends {α : Type} {l l'} (h : l <+: l') {i : Nat} {a : α} (hi : l[i]? = some a) :
    l'[i]? = some a := by
  obtain ⟨rest, rfl⟩ := h
  rw [List.getElem?_append_left (List.getElem?_eq_some_iff.mp hi).1, hi]

theorem ShowsEdge.mono {nodes nodes' v e}
    (h : ShowsEdge nodes v e) (he : nodes <+: nodes') : ShowsEdge nodes' v e where
  source := getElem?_of_extends he h.source
  target := getElem?_of_extends he h.target
  transform := h.transform

/-- What holds of the numbering and the views between two edges, for the edges so far. -/
structure Numbered (acc : Numbering × List LineageEdgeView) (done : List LineageGraph.Edge) : Prop where
  inv : acc.1.Inv
  shows : List.Forall₂ (ShowsEdge acc.1.nodes) acc.2 done
  nodes : ∀ f, f ∈ acc.1.nodes ↔ ∃ e ∈ done, f = e.1 ∨ f = e.2.1

theorem Numbered.numberEdge {acc done}
    (h : Numbered acc done) (e) : Numbered (numberEdge acc e) (done ++ [e]) := by
  obtain ⟨hi₁, hfr, he₁, hn₁⟩ := h.inv.idxOf e.1
  obtain ⟨hi₂, hto, he₂, hn₂⟩ := hi₁.idxOf e.2.1
  refine ⟨hi₂, ?_, fun f => ?_⟩
  · refine rel_append (Forall₂.imp (fun v e' hs => hs.mono (he₁.trans he₂)) h.shows) ?_
    exact .cons ⟨getElem?_of_extends he₂ hfr, hto, rfl⟩ .nil
  · refine (hn₂ f).trans ?_
    rw [hn₁, h.nodes]
    simp only [mem_append, mem_singleton]
    constructor
    · rintro ((⟨e', he', hf⟩ | hf) | hf)
      · exact ⟨e', .inl he', hf⟩
      · exact ⟨e, .inr rfl, .inl hf⟩
      · exact ⟨e, .inr rfl, .inr hf⟩
    · rintro ⟨e', he' | rfl, hf⟩
      · exact .inl (.inl ⟨e', he', hf⟩)
      · exact hf.elim (fun hf => .inl (.inr hf)) .inr

theorem Numbered.foldl : ∀ todo {done acc}, Numbered acc done →
    Numbered (todo.foldl Dataglot.numberEdge acc) (done ++ todo)
  | [], done, acc, h => by rwa [append_nil]
  | e :: todo, done, acc, h => by
    rw [foldl_cons, append_cons]
    exact Numbered.foldl todo (h.numberEdge e)

theorem numbered_allEdges (graph : LineageGraph) :
    Numbered (graph.allEdges.foldl numberEdge (.empty, [])) graph.allEdges := by
  have hs : Numbered (.empty, []) [] := ⟨Numbering.inv_empty, .nil, by simp [Numbering.empty]⟩
  exact hs.foldl graph.allEdges

/-! ## The masks of the view -/

section Masks

variable {configured : List ColumnMask} {graph : LineageGraph}

theorem isSome_annotatedMask_iff {f} :
    (annotatedMask configured ((propagateMasks configured graph false).drop configured.length) f).isSome ↔
      ∃ r ∈ propagateMasks configured graph false, r.On f := by
  have hc : (configured.any fun m => m.column == f.field && maskMatchesSource m.table f.dataset) = true ↔
      ∃ m ∈ configured, m.On f := by
    simp only [any_eq_true, Bool.and_eq_true, beq_iff_eq, maskMatchesSource_iff, ColumnMask.On]
  -- A propagated rule has the full name of its table, so `dataset_of` gives it back.
  have hp : (((propagateMasks configured graph false).drop configured.length).any fun m =>
      m.column == f.field && datasetOf m.table == f.dataset) = true ↔
      ∃ m ∈ (propagateMasks configured graph false).drop configured.length, m.On f := by
    simp only [any_eq_true, Bool.and_eq_true, beq_iff_eq]
    refine exists_congr fun m => and_congr_right fun hm => ?_
    obtain ⟨first, d, -, -, rfl⟩ := mem_propagated.mp hm
    rw [inheritedMask_on]
    obtain ⟨dataset, field⟩ := d
    obtain ⟨dataset', field'⟩ := f
    rw [FieldRef.mk.injEq, and_comm]
    exact Iff.rfl
  have ha : (∃ r ∈ propagateMasks configured graph false, r.On f) ↔ (∃ m ∈ configured, m.On f) ∨
      ∃ m ∈ (propagateMasks configured graph false).drop configured.length, m.On f := by
    simp only [mem_propagateMasks, mem_propagated, or_and_right, exists_or]
  unfold annotatedMask
  rw [ha, ← hc, ← hp]
  split_ifs with h₁ h₂
  · simp [h₁]
  · simp [h₂]
  · simp [h₁, h₂]

theorem isSome_lookupMask_iff {masks E} (hn : new masks = .ok E) (hu : ∀ m ∈ masks, m.Unscoped)
    (defaults aliasMap id f)
    (ha : aliasMap.lookup f.dataset.toFull = none) :
    (({ E with sessionDefaults := defaults } : ColumnMaskingEnforcer).lookupMask
      f.dataset.toFull f.field aliasMap id).isSome ↔ ∃ r ∈ masks, r.On f := by
  have hc :
      ({ E with sessionDefaults := defaults } : ColumnMaskingEnforcer).candidates f.dataset.toFull aliasMap =
        matchCandidates f.dataset.toFull := by
    unfold candidates candidateRefs
    rw [ha]
    cases defaults <;> rfl
  rw [lookupMask_unscoped hn hu, hc, Option.isSome_map, isSome_head?]
  simp only [Ne, eq_nil_iff_forall_not_mem, not_forall, not_not, mem_masksAt, ColumnMask.On]

end Masks

/-- **The view agrees with enforcement.** A node has a mask in the view if and only if the enforcer of the propagated
masks has one for its field, whoever asks. The numbers of each edge are those of its own ends, and every field of
the graph is one node. -/
theorem lineage_view_agrees (graph : LineageGraph) (products : List DerivedProductConfig)
    (configured : List ColumnMask) (defaultCatalog defaultSchema : String) (hunscoped : ∀ m ∈ configured, m.Unscoped)
    {E : ColumnMaskingEnforcer} (hnew : ColumnMaskingEnforcer.new (propagateMasks configured graph false) = .ok E)
    (defaults : Option (String × String)) :
    let view := buildLineageSnapshot graph products configured defaultCatalog defaultSchema
    (∀ n ∈ view.nodes, ∀ (aliasMap : AliasMap) (id : Identity),
      aliasMap.lookup n.fieldRef.dataset.toFull = none →
      (n.mask.isSome ↔ (({ E with sessionDefaults := defaults } : ColumnMaskingEnforcer).lookupMask
        n.fieldRef.dataset.toFull n.field aliasMap id).isSome)) ∧
    List.Forall₂ (ShowsEdge (view.nodes.map LineageNode.fieldRef)) view.edges graph.allEdges ∧
    (view.nodes.map LineageNode.fieldRef).Nodup ∧
    ∀ f, f ∈ view.nodes.map LineageNode.fieldRef ↔ ∃ e ∈ graph.allEdges, f = e.1 ∨ f = e.2.1 := by
  intro view
  have hnu := numbered_allEdges graph
  have hf : view.nodes.map LineageNode.fieldRef = (graph.allEdges.foldl numberEdge (.empty, [])).1.nodes := by
    simp only [view, buildLineageSnapshot, List.map_map]
    exact List.map_id _
  rw [hf]
  refine ⟨fun n hn aliasMap id ha => ?_, hnu.shows, hnu.inv.nodup, hnu.nodes⟩
  have hm : n.mask =
      annotatedMask configured ((propagateMasks configured graph false).drop configured.length) n.fieldRef := by
    obtain ⟨f, -, rfl⟩ := List.mem_map.mp hn
    rfl
  rw [hm]
  exact isSome_annotatedMask_iff.trans
    (isSome_lookupMask_iff hnew (unscoped_propagateMasks hunscoped) defaults aliasMap id n.fieldRef ha).symm

theorem lineage_view_of_view_agrees :
    let view := buildLineageSnapshot viewGraph [⟨"v", "SELECT email FROM users", none, none⟩] [emailMask none none]
      "dataglot" "public"
    view.nodes = [⟨"pg", "public", "users", "email", "source", some "configured"⟩,
      ⟨"dataglot", "public", "v", "email", "derived", some "propagated"⟩] ∧
    view.edges = [⟨0, 1, "identity"⟩] ∧
    ∃ E, ColumnMaskingEnforcer.new (propagateMasks [emailMask none none] viewGraph false) = .ok E ∧
      ∀ n ∈ view.nodes, ∀ id : Identity,
        (n.mask.isSome ↔ (E.lookupMask n.fieldRef.dataset.toFull n.field ∅ id).isSome) := by
  intro view
  have hu : ∀ m ∈ [emailMask none none], m.Unscoped := List.forall_mem_singleton.mpr ⟨rfl, rfl⟩
  refine ⟨by decide +kernel, by decide +kernel, _, rfl, fun n hn id => ?_⟩
  exact (lineage_view_agrees viewGraph _ _ "dataglot" "public" hu rfl none).1 n hn ∅ id rfl

end Dataglot
