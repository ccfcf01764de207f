/-
The edges of the lineage graph, and what can be reached along them.

Each pair of fields has one edge at most, and its transformation is the most derived one
that any product was added with. So the edges are known from the set of the products,
whatever their order and however often each was added.
-/
import Mathlib
import Dataglot.Core.LineageGraph
import Dataglot.Library.KeyedList

namespace Dataglot
open KeyedList List AList

namespace TransformationType

theorem rank_injective : Function.Injective rank := by
  intro a b h
  cases a <;> cases b <;> first | rfl | cases h

/-- `Identity < Transformation < Aggregation`. -/
instance : LinearOrder TransformationType := LinearOrder.lift' rank rank_injective

theorem combine_eq_max (a b : TransformationType) : a.combine b = max a b := by
  cases a <;> cases b <;> rfl

end TransformationType

/-- The edge that is there takes up the transformation of the new one. -/
def LineageEdge.combine (e new : LineageEdge) : LineageEdge := ⟨e.target, e.transform.combine new.transform⟩

theorem LineageEdge.target_combine (e new : LineageEdge) : (e.combine new).target = e.target := rfl

namespace LineageGraph

variable {g : LineageGraph} {source target : FieldRef}

/-! ## One edge for each pair -/

def transformIn : List LineageEdge → FieldRef → Option TransformationType :=
  KeyedList.bodyAt LineageEdge.target LineageEdge.transform

theorem transformIn_cons (e adj target) :
    transformIn (e :: adj) target = if e.target = target then some e.transform else transformIn adj target :=
  bodyAt_cons ..

def transformOf (g : LineageGraph) (source target : FieldRef) : Option TransformationType :=
  transformIn ((g.edges.lookup source).getD []) target

/-- What the edge becomes when it is added with another transformation. -/
def strengthen (old : Option TransformationType) (transform : TransformationType) : TransformationType :=
  (old.map (max · transform)).getD transform

theorem transformIn_mergeEdge (transform target') : ∀ adj, transformIn (mergeEdge target transform adj) target' =
      if target = target' then some (strengthen (transformIn adj target) transform) else transformIn adj target'
  | [] => by rw [mergeEdge, transformIn_cons]; rfl
  | e :: adj => by
    have ih := transformIn_mergeEdge transform target' adj
    rw [mergeEdge]
    by_cases he : e.target = target
    · rw [if_pos he, transformIn_cons, transformIn_cons, transformIn_cons, if_pos he, he]
      rw [TransformationType.combine_eq_max]
      by_cases h : target = target'
      · rw [if_pos h, if_pos h]
        rfl
      · rw [if_neg h, if_neg h, if_neg h]
    · rw [if_neg he, transformIn_cons, transformIn_cons, transformIn_cons, if_neg he, ih]
      by_cases h : target = target'
      · rw [if_pos h, if_pos h, if_neg (h ▸ he)]
      · rw [if_neg h, if_neg h]

theorem transformOf_addEdge (s t transform) :
    (g.addEdge source target transform).transformOf s t =
      if source = s ∧ target = t then some (strengthen (g.transformOf s t) transform) else g.transformOf s t := by
  unfold transformOf addEdge
  by_cases hs : source = s
  · subst hs
    rw [lookup_insert, Option.getD_some, transformIn_mergeEdge]
    by_cases ht : target = t
    · simp [ht]
    · simp [ht]
  · rw [lookup_insert_ne (Ne.symm hs), if_neg fun h => hs h.1]

theorem mergeEdge_eq_merge (transform) : ∀ adj,
    mergeEdge target transform adj = merge LineageEdge.target LineageEdge.combine ⟨target, transform⟩ adj
  | [] => rfl
  | e :: adj => by
    rw [mergeEdge, mergeEdge_eq_merge transform adj]
    rfl

/-- No two edges of a field go to the same field. -/
def Simple (g : LineageGraph) : Prop :=
  ∀ source adj, g.edges.lookup source = some adj → (adj.map (·.target)).Nodup

theorem simple_empty : Simple empty := by
  intro source adj h
  cases h

theorem Simple.addEdge (h : g.Simple) (source target transform) :
    (g.addEdge source target transform).Simple := by
  intro s adj ha
  unfold LineageGraph.addEdge at ha
  by_cases hs : s = source
  · subst hs
    rw [lookup_insert] at ha
    cases ha
    have ho : (((g.edges.lookup s).getD []).map (·.target)).Nodup := by
      cases hl : g.edges.lookup s with
      | none => exact nodup_nil
      | some old => exact h s old hl
    rw [mergeEdge_eq_merge]
    exact nodup_merge LineageEdge.target_combine _ ho
  · rw [lookup_insert_ne hs] at ha
    exact h s adj ha

abbrev Edge := FieldRef × FieldRef × TransformationType

/-- `edges`: every edge of the graph. -/
def allEdges (g : LineageGraph) : List Edge :=
  g.edges.entries.flatMap fun entry => entry.2.map fun e => (entry.1, e.target, e.transform)

variable {s t : FieldRef} {transform : TransformationType}

theorem mem_allEdges_iff_lookup :
    (s, t, transform) ∈ g.allEdges ↔ ∃ adj, g.edges.lookup s = some adj ∧ ⟨t, transform⟩ ∈ adj := by
  unfold allEdges
  rw [mem_flatMap]
  constructor
  · rintro ⟨⟨source, adj⟩, hen, hm⟩
    obtain ⟨e, he, heq⟩ := mem_map.mp hm
    cases heq
    exact ⟨adj, mem_lookup_iff.mpr hen, he⟩
  · rintro ⟨adj, ha, hm⟩
    exact ⟨⟨s, adj⟩, mem_lookup_iff.mp ha, mem_map.mpr ⟨_, hm, rfl⟩⟩

theorem Simple.mem_allEdges (h : g.Simple) : (s, t, transform) ∈ g.allEdges ↔ g.transformOf s t = some transform := by
  rw [mem_allEdges_iff_lookup, transformOf]
  cases ha : g.edges.lookup s with
  | none => simp [transformIn]
  | some adj =>
    rw [Option.getD_some, transformIn, bodyAt_eq_some_iff (h s adj ha)]
    constructor
    · rintro ⟨_, hs, hm⟩
      cases hs
      exact ⟨_, hm, rfl, rfl⟩
    · rintro ⟨e, hm, rfl, rfl⟩
      exact ⟨adj, rfl, hm⟩

/-! ## The edges of a sequence of products -/

def productEdges (call : DatasetRef × ColumnLineage) : List Edge :=
  call.2.flatMap fun ofl => ofl.inputs.map fun c => (c.field, ⟨call.1, ofl.outputField⟩, c.transform)

variable (calls : List (DatasetRef × ColumnLineage))

/-- A sequence of `add_product` calls on an empty graph. -/
def addProducts : LineageGraph :=
  calls.foldl (fun g call => g.addProduct call.1 call.2) empty

def addEdges (es : List Edge) (g : LineageGraph) : LineageGraph := es.foldl (fun g e => g.addEdge e.1 e.2.1 e.2.2) g

theorem addProduct_eq (g call) :
    g.addProduct call.1 call.2 = addEdges (productEdges call) g := by
  unfold addProduct addEdges productEdges
  rw [foldl_flatMap]
  simp only [foldl_map]

theorem addProducts_eq : addProducts calls = addEdges (calls.flatMap productEdges) empty := by
  unfold addProducts addEdges
  rw [foldl_flatMap]
  simp only [addProduct_eq]
  rfl

theorem isGreatest_insert_max {α : Type} [LinearOrder α] {a b m} {S : Set α} :
    IsGreatest (insert (max a b) S) m ↔ IsGreatest (insert a (insert b S)) m := by
  have hb : m ∈ upperBounds (insert (max a b) S) ↔ m ∈ upperBounds (insert a (insert b S)) := by
    rw [upperBounds_insert, upperBounds_insert, upperBounds_insert]
    simp only [Set.mem_inter_iff, Set.mem_Ici, max_le_iff, and_assoc]
  constructor
  · rintro ⟨hm, hu⟩
    refine ⟨?_, hb.mp hu⟩
    rcases hm with rfl | hm
    · rcases le_total a b with h | h
      · rw [max_eq_right h]
        exact .inr (.inl rfl)
      · rw [max_eq_left h]
        exact .inl rfl
    · exact .inr (.inr hm)
  · rintro ⟨hm, hu⟩
    refine ⟨?_, hb.mpr hu⟩
    rcases hm with rfl | rfl | hm
    · exact .inl (max_eq_left (hu (.inr (.inl rfl)))).symm
    · exact .inl (max_eq_right (hu (.inl rfl))).symm
    · exact .inr hm

theorem transformOf_addEdges : ∀ es g, (addEdges es g).transformOf s t = some transform ↔
      IsGreatest {x | g.transformOf s t = some x ∨ (s, t, x) ∈ es} transform
  | [], g => by
    constructor
    · intro h
      refine ⟨.inl h, fun x hx => ?_⟩
      rcases hx with hx | hx
      · exact (Option.some.inj (hx.symm.trans h)).le
      · cases hx
    · rintro ⟨h | h, -⟩
      · exact h
      · cases h
  | e :: es, g => by
    rw [addEdges, foldl_cons]
    refine (transformOf_addEdges es _).trans ?_
    rw [transformOf_addEdge]
    obtain ⟨source, target, added⟩ := e
    by_cases he : source = s ∧ target = t
    · obtain ⟨rfl, rfl⟩ := he
      have hn : {x | some (strengthen (g.transformOf source target) added) = some x ∨ (source, target, x) ∈ es} =
          insert (strengthen (g.transformOf source target) added) {x | (source, target, x) ∈ es} := by
        ext x
        simp [eq_comm]
      rw [if_pos ⟨rfl, rfl⟩, hn]
      cases hold : g.transformOf source target with
      | none =>
        simp [strengthen, Set.insert_def]
      | some old =>
        rw [strengthen, Option.map_some, Option.getD_some, isGreatest_insert_max]
        simp [Set.insert_def, eq_comm]
    · have ho : ∀ x, ((s, t, x) ∈ (source, target, added) :: es) ↔ (s, t, x) ∈ es := by
        intro x
        rw [mem_cons, or_iff_right]
        intro h
        cases h
        exact he ⟨rfl, rfl⟩
      rw [if_neg he]
      simp only [ho]

theorem Simple.addEdges : ∀ {g}, g.Simple → ∀ es, (LineageGraph.addEdges es g).Simple
  | _, h, [] => h
  | _, h, e :: es => Simple.addEdges (h.addEdge e.1 e.2.1 e.2.2) es

theorem simple_addProducts : (addProducts calls).Simple := by
  rw [addProducts_eq]
  exact simple_empty.addEdges _

/-- **The edges** of a sequence of products: for each pair, the most derived of those that the products have. -/
theorem mem_allEdges_addProducts {calls} : (s, t, transform) ∈ (addProducts calls).allEdges ↔
      IsGreatest {x | ∃ call ∈ calls, (s, t, x) ∈ productEdges call} transform := by
  have ha : ∀ x, (empty.transformOf s t = some x ∨ (s, t, x) ∈ calls.flatMap productEdges) ↔
      ∃ call ∈ calls, (s, t, x) ∈ productEdges call := by
    intro x
    rw [mem_flatMap, or_iff_right]
    intro h
    cases h
  rw [(simple_addProducts calls).mem_allEdges, addProducts_eq, transformOf_addEdges]
  simp only [ha]

/-! ## Reachability -/

/-- There is an edge that the search may cross. -/
def Crosses (g : LineageGraph) (through : Bool) (s t : FieldRef) : Prop :=
  ∃ transform, (s, t, transform) ∈ g.allEdges ∧ (transform = .aggregation → through = true)

theorem derives_iff_crosses {through} : g.Derives through s t ↔ g.Crosses through s t := by
  unfold Derives Crosses
  simp only [mem_allEdges_iff_lookup]
  constructor
  · rintro ⟨adj, ha, ⟨_, transform⟩, he, rfl, hc⟩
    exact ⟨transform, ⟨adj, ha, he⟩, hc⟩
  · rintro ⟨transform, ⟨adj, ha, he⟩, hc⟩
    exact ⟨adj, ha, _, he, rfl, hc⟩

theorem descends_iff {through root d} :
    g.Descends through root d ↔ d ≠ root ∧ Relation.TransGen (g.Crosses through) root d := by
  have hs : g.Derives through = g.Crosses through := by
    funext s t
    exact propext derives_iff_crosses
  unfold Descends
  rw [hs]
  refine and_congr_right fun hne => ?_
  rw [Relation.reflTransGen_iff_eq_or_transGen, or_iff_right hne]

theorem nodup_descendants (g : LineageGraph) (root through) :
    (g.descendants root through).Nodup := by
  unfold descendants
  refine (perm_insertionSort _ _).nodup_iff.mpr ?_
  exact (Search.inv_run_start fun _ _ => mem_targets_of_mem_next).1.nodup_out

/-- **Reachability is exact.** However the products are ordered and repeated, the loop ends, what it returns is what
a path of edges it may cross leads to, each once, and the edges and so the result are the same. -/
theorem descendants_exact (calls calls' : List (DatasetRef × ColumnLineage)) (hsame : ∀ c, c ∈ calls ↔ c ∈ calls')
    (root : FieldRef) (through : Bool) :
    let g := addProducts calls
    let g' := addProducts calls'
    (Search.run (g.next through) (g.targets.length + 1) (Search.start root)).stack = [] ∧
      (g.descendants root through).Nodup ∧
      (∀ d, d ∈ g.descendants root through ↔ d ≠ root ∧ Relation.TransGen (g.Crosses through) root d) ∧
      (∀ e, e ∈ g.allEdges ↔ e ∈ g'.allEdges) ∧
      (g.descendants root through).Perm (g'.descendants root through) := by
  intro g g'
  have hm : ∀ calls d, d ∈ (addProducts calls).descendants root through ↔
      d ≠ root ∧ Relation.TransGen ((addProducts calls).Crosses through) root d :=
    fun calls d => mem_descendants.trans descends_iff
  have he : ∀ e, e ∈ g.allEdges ↔ e ∈ g'.allEdges := by
    rintro ⟨s, t, transform⟩
    rw [mem_allEdges_addProducts, mem_allEdges_addProducts]
    simp only [hsame]
  have hc : g.Crosses through = g'.Crosses through := by
    funext s t
    unfold Crosses
    simp only [he]
  refine ⟨(Search.inv_run_start fun _ _ => mem_targets_of_mem_next).2, nodup_descendants .., hm calls, he, ?_⟩
  refine (List.perm_ext_iff_of_nodup (nodup_descendants ..) (nodup_descendants ..)).mpr fun d => ?_
  rw [hm calls, hm calls']
  exact and_congr_right fun _ => by rw [show (addProducts calls).Crosses through = _ from hc]

/-- A view of a table's column, and the table filled from the sum over the view. -/
def cyclicProducts : List (DatasetRef × ColumnLineage) :=
  [(⟨"default", "public", "v"⟩, [⟨"x", [⟨⟨⟨"default", "public", "t"⟩, "x"⟩, .identity⟩]⟩]),
    (⟨"default", "public", "t"⟩, [⟨"x", [⟨⟨⟨"default", "public", "v"⟩, "x"⟩, .aggregation⟩]⟩])]

theorem cyclic_descendants_exact :
    let g := addProducts (cyclicProducts ++ cyclicProducts.reverse)
    (∀ e, e ∈ g.allEdges ↔ e ∈ (addProducts cyclicProducts.reverse).allEdges) ∧
      g.descendants ⟨⟨"default", "public", "t"⟩, "x"⟩ false = [⟨⟨"default", "public", "v"⟩, "x"⟩] := by
  have hs : ∀ c, c ∈ cyclicProducts ++ cyclicProducts.reverse ↔ c ∈ cyclicProducts.reverse := by simp
  exact ⟨(descendants_exact _ _ hs ⟨⟨"default", "public", "t"⟩, "x"⟩ false).2.2.2.1, by decide +kernel⟩

end LineageGraph

end Dataglot
