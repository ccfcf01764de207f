/-
The column-lineage graph (`lineage.rs`): from each field to the fields that derive from
it, and how. The descendants of a field are found by a search that does not cross
aggregations unless it is told to.
-/
import Mathlib
import Dataglot.Library.Search

namespace Dataglot

structure DatasetRef where
  catalog : String
  schema : String
  table : String
  deriving DecidableEq, Repr, Ord

structure FieldRef where
  dataset : DatasetRef
  field : String
  deriving DecidableEq, Repr, Ord

inductive TransformationType
  | identity
  | transformation
  | aggregation
  deriving DecidableEq, Repr

namespace TransformationType

def rank : TransformationType → Nat
  | .identity => 0
  | .transformation => 1
  | .aggregation => 2

/-- `combine`: the more derived of the two. -/
def combine (self other : TransformationType) : TransformationType :=
  if self.rank ≥ other.rank then self else other

end TransformationType

/-- `InputFieldContribution`, without the mark that a mask was applied. -/
structure InputFieldContribution where
  field : FieldRef
  transform : TransformationType

structure OutputFieldLineage where
  outputField : String
  inputs : List InputFieldContribution

abbrev ColumnLineage := List OutputFieldLineage

structure LineageEdge where
  target : FieldRef
  transform : TransformationType
  deriving DecidableEq, Repr

/-- `LineageGraph`: the edges of each field. The map is iterated over in the order of its entries, which is any. -/
structure LineageGraph where
  edges : AList fun _ : FieldRef => List LineageEdge

namespace LineageGraph

def empty : LineageGraph := ⟨∅⟩

/-- An edge joins those of a field: one to the same field is strengthened. -/
def mergeEdge (target : FieldRef) (transform : TransformationType) : List LineageEdge → List LineageEdge
  | [] => [⟨target, transform⟩]
  | e :: adj =>
    if e.target = target then ⟨e.target, e.transform.combine transform⟩ :: adj
    else e :: mergeEdge target transform adj

def addEdge (g : LineageGraph) (source target : FieldRef) (transform : TransformationType) : LineageGraph :=
  ⟨g.edges.insert source (mergeEdge target transform ((g.edges.lookup source).getD []))⟩

def addProduct (g : LineageGraph) (product : DatasetRef) (lineage : ColumnLineage) : LineageGraph :=
  lineage.foldl (fun g ofl => ofl.inputs.foldl (fun g c => g.addEdge c.field ⟨product, ofl.outputField⟩ c.transform) g) g

/-- `source_fields`: the fields with an edge. -/
def sourceFields (g : LineageGraph) : List FieldRef := g.edges.keys

/-- The fields to which the search goes on from a field. -/
def next (g : LineageGraph) (propagateThroughAggregation : Bool) (node : FieldRef) : List FieldRef :=
  let adj := (g.edges.lookup node).getD []
  (adj.filter fun e => !(e.transform = .aggregation && !propagateThroughAggregation)).map (·.target)

def targets (g : LineageGraph) : List FieldRef := g.edges.entries.flatMap fun e => e.2.map (·.target)

/-- `descendants`, in the order of the `BTreeSet`. -/
def descendants (g : LineageGraph) (root : FieldRef) (propagateThroughAggregation : Bool) : List FieldRef :=
  let found := Search.run (g.next propagateThroughAggregation) (g.targets.length + 1) (Search.start root)
  found.out.insertionSort fun a b => (compare a b).isLE

/-! ## Derivation -/

variable {g : LineageGraph} {through : Bool}

/-- A field derives from another one, directly. -/
def Derives (g : LineageGraph) (through : Bool) (source derived : FieldRef) : Prop :=
  ∃ adj, g.edges.lookup source = some adj ∧
    ∃ e ∈ adj, e.target = derived ∧ (e.transform = .aggregation → through = true)

/-- A field derives from another one, through others. -/
def Descends (g : LineageGraph) (through : Bool) (source derived : FieldRef) : Prop :=
  derived ≠ source ∧ Relation.ReflTransGen (g.Derives through) source derived

theorem mem_next {source derived} : derived ∈ g.next through source ↔ g.Derives through source derived := by
  unfold next Derives
  cases g.edges.lookup source with
  | none => simp
  | some adj =>
    cases through <;> simp [and_comm, and_assoc]

theorem mem_targets_of_mem_next {source derived} (h : derived ∈ g.next through source) : derived ∈ g.targets := by
  obtain ⟨adj, ha, e, he, rfl, -⟩ := mem_next.mp h
  exact List.mem_flatMap.mpr ⟨⟨source, adj⟩, AList.mem_lookup_iff.mp ha, List.mem_map_of_mem he⟩

/-- **The descendants** are the fields that derive from the root, directly or through others. -/
theorem mem_descendants {root d} : d ∈ g.descendants root through ↔ g.Descends through root d := by
  have he : Search.Edge (g.next through) = g.Derives through := by
    funext source derived
    exact propext mem_next
  unfold descendants Descends
  rw [List.mem_insertionSort, Search.mem_out_run_iff fun _ _ => mem_targets_of_mem_next, he]

end LineageGraph

end Dataglot
