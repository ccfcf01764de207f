/-
Which base table a column reference is one to, as SQL scopes names: a reference
in a node's expressions sees the relations below the node, a scan under its own
name or under an alias that stands directly over it. An outer reference of a
subquery sees those of the nodes around the subquery.
-/
import Dataglot.DataFusion.Plan

namespace DataFusion

/-- The names in sight, each with the table that is scanned under it. -/
abbrev Scope := List (TableReference × TableReference)

mutual

/-- The relations a plan offers to the node above it. An alias over anything but a scan names a derived
table. -/
def relations : LogicalPlan → Scope
  | .tableScan t _ _ _ => [(t, t)]
  | .subqueryAlias name (.tableScan t _ _ _) => [(name, t)]
  | .subqueryAlias _ _ => []
  | .filter _ input => relations input
  | .projection _ input _ => relations input
  | .node _ _ _ inputs _ => relationsList inputs

def relationsList : List LogicalPlan → Scope
  | [] => []
  | p :: ps => relations p ++ relationsList ps

end

/-- What the expressions of a node see. -/
def scopeOf (p : LogicalPlan) : Scope := relationsList p.inputs

/-- The reference is one to a column of the table, given the columns that tables have. -/
def Column.ResolvesTo (columnsOf : TableReference → List String) (scope : Scope) (c : Column)
    (t : TableReference) : Prop :=
  ∃ name, (name, t) ∈ scope ∧ c.name ∈ columnsOf t ∧ ∀ rel, c.relation = some rel → rel.resolvedEq name

/-- What the subqueries of a node see around them. -/
abbrev enterScope (p : LogicalPlan) (outer : Scope) : Scope := scopeOf p ++ outer

/-- `Φ` holds at every node of the plan, in its inputs and in the subqueries of its expressions. `Φ` is
told the root of the plan or subquery that the node belongs to and what is known of the rows around it, to
which `enter` adds the node when it goes into a subquery. -/
inductive EachNode {σ : Type} (enter : LogicalPlan → σ → σ)
    (Φ : (root : LogicalPlan) → (outer : σ) → (node : LogicalPlan) → Prop) : LogicalPlan → σ → LogicalPlan → Prop
  | intro {root p : LogicalPlan} {outer : σ} (here : Φ root outer p)
      (inputs : ∀ i ∈ p.inputs, EachNode enter Φ root outer i)
      (subqueries : ∀ e ∈ p.expressions, ∀ q, e.Embeds q → EachNode enter Φ q (enter p outer) q) :
      EachNode enter Φ root outer p

section EachNode

variable {σ : Type} {enter : LogicalPlan → σ → σ}
  {Φ : (root : LogicalPlan) → (outer : σ) → (node : LogicalPlan) → Prop} {root p : LogicalPlan} {outer : σ}

theorem eachNode_iff : EachNode enter Φ root outer p ↔
    Φ root outer p ∧ (∀ i ∈ p.inputs, EachNode enter Φ root outer i) ∧
      ∀ e ∈ p.expressions, ∀ q, e.Embeds q → EachNode enter Φ q (enter p outer) q := by
  constructor
  · rintro ⟨here, hi, hs⟩
    exact ⟨here, hi, hs⟩
  · rintro ⟨here, hi, hs⟩
    exact .intro here hi hs

theorem EachNode.imp {Ψ} (h : ∀ root outer p, Φ root outer p → Ψ root outer p) (hp : EachNode enter Φ root outer p) :
    EachNode enter Ψ root outer p := by
  induction hp with
  | intro here _ _ hi hs => exact .intro (h _ _ _ here) hi hs

theorem eachNode_of_forall (h : ∀ root outer p, Φ root outer p) (p) :
    ∀ root outer, EachNode enter Φ root outer p := by
  refine LogicalPlan.induct ?_ p
  intro p hin hex root outer
  exact .intro (h root outer p) (fun i hi => hin i hi root outer) fun e he q hq => hex e he q hq q _

end EachNode

end DataFusion
