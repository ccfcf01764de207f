/-
`collect_alias_targets`, which the mask and the whitelist enforcer share: the
tables that aliases stand for. One map serves a whole plan. It is keyed by the
alias without qualifiers and a later declaration replaces an earlier one.
-/
import Mathlib
import Dataglot.DataFusion.Plan

namespace Dataglot
open DataFusion

abbrev AliasMap := AList fun _ : TableReference => TableReference

mutual

/-- `collect_alias_targets`: an alias counts when it stands directly over a scan. -/
def collectAliasTargets : LogicalPlan → AliasMap → AliasMap
  | .subqueryAlias name (.tableScan t _ _ _), out => out.insert (.bare name.table) t
  | .subqueryAlias _ input, out => collectAliasTargets input out
  | .filter _ input, out => collectAliasTargets input out
  | .projection _ input _, out => collectAliasTargets input out
  | .node _ _ _ inputs _, out => collectAliasTargetsList inputs out
  | .tableScan _ _ _ _, out => out

def collectAliasTargetsList : List LogicalPlan → AliasMap → AliasMap
  | [], out => out
  | p :: ps, out => collectAliasTargetsList ps (collectAliasTargets p out)

end

def aliasTargets (plan : LogicalPlan) : AliasMap := collectAliasTargets plan ∅

mutual

/-- The declarations that the map is made of, in the order of the walk. -/
def aliasDecls : LogicalPlan → List (TableReference × TableReference)
  | .subqueryAlias name (.tableScan t _ _ _) => [(.bare name.table, t)]
  | .subqueryAlias _ input => aliasDecls input
  | .filter _ input => aliasDecls input
  | .projection _ input _ => aliasDecls input
  | .node _ _ _ inputs _ => aliasDeclsList inputs
  | .tableScan _ _ _ _ => []

def aliasDeclsList : List LogicalPlan → List (TableReference × TableReference)
  | [] => []
  | p :: ps => aliasDecls p ++ aliasDeclsList ps

end

mutual

theorem collectAliasTargets_eq : ∀ p out,
    collectAliasTargets p out = (aliasDecls p).foldl (fun m d => m.insert d.1 d.2) out
  | .subqueryAlias _ (.tableScan _ _ _ _), _ => rfl
  | .subqueryAlias _ (.subqueryAlias n i), out => collectAliasTargets_eq (.subqueryAlias n i) out
  | .subqueryAlias _ (.filter e i), out => collectAliasTargets_eq (.filter e i) out
  | .subqueryAlias _ (.projection es i s), out => collectAliasTargets_eq (.projection es i s) out
  | .subqueryAlias _ (.node k d es is s), out => collectAliasTargets_eq (.node k d es is s) out
  | .filter _ input, out => collectAliasTargets_eq input out
  | .projection _ input _, out => collectAliasTargets_eq input out
  | .node _ _ _ inputs _, out => collectAliasTargetsList_eq inputs out
  | .tableScan _ _ _ _, _ => rfl

theorem collectAliasTargetsList_eq : ∀ ps out,
    collectAliasTargetsList ps out = (aliasDeclsList ps).foldl (fun m d => m.insert d.1 d.2) out
  | [], _ => rfl
  | p :: ps, out => by
    rw [collectAliasTargetsList, aliasDeclsList, List.foldl_append, collectAliasTargets_eq p out,
      collectAliasTargetsList_eq ps]

end

end Dataglot
