/-
What a change does to the rules of other scopes (`RuleStorage::apply_change`).

The enforcers tell rules apart by their table, column, org and groups; a change goes by the
table, column and org. So rules of several groups can stand side by side, and a change to
one of them finds the first of them, whatever its groups are.
-/
import Dataglot.Policy.RuleStore

namespace Dataglot
open DataFusion KeyedList

/-- What a mask is registered under, as `ColumnMaskingEnforcer::new` has it. -/
def ColumnMask.scope (m : ColumnMask) : RuleKey × Option (List OrgGroupId) := (m.key, m.groups)

/-- What a row filter is registered under, as `RowFilterEnforcer::new` has it. -/
def RowFilter.scope (f : RowFilter) : RuleKey × Option (List OrgGroupId) := (f.key, f.groups)

namespace RuleStorage

variable (debug : Expr → String) (s : RuleStorage)

/-- What a change is to do: an upsert is about the rules of its scope, a removal about those of its key. -/
def Lawful (s' : RuleStorage) : RuleChange → Prop
  | .maskUpserted mask => KeyedList.Settled ColumnMask.scope mask s.masks s'.masks ∧ s' = { s with masks := s'.masks }
  | .maskRemoved table column org =>
    (s'.masks = s.masks.filter fun m => m.key ≠ .mask table column org) ∧ s' = { s with masks := s'.masks }
  | .rowFilterUpserted filter =>
    KeyedList.Settled RowFilter.scope filter s.filters s'.filters ∧ s' = { s with filters := s'.filters }
  | .rowFilterRemoved table org =>
    (s'.filters = s.filters.filter fun f => f.key ≠ .rowFilter table org) ∧ s' = { s with filters := s'.filters }

/-- What is found under the key of a change is the rule of its scope. If it prints like the new rule, it
stays in its place, and the new rule has to be there already. -/
def FindsItsScope : RuleChange → Prop
  | .maskUpserted mask =>
    ∀ old, (s.masks.find? fun m => m.key = mask.key) = some old →
      (s.masks.filter fun m => m.scope = mask.scope) = [if debug old.mask = debug mask.mask then mask else old]
  | .rowFilterUpserted filter =>
    ∀ old, (s.filters.find? fun f => f.key = filter.key) = some old →
      (s.filters.filter fun f => f.scope = filter.scope) =
        [if debug old.predicate = debug filter.predicate then filter else old]
  | .maskRemoved .. | .rowFilterRemoved .. => True

/-- A change does what it is to do iff it finds its own scope. -/
theorem lawful_applyChange_iff (change : RuleChange) :
    s.Lawful (s.applyChange debug change).1 change ↔ s.FindsItsScope debug change := by
  cases change with
  | maskUpserted mask =>
    have hf : ∀ a b : ColumnMask, a.scope = b.scope → a.key = b.key := fun a b h => congrArg Prod.fst h
    exact (and_iff_left rfl).trans (settled_upsert_iff hf mask s.masks)
  | rowFilterUpserted filter =>
    have hf : ∀ a b : RowFilter, a.scope = b.scope → a.key = b.key := fun a b h => congrArg Prod.fst h
    exact (and_iff_left rfl).trans (settled_upsert_iff hf filter s.filters)
  | maskRemoved table column org => exact iff_of_true ⟨rfl, rfl⟩ trivial
  | rowFilterRemoved table org => exact iff_of_true ⟨rfl, rfl⟩ trivial

/-- A mask for analysts is there. One for auditors takes its place, and is not taken in at all if it
hides the column in the same way. -/
theorem analysts_mask_lost :
    let debug (e : Expr) : String := match e with | .literal (.utf8 text) => text | _ => ""
    let mask (group text : String) : ColumnMask :=
      ⟨.bare "users", "email", .literal (.utf8 text), some "acme", some [⟨group⟩]⟩
    let s : RuleStorage := { empty with masks := [mask "analyst" "***"] }
    let other : RuleChange := .maskUpserted (mask "auditor" "hidden")
    let same : RuleChange := .maskUpserted (mask "auditor" "***")
    ((s.applyChange debug other).1.masks = [mask "auditor" "hidden"] ∧ ¬s.Lawful (s.applyChange debug other).1 other) ∧
      (s.applyChange debug same).1.masks = [mask "analyst" "***"] ∧ ¬s.Lawful (s.applyChange debug same).1 same := by
  refine ⟨⟨rfl, fun h => ?_⟩, rfl, fun h => ?_⟩
  · have ho := congrArg List.length h.1.2
    simp [applyChange, upsert, ColumnMask.scope] at ho
  · have hs := congrArg List.length h.1.1
    simp [applyChange, upsert, ColumnMask.scope] at hs

end RuleStorage

end Dataglot
