/-
The connector registry (`InMemoryConnectorRegistry` in `registry.rs`), as far as it names a
connector by its compute context.

The index is collected from the executors in the order their hash map is iterated in, and of
two names for one context the later one stays.
-/
import Dataglot.Library.KeyedList
import Mathlib

namespace Dataglot
open List Option

structure SQLExecutor where
  computeContext : Option String

/-- The hash map from names to executors, in one order of iteration. -/
structure Executors where
  entries : List (String × SQLExecutor)
  distinct : (entries.map Prod.fst).Nodup

structure InMemoryConnectorRegistry where
  executors : Executors
  computeContexts : String → Option String

namespace InMemoryConnectorRegistry

def contextNames (entries : List (String × SQLExecutor)) : List (String × String) :=
  entries.filterMap fun (name, executor) => executor.computeContext.map fun context => (context, name)

/-- `collect` into a `BTreeMap`: of equal keys the last stays. -/
def collect (pairs : List (String × String)) : String → Option String :=
  pairs.foldl (fun index e => Function.update index e.1 (some e.2)) fun _ => none

def buildComputeContexts (executors : Executors) : String → Option String := collect (contextNames executors.entries)

def new (executors : Executors) : InMemoryConnectorRegistry := ⟨executors, buildComputeContexts executors⟩

def findNameByComputeContext (registry : InMemoryConnectorRegistry) (context : String) : Option String :=
  registry.computeContexts context

end InMemoryConnectorRegistry

open InMemoryConnectorRegistry

namespace Executors

variable {executors order : Executors} {context name : String}

def Reports (executors : Executors) (context name : String) : Prop :=
  ∃ executor, (name, executor) ∈ executors.entries ∧ executor.computeContext = some context

theorem mem_contextNames : (context, name) ∈ contextNames executors.entries ↔ executors.Reports context name := by
  simp [contextNames, Reports, mem_filterMap, map_eq_some_iff]

theorem reports_congr (h : order.entries.Perm executors.entries) : order.Reports = executors.Reports := by
  funext context name
  simp only [Reports, h.mem_iff]

theorem find_eq (executors context) : (new executors).findNameByComputeContext context =
    (((contextNames executors.entries).filter fun e => e.1 = context).getLast?).map Prod.snd := by
  refine (KeyedList.lookup_foldl id _ Prod.fst (some ∘ Prod.snd) (fun _ _ _ => Function.update_apply ..)
    context (contextNames executors.entries) fun _ => none).trans ?_
  cases ((contextNames executors.entries).filter fun e => e.1 = context).getLast? <;> rfl

theorem reports_of_find (h : (new executors).findNameByComputeContext context = some name) :
    executors.Reports context name := by
  rw [find_eq] at h
  obtain ⟨⟨c, _⟩, hlast, rfl⟩ := map_eq_some_iff.mp h
  obtain ⟨hm, hc⟩ := mem_filter.mp (mem_of_getLast? hlast)
  obtain rfl : c = context := by simpa using hc
  exact mem_contextNames.mp hm

theorem find_eq_none_iff : (new executors).findNameByComputeContext context = none ↔
    ∀ name, ¬ executors.Reports context name := by
  simp only [find_eq, map_eq_none_iff, getLast?_eq_none_iff, filter_eq_nil_iff, ← mem_contextNames]
  grind

/-- An executor is named in an iteration that ends with it. -/
theorem Reports.exists_order (h : executors.Reports context name) : ∃ order,
    order.entries.Perm executors.entries ∧ (new order).findNameByComputeContext context = some name := by
  obtain ⟨executor, hm, hc⟩ := h
  obtain ⟨s, t, hst⟩ := append_of_mem hm
  have hp : (s ++ t ++ [(name, executor)]).Perm executors.entries := by
    rw [hst]
    exact (perm_append_singleton _ (s ++ t)).trans perm_middle.symm
  refine ⟨⟨_, (hp.map Prod.fst).nodup_iff.mpr executors.distinct⟩, hp, ?_⟩
  rw [find_eq]
  simp [contextNames, hc]

/-- The answers are the same in every process just when no two executors report one context. -/
theorem connector_name_deterministic_iff (executors : Executors) :
    ((∀ a b : Executors, a.entries.Perm executors.entries → b.entries.Perm executors.entries → ∀ context,
        (new a).findNameByComputeContext context = (new b).findNameByComputeContext context) ↔
      ∀ context name name', executors.Reports context name → executors.Reports context name' → name = name') ∧
    ∀ order : Executors, order.entries.Perm executors.entries → ∀ context,
      ((new order).findNameByComputeContext context = none ↔ ∀ name, ¬ executors.Reports context name) ∧
      ∀ name, (new order).findNameByComputeContext context = some name → executors.Reports context name := by
  refine ⟨⟨fun h context name name' hname hname' => ?_, fun h a b ha hb context => ?_⟩, fun order ho context => ?_⟩
  · obtain ⟨a, ha, hfi⟩ := hname.exists_order
    obtain ⟨b, hb, hfi'⟩ := hname'.exists_order
    exact some.inj (hfi.symm.trans ((h a b ha hb context).trans hfi'))
  · have hn := @find_eq_none_iff a context
    rw [reports_congr ha, ← reports_congr hb, ← find_eq_none_iff] at hn
    cases hf : (new a).findNameByComputeContext context with
    | none => exact (hn.mp hf).symm
    | some name =>
      obtain ⟨name', hf'⟩ := ne_none_iff_exists'.mp fun hb => nomatch hf.symm.trans (hn.mpr hb)
      rw [hf', h context name name' (reports_congr ha ▸ reports_of_find hf)
        (reports_congr hb ▸ reports_of_find hf')]
  · rw [← reports_congr ho]
    exact ⟨find_eq_none_iff, fun name => reports_of_find⟩

def postgres : SQLExecutor := ⟨some "db:5432"⟩

theorem connector_name_varies :
    (new ⟨[("sales", postgres), ("crm", postgres)], by decide⟩).findNameByComputeContext "db:5432" = some "crm" ∧
    (new ⟨[("crm", postgres), ("sales", postgres)], by decide⟩).findNameByComputeContext "db:5432" = some "sales" := by
  decide

end Executors

end Dataglot
