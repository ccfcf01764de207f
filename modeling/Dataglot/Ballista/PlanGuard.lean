/-
The guard in front of the serializer (`plan_guard.rs`): a walk over the plan with a stack of
its own, which gives up when it has popped more nodes than the cap.

Plans are nodes of a graph here, since the plans the guard is for have cycles; a node that is
shared is walked once for each way to it.
-/
import Mathlib

namespace Dataglot
open List

structure PlanGraph (N : Type) where
  inputs : N → List N
  /-- The inner plan of a `FederatedPlanNode`. -/
  federatedPlan : N → Option N

def notSerializable : String :=
  "distributed execution of this query is not supported: its federated plan is cyclic or pathologically deep (" ++
  "typically an ambiguous cross-source GROUP BY aggregate that cannot be pushed to a single source). " ++
  "Re-run without distributed execution. Tracked as GH #418."

/-- What a walk ends with, and the stacks before each of its pops. -/
structure GuardRun (N : Type) where
  result : Except String Unit
  popped : List (List N)

namespace PlanGraph

variable {N : Type} (G : PlanGraph N)

/-- What is pushed for a node, the last first. -/
def pushed (node : N) : List N := (G.inputs node ++ (G.federatedPlan node).toList).reverse

/-- The loop of `validate_with_cap`; the top of the stack comes first. -/
def walk (maxNodes visited : Nat) : List N → GuardRun N
  | [] => ⟨.ok (), []⟩
  | node :: stack =>
    if maxNodes < visited + 1 then ⟨.error notSerializable, [node :: stack]⟩
    else
      let run := walk maxNodes (visited + 1) (G.pushed node ++ stack)
      ⟨run.result, (node :: stack) :: run.popped⟩
termination_by maxNodes - visited

def validateWithCap (plan : N) (maxNodes : Nat) : GuardRun N := G.walk maxNodes 0 [plan]

/-- The trees that the nodes unfold to have so many nodes in all. -/
inductive Unfolds : List N → Nat → Prop
  | nil : Unfolds [] 0
  | cons {node nodes below beside} : Unfolds (G.pushed node) below → Unfolds nodes beside →
    Unfolds (node :: nodes) (below + 1 + beside)

def Edge (a b : N) : Prop := b ∈ G.inputs a ∨ G.federatedPlan a = some b

variable {G} {nodes stack : List N} {a b cap k visited : Nat} {n m : N}

theorem mem_pushed : m ∈ G.pushed n ↔ G.Edge n m := by
  simp [pushed, Edge, eq_comm, or_comm]

theorem unfolds_append {l r : List N} : G.Unfolds (l ++ r) k ↔ ∃ a b, G.Unfolds l a ∧ G.Unfolds r b ∧ k = a + b := by
  induction l generalizing k with
  | nil =>
    constructor
    · exact fun h => ⟨0, k, .nil, h, by omega⟩
    · rintro ⟨_, b, ⟨⟩, h, rfl⟩
      rwa [Nat.zero_add]
  | cons n l ih =>
    constructor
    · rintro (_ | ⟨hbe, hbs⟩)
      obtain ⟨a, b, ha, hb, rfl⟩ := ih.mp hbs
      exact ⟨_, b, .cons hbe ha, hb, by omega⟩
    · rintro ⟨_, b, ⟨_, _⟩ | ⟨hbe, ha⟩, hb, rfl⟩
      rw [Nat.add_assoc]
      exact .cons hbe (ih.mpr ⟨_, b, ha, hb, rfl⟩)

/-- A pop takes one node off what the stack unfolds to. -/
theorem unfolds_pop : G.Unfolds (n :: stack) k ↔ ∃ j, G.Unfolds (G.pushed n ++ stack) j ∧ k = j + 1 := by
  constructor
  · rintro (_ | ⟨hbw, hbe⟩)
    exact ⟨_, unfolds_append.mpr ⟨_, _, hbw, hbe, rfl⟩, by omega⟩
  · rintro ⟨_, h, rfl⟩
    obtain ⟨a, b, ha, hb, rfl⟩ := unfolds_append.mp h
    rw [Nat.add_right_comm]
    exact .cons ha hb

theorem walk_ok_iff (hv : visited ≤ cap) :
    (G.walk cap visited stack).result = .ok () ↔ ∃ k, G.Unfolds stack k ∧ visited + k ≤ cap := by
  fun_induction walk G cap visited stack with
  | case1 visited => exact ⟨fun _ => ⟨0, .nil, hv⟩, fun _ => rfl⟩
  | case2 visited node stack hc =>
    refine ⟨nofun, ?_⟩
    rintro ⟨k, hk, hle⟩
    obtain ⟨j, -, rfl⟩ := unfolds_pop.mp hk
    omega
  | case3 visited node stack hc run ih =>
    rw [ih (by omega)]
    constructor
    · rintro ⟨j, hj, hle⟩
      exact ⟨j + 1, unfolds_pop.mpr ⟨j, hj, rfl⟩, by omega⟩
    · rintro ⟨k, hk, hle⟩
      obtain ⟨j, hj, rfl⟩ := unfolds_pop.mp hk
      exact ⟨j, hj, by omega⟩

theorem walk_bounded (hvisited : visited ≤ cap) :
    (G.walk cap visited stack).popped.length ≤ cap + 1 - visited ∧
    ∀ d, (∀ n, (G.pushed n).length ≤ d) → stack.length ≤ 1 + visited * d →
      ∀ s ∈ (G.walk cap visited stack).popped, s.length ≤ 1 + cap * d := by
  fun_induction walk G cap visited stack with
  | case1 visited => simp
  | case2 visited node stack hc =>
    obtain rfl : visited = cap := by omega
    exact ⟨by simp, fun d _ hst s hs => mem_singleton.mp hs ▸ hst⟩
  | case3 visited node stack hc run ih =>
    obtain ⟨hlength, hh⟩ : run.popped.length ≤ cap + 1 - (visited + 1) ∧ _ := ih (by omega)
    refine ⟨by simp only [length_cons]; omega, fun d hd hst s hs => ?_⟩
    rcases mem_cons.mp hs with rfl | hs
    · exact hst.trans (by gcongr)
    · refine hh d hd ?_ s hs
      have := hd node
      rw [length_append, Nat.add_mul]
      simp only [length_cons] at hst
      omega

theorem Unfolds.unique (ha : G.Unfolds nodes a) : ∀ {b}, G.Unfolds nodes b → a = b := by
  induction ha with
  | nil =>
    rintro _ ⟨⟩
    rfl
  | cons _ _ ihbelow ihbeside =>
    rintro _ (_ | ⟨hbe, hb⟩)
    rw [ihbelow hbe, ihbeside hb]

theorem Unfolds.mem (h : G.Unfolds nodes a) (hm : m ∈ nodes) : ∃ b ≤ a, G.Unfolds [m] b := by
  induction h with
  | nil => cases hm
  | @cons n _ below beside hbe _ _ ih =>
    rcases mem_cons.mp hm with rfl | hm
    · exact ⟨below + 1 + 0, by omega, .cons hbe .nil⟩
    · obtain ⟨b, hb, hu⟩ := ih hm
      exact ⟨b, by omega, hu⟩

theorem Unfolds.shrinks (h : G.Unfolds [n] a) (hp : Relation.TransGen G.Edge n m) : ∃ b < a, G.Unfolds [m] b := by
  have he : ∀ {n m a}, G.Unfolds [n] a → G.Edge n m → ∃ b < a, G.Unfolds [m] b := by
    rintro n m _ (_ | ⟨hbe, -⟩) he
    obtain ⟨b, hb, hu⟩ := hbe.mem (mem_pushed.mpr he)
    exact ⟨b, by omega, hu⟩
  induction hp with
  | single hnm => exact he h hnm
  | tail _ hnm ih =>
    obtain ⟨b, hb, hu⟩ := ih
    obtain ⟨c, hc, hu⟩ := he hu hnm
    exact ⟨c, by omega, hu⟩

/-- A cycle that can be come to has no finite unfolding. -/
theorem not_unfolds_of_cycle (hr : Relation.ReflTransGen G.Edge n m) (hcy : Relation.TransGen G.Edge m m) :
    ¬ G.Unfolds [n] a := by
  intro h
  obtain ⟨b, -, hm⟩ := h.shrinks (Relation.TransGen.trans_right hr hcy)
  obtain ⟨c, hc, hm'⟩ := hm.shrinks hcy
  exact absurd (hm.unique hm') (by omega)

/-- The guard pops no more than one node over the cap, holds no more than the pops can have pushed, and accepts the
plans whose tree is no larger than the cap, so none with a cycle. -/
theorem guard_bounded_and_exact (G : PlanGraph N) (plan : N) (cap : Nat) :
    (G.validateWithCap plan cap).popped.length ≤ cap + 1 ∧
    (∀ d, (∀ n, (G.pushed n).length ≤ d) → ∀ s ∈ (G.validateWithCap plan cap).popped, s.length ≤ 1 + cap * d) ∧
    ((G.validateWithCap plan cap).result = .ok () ↔ ∃ k ≤ cap, G.Unfolds [plan] k) ∧
    ∀ n, Relation.ReflTransGen G.Edge plan n → Relation.TransGen G.Edge n n →
      (G.validateWithCap plan cap).result ≠ .ok () := by
  have hok : (G.validateWithCap plan cap).result = .ok () ↔ ∃ k ≤ cap, G.Unfolds [plan] k := by
    rw [validateWithCap, walk_ok_iff (Nat.zero_le cap)]
    simp only [Nat.zero_add, and_comm]
  obtain ⟨hp, hh⟩ := @walk_bounded N G [plan] cap 0 (Nat.zero_le cap)
  refine ⟨hp, fun d hd => hh d hd (by simp), hok, fun n hr hc h => ?_⟩
  obtain ⟨k, -, hk⟩ := hok.mp h
  exact not_unfolds_of_cycle hr hc hk

end PlanGraph

end Dataglot
