/-
The order in which rules are given (`lookup_mask`, `resolve_predicate`).

Row filters of a key are joined by AND, so their order is no matter. Of the masks of a column
one is picked: the first that no other outranks. A session of several groups may have several
masks of one rank on the same key, and then it is their order that decides.
-/
import Dataglot.DataFusion.Eval
import Dataglot.Policy.Mask
import Dataglot.Policy.RowFilterResolve

namespace Dataglot
open DataFusion ColumnMaskingEnforcer RowFilterEnforcer List Option

/-! ## Masks: what is picked -/

namespace ColumnMaskingEnforcer

def rank (r : ScopedRule Expr) : Nat := r.org.isSome.toNat * 2 + r.groups.isSome.toNat

variable {id : Identity}

variable {r : ScopedRule Expr} {rules : List (ScopedRule Expr)} {aliasMap : AliasMap} {rel : TableReference}

theorem pickRule_of_applies (h : r.applies id) (best) :
    pickRule id best r = if best.all fun b => b.1 < rank r then some (rank r, r.rule) else best := by
  have hr : applicableRank r.org r.groups id = some (rank r) := by
    simp only [ScopedRule.applies, Bool.and_eq_true] at h
    simp [applicableRank, rank, h.1, h.2]
  unfold pickRule
  rw [hr]
  cases best with
  | none => rfl
  | some b => simp

theorem foldl_pickRule_stays {b} (ha : ∀ r ∈ rules, r.applies id) (h : ∀ r ∈ rules, rank r ≤ b.1) :
    rules.foldl (pickRule id) (some b) = some b := by
  induction rules with
  | nil => rfl
  | cons r rules ih =>
    have hr : ¬b.1 < rank r := Nat.not_lt.mpr (h r mem_cons_self)
    rw [foldl_cons, pickRule_of_applies (ha r mem_cons_self), all_some,
      if_neg (by simpa using hr)]
    exact ih (fun r hr => ha r (mem_cons_of_mem _ hr)) fun r hr => h r (mem_cons_of_mem _ hr)

theorem foldl_pickRule_below {n} (ha : ∀ r ∈ rules, r.applies id)
    (h : ∀ r ∈ rules, rank r < n) (best) (hb : best.all fun b => b.1 < n) :
    (rules.foldl (pickRule id) best).all fun b => b.1 < n := by
  induction rules generalizing best with
  | nil => exact hb
  | cons r rules ih =>
    rw [foldl_cons]
    refine ih (fun r hr => ha r (mem_cons_of_mem _ hr)) (fun r hr => h r (mem_cons_of_mem _ hr)) _ ?_
    rw [pickRule_of_applies (ha r mem_cons_self)]
    split_ifs
    · simpa using h r mem_cons_self
    · exact hb

/-- What is picked outranks what is before it, and is not outranked by what is behind it. -/
theorem foldl_pickRule_split {before after}
    (ha : ∀ x ∈ before ++ r :: after, x.applies id) (hb : ∀ x ∈ before, rank x < rank r)
    (haf : ∀ x ∈ after, rank x ≤ rank r) :
    (before ++ r :: after).foldl (pickRule id) none = some (rank r, r.rule) := by
  have hbe := foldl_pickRule_below (fun x hx => ha x (mem_append_left _ hx)) hb none rfl
  rw [foldl_append, foldl_cons, pickRule_of_applies (ha r (by simp)), if_pos hbe]
  exact foldl_pickRule_stays (fun x hx => ha x (by simp [hx])) haf

theorem exists_split (h : rules ≠ []) :
    ∃ before r after, rules = before ++ r :: after ∧ (∀ x ∈ before, rank x < rank r) ∧
      ∀ x ∈ after, rank x ≤ rank r := by
  induction rules with
  | nil => exact absurd rfl h
  | cons x rules ih =>
    by_cases hr : rules = []
    · exact ⟨[], x, [], by rw [hr]; rfl, by simp, by simp⟩
    · obtain ⟨before, r, after, rfl, hb, ha⟩ := ih hr
      by_cases hx : rank x < rank r
      · exact ⟨x :: before, r, after, rfl, forall_mem_cons.mpr ⟨hx, hb⟩, ha⟩
      · have hle : rank r ≤ rank x := Nat.not_lt.mp hx
        refine ⟨[], x, before ++ r :: after, rfl, by simp, fun y hy => ?_⟩
        rcases mem_append.mp hy with hy | hy
        · exact (hb y hy).le.trans hle
        · rcases mem_cons.mp hy with rfl | hy
          · exact hle
          · exact (ha y hy).trans hle

/-! ## Masks: what may be picked -/

/-- A rule of a key, for the session: it outranks those of the keys before, and no rule outranks it. -/
structure ContendsAt (E : ColumnMaskingEnforcer) (column : String) (id : Identity) (before : List TableReference)
    (key : TableReference) (after : List TableReference) (r : ScopedRule Expr) : Prop where
  mem : r ∈ E.masks.rulesAt (key, column)
  applies : r.applies id = true
  outranks : ∀ k ∈ before, ∀ x ∈ E.masks.rulesAt (k, column), x.applies id = true → rank x < rank r
  top : ∀ k ∈ key :: after, ∀ x ∈ E.masks.rulesAt (k, column), x.applies id = true → rank x ≤ rank r

/-- A rule that may be the one that is picked. -/
def Contends (E : ColumnMaskingEnforcer) (keys : List TableReference) (column : String) (id : Identity)
    (r : ScopedRule Expr) : Prop :=
  ∃ before key after, keys = before ++ key :: after ∧ E.ContendsAt column id before key after r

variable {E : ColumnMaskingEnforcer} {keys : List TableReference} {column : String}

theorem mem_applicableMasks : r ∈ E.applicableMasks keys column id ↔
      ∃ k ∈ keys, r ∈ E.masks.rulesAt (k, column) ∧ r.applies id = true := by
  simp [applicableMasks, mem_flatMap]

theorem split_flatMap {α β : Type} {f x} : ∀ {keys : List α} {pre post : List β}, keys.flatMap f = pre ++ x :: post →
      ∃ before key after pre' post', keys = before ++ key :: after ∧ f key = pre' ++ x :: post' ∧
        pre = before.flatMap f ++ pre' ∧ post = post' ++ after.flatMap f
  | [], pre, post, h => by simp at h
  | k :: keys, pre, post, h => by
    rw [flatMap_cons] at h
    rcases append_eq_append_iff.mp h with ⟨mid, hp, hr⟩ | ⟨mid, hk, hr⟩
    · obtain ⟨before, key, after, pre', post', rfl, hke, rfl, rfl⟩ := split_flatMap hr
      refine ⟨k :: before, key, after, pre', post', rfl, hke, ?_, rfl⟩
      rw [hp, flatMap_cons, append_assoc]
    · cases mid with
      | nil =>
        have hr : keys.flatMap f = [] ++ x :: post := hr.symm
        obtain ⟨before, key, after, pre', post', rfl, hke, hp, rfl⟩ := split_flatMap hr
        refine ⟨k :: before, key, after, pre', post', rfl, hke, ?_, rfl⟩
        rw [flatMap_cons, append_assoc, ← hp, hk, append_nil, append_nil]
      | cons y mid =>
        obtain ⟨rfl, rfl⟩ := cons.inj hr
        exact ⟨[], k, keys, pre, mid, rfl, hk, rfl, rfl⟩

theorem exists_contends_of_lookupMask {mask} (h : E.lookupMask rel column aliasMap id = some mask) :
    ∃ r, E.Contends (E.candidates rel aliasMap) column id r ∧ r.rule = mask := by
  rw [lookupMask_eq] at h
  have hne : E.applicableMasks (E.candidates rel aliasMap) column id ≠ [] := by
    intro hn
    rw [hn] at h
    cases h
  obtain ⟨pre, r, post, hs, hpr, hp⟩ := exists_split hne
  have ha : ∀ x ∈ E.applicableMasks (E.candidates rel aliasMap) column id, x.applies id :=
    applies_of_mem_applicableMasks
  rw [hs] at ha h
  rw [foldl_pickRule_split ha hpr hp] at h
  refine ⟨r, ?_, some.inj h⟩
  obtain ⟨before, key, after, pre', post', hke, hky, rfl, rfl⟩ := split_flatMap hs
  have hm : r ∈ (E.masks.rulesAt (key, column)).filter (·.applies id) := hky ▸ by simp
  refine ⟨before, key, after, hke, (mem_filter.mp hm).1, (mem_filter.mp hm).2,
    fun k hk x hx hxi => ?_, fun k hk x hx hxi => ?_⟩
  · exact hpr x (mem_append_left _ (mem_flatMap.mpr ⟨k, hk, mem_filter.mpr ⟨hx, hxi⟩⟩))
  · rcases mem_cons.mp hk with rfl | hk
    · have hx' : x ∈ pre' ++ r :: post' := hky ▸ mem_filter.mpr ⟨hx, hxi⟩
      rcases mem_append.mp hx' with hx' | hx'
      · exact (hpr x (mem_append_right _ hx')).le
      · rcases mem_cons.mp hx' with rfl | hx'
        · exact le_rfl
        · exact hp x (mem_append_left _ hx')
    · exact hp x (mem_append_right _ (mem_flatMap.mpr ⟨k, hk, mem_filter.mpr ⟨hx, hxi⟩⟩))

theorem lookupMask_of_first {before after key rest}
    (hke : E.candidates rel aliasMap = before ++ key :: after) (h : E.ContendsAt column id before key after r)
    (hr : E.masks.rulesAt (key, column) = r :: rest) : E.lookupMask rel column aliasMap id = some r.rule := by
  have hs : E.applicableMasks (E.candidates rel aliasMap) column id =
      E.applicableMasks before column id ++
        r :: ((rest.filter (·.applies id)) ++ E.applicableMasks after column id) := by
    rw [applicableMasks, hke, flatMap_append, flatMap_cons, hr, filter_cons, if_pos h.applies]
    rfl
  have ha : ∀ x ∈ E.applicableMasks (E.candidates rel aliasMap) column id, x.applies id :=
    applies_of_mem_applicableMasks
  rw [hs] at ha
  rw [lookupMask_eq, hs, foldl_pickRule_split ha]
  · rfl
  · intro x hx
    obtain ⟨k, hk, hx, hxi⟩ := mem_applicableMasks.mp hx
    exact h.outranks k hk x hx hxi
  · intro x hx
    rcases mem_append.mp hx with hx | hx
    · obtain ⟨hx, hxi⟩ := mem_filter.mp hx
      exact h.top key mem_cons_self x (hr ▸ mem_cons_of_mem _ hx) hxi
    · obtain ⟨k, hk, hx, hxi⟩ := mem_applicableMasks.mp hx
      exact h.top k (mem_cons_of_mem _ hk) x hx hxi

/-! ## Masks in another order -/

variable {masks masks' : List ColumnMask} {E' : ColumnMaskingEnforcer}

/-- With other session defaults, or none. -/
def withDefaults (E : ColumnMaskingEnforcer) (defaults : Option (String × String)) : ColumnMaskingEnforcer :=
  { E with sessionDefaults := defaults }

/-- The same rules, in whatever order. -/
structure SameRules (E' E : ColumnMaskingEnforcer) : Prop where
  defaults : E'.sessionDefaults = E.sessionDefaults
  mem : ∀ k r, r ∈ E'.masks.rulesAt k ↔ r ∈ E.masks.rulesAt k

namespace SameRules

theorem of_perm (hp : masks'.Perm masks) (h : new masks = .ok E) (h' : new masks' = .ok E')
    (defaults) : SameRules (E'.withDefaults defaults) (E.withDefaults defaults) where
  defaults := rfl
  mem k r := by
    rw [withDefaults, withDefaults, masks_of_new h, masks_of_new h']
    simp only [List.mem_map, List.mem_filter, hp.mem_iff]

theorem symm (h : SameRules E' E) : SameRules E E' := ⟨h.defaults.symm, fun k r => (h.mem k r).symm⟩

theorem candidates (h : SameRules E' E) (rel) (aliasMap) :
    E'.candidates rel aliasMap = E.candidates rel aliasMap := candidates_congr h.defaults rel aliasMap

theorem contendsAt (h : SameRules E' E) {before after key r} (hr : E'.ContendsAt column id before key after r) :
    E.ContendsAt column id before key after r where
  mem := (h.mem _ _).mp hr.mem
  applies := hr.applies
  outranks k hk x hx := hr.outranks k hk x ((h.mem _ _).mpr hx)
  top k hk x hx := hr.top k hk x ((h.mem _ _).mpr hx)

theorem lookupMask_eq_none (h : SameRules E' E) {rel aliasMap} :
    E'.lookupMask rel column aliasMap id = none ↔ E.lookupMask rel column aliasMap id = none := by
  rw [lookupMask_eq_none_iff, lookupMask_eq_none_iff, h.candidates]
  simp only [h.mem]

/-- Both find a mask that may be picked, so they find the same if only one expression may be. -/
theorem lookupMask_eq (h : SameRules E' E) {rel aliasMap}
    (ha : ∀ r r', E.Contends (E.candidates rel aliasMap) column id r →
      E.Contends (E.candidates rel aliasMap) column id r' → r.rule = r'.rule) :
    E'.lookupMask rel column aliasMap id = E.lookupMask rel column aliasMap id := by
  cases hl : E.lookupMask rel column aliasMap id with
  | none => exact h.lookupMask_eq_none.mpr hl
  | some mask =>
    have hne : E'.lookupMask rel column aliasMap id ≠ none := by
      rw [Ne, h.lookupMask_eq_none, hl]
      simp
    obtain ⟨mask', hl'⟩ := ne_none_iff_exists'.mp hne
    obtain ⟨r, hr, rfl⟩ := exists_contends_of_lookupMask hl
    obtain ⟨r', ⟨before, key, after, hk, hr'⟩, rfl⟩ := exists_contends_of_lookupMask hl'
    rw [hl', ha r' r ⟨before, key, after, h.candidates rel aliasMap ▸ hk, h.contendsAt hr'⟩ hr]

end SameRules

theorem exists_perm_lookupMask (h : new masks = .ok E) {defaults}
    (hr : (E.withDefaults defaults).Contends ((E.withDefaults defaults).candidates rel aliasMap) column id r) :
    ∃ masks' E', masks'.Perm masks ∧ new masks' = .ok E' ∧
      (E'.withDefaults defaults).lookupMask rel column aliasMap id = some r.rule := by
  obtain ⟨before, key, after, hk, hr⟩ := hr
  have hme : r ∈ E.masks.rulesAt (key, column) := hr.mem
  rw [masks_of_new h] at hme
  obtain ⟨m, hm, rfl⟩ := mem_map.mp hme
  obtain ⟨hm, hke⟩ := mem_filter.mp hm
  obtain ⟨front, back, rfl⟩ := append_of_mem hm
  have hp : (m :: (front ++ back)).Perm (front ++ m :: back) := perm_middle.symm
  obtain ⟨E', h'⟩ := exists_new_of_subperm hp.subperm h
  have hs := SameRules.of_perm hp h h' defaults
  have hf := masks_of_new h' (key, column)
  rw [filter_cons, if_pos hke, map_cons] at hf
  have hk' := (hs.candidates rel aliasMap).trans hk
  exact ⟨_, E', hp, h', lookupMask_of_first hk' (hs.symm.contendsAt hr) hf⟩

/-- In every order the same mask is found, iff the rules that may be picked all have the same expression. -/
theorem lookupMask_perm_iff (h : new masks = .ok E) (defaults) (rel)
    (aliasMap) : (∀ masks', masks'.Perm masks → ∃ E', new masks' = .ok E' ∧
        (E'.withDefaults defaults).lookupMask rel column aliasMap id =
          (E.withDefaults defaults).lookupMask rel column aliasMap id) ↔
      ∀ r r', (E.withDefaults defaults).Contends ((E.withDefaults defaults).candidates rel aliasMap) column id r →
        (E.withDefaults defaults).Contends ((E.withDefaults defaults).candidates rel aliasMap) column id r' →
          r.rule = r'.rule := by
  constructor
  · intro hs
    have hf : ∀ r,
        (E.withDefaults defaults).Contends ((E.withDefaults defaults).candidates rel aliasMap) column id r →
        (E.withDefaults defaults).lookupMask rel column aliasMap id = some r.rule := by
      intro r hr
      obtain ⟨masks', E', hp, hE', hl⟩ := exists_perm_lookupMask h hr
      obtain ⟨E'', hE'', heq⟩ := hs masks' hp
      obtain rfl : E' = E'' := Except.ok.inj (hE'.symm.trans hE'')
      rw [← heq, hl]
    exact fun r r' hr hr' => some.inj ((hf r hr).symm.trans (hf r' hr'))
  · intro ha masks' hp
    obtain ⟨E', h'⟩ := exists_new_of_subperm hp.subperm h
    exact ⟨E', h', (SameRules.of_perm hp h h' defaults).lookupMask_eq ha⟩

end ColumnMaskingEnforcer

/-! ## Row filters -/

/-- `AND` is commutative and associative, as in three-valued logic. -/
structure AndLaws {V : Type} (I : Interp V) : Prop where
  comm : ∀ a b, I.op "AND" [a, b] = I.op "AND" [b, a]
  assoc : ∀ a b c, I.op "AND" [I.op "AND" [a, b], c] = I.op "AND" [a, I.op "AND" [b, c]]

/-- Two predicates, or two times none: they have the same value on every row, whatever operators and
tables are. -/
def SamePredicate (p q : Option Expr) : Prop :=
  ∀ (V : Type) (I : Interp V), AndLaws I → ∀ (db : Database V) (keep : Keep V) (outer row : Row V),
    p.map (evalExpr I db keep outer row) = q.map (evalExpr I db keep outer row)

section Values

variable {V : Type} {I : Interp V} {db : Database V} {keep : Keep V} {outer row : Row V}

def andValue (I : Interp V) (acc : Option V) (v : V) : Option V :=
  match acc with
  | none => some v
  | some a => some (I.op "AND" [a, v])

theorem eval_conjunction (predicates) : (conjunction predicates).map (evalExpr I db keep outer row) =
      (predicates.map (evalExpr I db keep outer row)).foldl (andValue I) none := by
  have hf : ∀ (ps : List Expr) acc,
      (ps.foldl andPredicate acc).map (evalExpr I db keep outer row) =
      (ps.map (evalExpr I db keep outer row)).foldl (andValue I) (acc.map (evalExpr I db keep outer row)) := by
    intro ps
    induction ps with
    | nil => exact fun _ => rfl
    | cons p ps ih =>
      intro acc
      rw [foldl_cons, ih, map_cons, foldl_cons]
      cases acc <;> rfl
  exact hf predicates none

theorem andValue_right_comm (h : AndLaws I) : RightCommutative (andValue I) where
  right_comm acc a b := by
    cases acc with
    | none => exact congrArg some (h.comm a b)
    | some x =>
      refine congrArg some ?_
      rw [h.assoc, h.comm a b, ← h.assoc]

end Values

theorem samePredicate_conjunction {ps qs} (h : ps.Perm qs) : SamePredicate (conjunction ps) (conjunction qs) := by
  intro V I hI db keep outer row
  have := andValue_right_comm hI
  rw [eval_conjunction, eval_conjunction]
  exact (h.map _).foldl_eq none

namespace RowFilterEnforcer

variable {rules rules' : List RowFilter} {F F' : RowFilterEnforcer}

theorem predicatesAt_perm (hp : rules'.Perm rules) (id) (ofOrg) (cand) :
    (predicatesAt rules' id ofOrg cand).Perm (predicatesAt rules id ofOrg cand) := (hp.filter _).map _

theorem mostQualified_perm (hp : rules'.Perm rules) (id) (ofOrg) (table) :
    mostQualified rules' id ofOrg table = mostQualified rules id ofOrg table := by
  unfold mostQualified
  congr 1
  funext cand
  rw [(predicatesAt_perm hp id ofOrg cand).isEmpty_eq]

theorem resolvePredicate_perm (hp : rules'.Perm rules) (h : new rules = .ok F) (h' : new rules' = .ok F')
    (table) (id) :
    SamePredicate (F'.resolvePredicate table id) (F.resolvePredicate table id) := by
  have hs := fun ofOrg cand => samePredicate_conjunction (predicatesAt_perm hp id ofOrg cand)
  rw [resolvePredicate_of_new h, resolvePredicate_of_new h', mostQualified_perm hp, mostQualified_perm hp]
  cases ht : mostQualified rules id true table with
  | some cand =>
    obtain ⟨e, he⟩ := conjunction_of_mostQualified ht
    obtain ⟨e', he'⟩ := conjunction_of_mostQualified ((mostQualified_perm hp id true table).trans ht)
    have hc := hs true cand
    rw [he, he'] at hc
    simpa only [bind_some, he, he', some_or] using hc
  | none =>
    cases hoperator : mostQualified rules id false table with
    | some cand => simpa using hs false cand
    | none =>
      intro V I hI db keep outer row
      rfl

end RowFilterEnforcer

/-- The order of the rules makes no difference to a session, iff the masks of a column that may be picked
for it all have the same expression. -/
theorem rule_order_irrelevant_iff {masks : List ColumnMask} {filters : List RowFilter}
    {E : ColumnMaskingEnforcer} {F : RowFilterEnforcer} (hE : ColumnMaskingEnforcer.new masks = .ok E)
    (hF : RowFilterEnforcer.new filters = .ok F) (defaults : Option (String × String)) (id : Identity)
    (rel : TableReference) (aliasMap : AliasMap) (column : String) (table : TableReference) :
    ((∀ masks', masks'.Perm masks → ∃ E', ColumnMaskingEnforcer.new masks' = .ok E' ∧
          (E'.withDefaults defaults).lookupMask rel column aliasMap id =
            (E.withDefaults defaults).lookupMask rel column aliasMap id) ∧
        ∀ filters', filters'.Perm filters → ∃ F', RowFilterEnforcer.new filters' = .ok F' ∧
          SamePredicate (F'.resolvePredicate table id) (F.resolvePredicate table id)) ↔
      ∀ r r', (E.withDefaults defaults).Contends ((E.withDefaults defaults).candidates rel aliasMap) column id r →
        (E.withDefaults defaults).Contends ((E.withDefaults defaults).candidates rel aliasMap) column id r' →
          r.rule = r'.rule := by
  rw [lookupMask_perm_iff hE]
  refine and_iff_left fun filters' hp => ?_
  obtain ⟨F', hF'⟩ := exists_new_of_subperm hp.subperm hF
  exact ⟨F', hF', resolvePredicate_perm hp hF hF' table id⟩

/-- With one mask, and one row filter, there is nothing to decide. -/
theorem one_mask_in_any_order :
    let masks : List ColumnMask := [⟨.bare "users", "email", .literal (.utf8 "***"), none, none⟩]
    let filters : List RowFilter := [⟨.bare "users", .column ⟨none, "visible"⟩, none, none⟩]
    let ann := Identity.ofUser "ann"
    ∃ E F, ColumnMaskingEnforcer.new masks = .ok E ∧ RowFilterEnforcer.new filters = .ok F ∧
      (∀ masks', masks'.Perm masks → ∃ E', ColumnMaskingEnforcer.new masks' = .ok E' ∧
        (E'.withDefaults none).lookupMask (.bare "users") "email" ∅ ann =
          (E.withDefaults none).lookupMask (.bare "users") "email" ∅ ann) ∧
        ∀ filters', filters'.Perm filters → ∃ F', RowFilterEnforcer.new filters' = .ok F' ∧
          SamePredicate (F'.resolvePredicate (.bare "users") ann) (F.resolvePredicate (.bare "users") ann) := by
  intro masks filters ann
  obtain ⟨E, hE⟩ : ∃ E, new masks = .ok E := ⟨_, rfl⟩
  obtain ⟨F, hF⟩ : ∃ F, new filters = .ok F := ⟨_, rfl⟩
  refine ⟨E, F, hE, hF, (rule_order_irrelevant_iff hE hF none ann _ _ _ _).mpr ?_⟩
  rintro r r' ⟨before, key, after, -, hr⟩ ⟨before', key', after', -, hr'⟩
  have hru := ((mem_rulesAt_singleton hE _ r).mp hr.mem).2
  have hru' := ((mem_rulesAt_singleton hE _ r').mp hr'.mem).2
  rw [hru, hru']

/-- A session of two groups, with a mask for each on the same column: it sees the one that comes first. -/
theorem two_groups_first_wins :
    let mask (group text : String) : ColumnMask :=
      ⟨.bare "users", "email", .literal (.utf8 text), some "acme", some [⟨group⟩]⟩
    let ann := ((Identity.ofUser "ann").withOrg "acme").withGroups ["analyst", "auditor"]
    ∃ E E', new [mask "analyst" "***", mask "auditor" "hidden"] = .ok E ∧
      new [mask "auditor" "hidden", mask "analyst" "***"] = .ok E' ∧
      E.lookupMask (.bare "users") "email" ∅ ann = some (.literal (.utf8 "***")) ∧
      E'.lookupMask (.bare "users") "email" ∅ ann = some (.literal (.utf8 "hidden")) :=
  ⟨_, _, rfl, rfl, rfl, rfl⟩

end Dataglot
