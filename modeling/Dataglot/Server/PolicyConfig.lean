/-
Masks and row filters as the configuration declares them (`config.rs`), and the rules
they are lowered to.

A mask's entries for one column are resolved by priority before anyone's groups are
known: the entries below the highest priority are dropped, whomever they are for.
-/
import Dataglot.Pgwire.Text
import Dataglot.Policy.Mask
import Dataglot.Policy.MaskKinds
import Dataglot.Policy.RowFilter

namespace Dataglot
open DataFusion Except List
open ColumnMaskingEnforcer (applicableRank)

/-! ## The entries -/

inductive MaskTypeConfig
  | redact
  | showLast (keep : Nat)
  | showFirst (keep : Nat)
  | hash
  | nullify
  | dateYear
  | constant (value : String)
  deriving DecidableEq, Repr

def MaskTypeConfig.toMaskKind : MaskTypeConfig → MaskKind
  | .redact => .redact
  | .showLast keep => .partialShowLast keep
  | .showFirst keep => .partialShowFirst keep
  | .hash => .hash
  | .nullify => .nullify
  | .dateYear => .dateYear
  | .constant value => .constant value

structure MaskConfig where
  table : String
  column : String
  maskLiteral : String
  maskType : Option MaskTypeConfig
  maskExpr : Option String
  priority : Int
  groups : Option (List String)
  deriving DecidableEq, Repr

inductive RowPredicateConfig
  | eqString (column value : String)
  | eqInt (column : String) (value : Int)
  | gtInt (column : String) (value : Int)
  | sql (sql : String)
  deriving DecidableEq, Repr

structure RowFilterConfig where
  table : String
  predicate : RowPredicateConfig
  groups : Option (List String)
  deriving DecidableEq, Repr

/-! ## Lowering -/

/-- What DataFusion makes of a name or of an SQL fragment. -/
structure SqlParser where
  /-- `TableReference::parse_str`. -/
  parseStr : String → TableReference
  /-- `col`. -/
  col : String → Column
  /-- `parse_sql_predicate`. -/
  parseSqlPredicate : String → Except String Expr

/-- The order in which a hash map is iterated over: some order. -/
structure IterationOrder where
  arrange : {α : Type} → List α → List α
  perm : ∀ {α : Type} (l : List α), (arrange l).Perm l

theorem IterationOrder.mem_arrange (I : IterationOrder) {α : Type} {l} {a : α} : a ∈ I.arrange l ↔ a ∈ l :=
  (I.perm l).mem_iff

theorem IterationOrder.arrange_singleton (I : IterationOrder) {α : Type} (a : α) : I.arrange [a] = [a] :=
  perm_singleton.mp (I.perm [a])

variable (S : SqlParser) (I : IterationOrder)

def parseTableRef (raw : String) : Except String TableReference :=
  let trimmed := Text.trim raw.toList
  if trimmed.isEmpty then .error "mask `table` must not be empty"
  else if 3 < trimmed.count '.' + 1 then
    .error ("mask `table` '" ++ raw ++ "' has more than 3 dotted segments — use catalog.schema.table at most")
  else .ok (S.parseStr (String.ofList trimmed))

/-- `config_groups`: an empty list is no scope. -/
def configGroups : Option (List String) → Option (List OrgGroupId)
  | none | some [] => none
  | some groups => some (groups.map OrgGroupId.mk)

/-- The entries for one column of one table, as they are written. -/
abbrev MaskConfig.key (m : MaskConfig) : String × String := (m.table, m.column)

/-- The groups of `by_key`. -/
def byKey (masks : List MaskConfig) : List (List MaskConfig) :=
  (masks.map MaskConfig.key).dedup.map fun key => masks.filter fun m => m.key = key

/-- The entries of a group that have its highest priority. -/
def topEntries (group : List MaskConfig) : List MaskConfig :=
  let top := (group.map (·.priority)).max?.getD 0
  group.filter fun m => m.priority = top

def maskOfEntry (m : MaskConfig) : Except String Expr :=
  match m.maskExpr, m.maskType with
  | some _, some _ =>
    .error ("mask for column '" ++ m.column ++ "': set exactly one of `mask_expr` or `mask_type`, not both")
  | some expr, none =>
    (S.parseSqlPredicate expr).mapError fun _ =>
      "custom mask expression (`mask_expr`) for column '" ++ m.column ++ "'"
  | none, some maskType => .ok (maskType.toMaskKind.toExpr (.column (S.col m.column)))
  | none, none => .ok (.literal (.utf8 m.maskLiteral))

/-- The rule of one entry, for every org. -/
def lowerMask (m : MaskConfig) : Except String ColumnMask := do
  let table ← (parseTableRef S m.table).mapError fun _ => "mask for column '" ++ m.column ++ "'"
  let mask ← maskOfEntry S m
  return ⟨table, m.column, mask, none, configGroups m.groups⟩

def buildMaskRules (masks : List MaskConfig) : Except String (List ColumnMask) :=
  ((I.arrange (byKey masks)).flatMap topEntries).mapM (lowerMask S)

def predicateToExpr : RowPredicateConfig → Except String Expr
  | .eqString column value => .ok (.op "=" [.column (S.col column), .literal (.utf8 value)])
  | .eqInt column value => .ok (.op "=" [.op "CAST AS Int64" [.column (S.col column)], .literal (.int64 value)])
  | .gtInt column value => .ok (.op ">" [.op "CAST AS Int64" [.column (S.col column)], .literal (.int64 value)])
  | .sql sql => S.parseSqlPredicate sql

/-- The rule of one entry, for every org. -/
def lowerRowFilter (rf : RowFilterConfig) : Except String RowFilter := do
  let table ← (parseTableRef S rf.table).mapError fun _ => "row filter on '" ++ rf.table ++ "'"
  let predicate ← (predicateToExpr S rf.predicate).mapError fun _ => "row filter on '" ++ rf.table ++ "'"
  return ⟨table, predicate, none, configGroups rf.groups⟩

def buildRowFilterRules (rowFilters : List RowFilterConfig) : Except String (List RowFilter) :=
  rowFilters.mapM (lowerRowFilter S)

/-! ## Which entries make a rule -/

namespace MaskConfig

/-- The groups the entry is for; none is everyone. -/
def entryGroups (m : MaskConfig) : List String := m.groups.getD []

def AppliesTo (m : MaskConfig) (id : Identity) : Prop := m.entryGroups = [] ∨ ∃ g ∈ m.entryGroups, g ∈ id.orgGroups

/-- No entry that is written for the same column has a higher priority. -/
def IsTop (masks : List MaskConfig) (t : MaskConfig) : Prop :=
  t ∈ masks ∧ ∀ m ∈ masks, m.key = t.key → m.priority ≤ t.priority

/-- The entries are for the same column of the same table, however it is written. -/
def SameTarget (t m : MaskConfig) : Prop :=
  ∃ table, parseTableRef S t.table = .ok table ∧ parseTableRef S m.table = .ok table ∧ t.column = m.column

theorem subjectMatches_configGroups {m : MaskConfig} {id} :
    subjectMatches (configGroups m.groups) id.orgGroups = true ↔ m.AppliesTo id := by
  unfold AppliesTo entryGroups
  cases m.groups with
  | none => simp [configGroups]
  | some groups =>
    cases groups with
    | nil => simp [configGroups]
    | cons g groups => simp [configGroups, subjectMatches]

end MaskConfig

theorem exists_top_priority {group : List MaskConfig} (h : group ≠ []) :
    ∃ top, (group.map (·.priority)).max? = some top ∧
    (∃ t ∈ group, t.priority = top) ∧ ∀ m ∈ group, m.priority ≤ top := by
  cases hma : (group.map (·.priority)).max? with
  | none =>
    have hn : group.map (·.priority) = [] := max?_eq_none_iff.mp hma
    exact absurd (map_eq_nil_iff.mp hn) h
  | some top =>
    obtain ⟨hme, hle⟩ := max?_eq_some_iff.mp hma
    exact ⟨top, rfl, mem_map.mp hme, fun m hm => hle _ (mem_map_of_mem hm)⟩

theorem mem_topEntries {group t} : t ∈ topEntries group ↔ t ∈ group ∧ ∀ m ∈ group, m.priority ≤ t.priority := by
  unfold topEntries
  dsimp only
  rw [mem_filter, decide_eq_true_iff]
  refine and_congr_right fun ht => ?_
  obtain ⟨top, hto, ⟨u, hu, hpriority⟩, hle⟩ := exists_top_priority (ne_nil_of_mem ht)
  rw [hto, Option.getD_some]
  constructor
  · intro heq m hm
    rw [heq]
    exact hle m hm
  · intro hma
    have hup := hma u hu
    have hdown := hle t ht
    omega

theorem mem_chosen {masks} {t : MaskConfig} :
    t ∈ (I.arrange (byKey masks)).flatMap topEntries ↔ MaskConfig.IsTop masks t := by
  simp only [mem_flatMap, I.mem_arrange, byKey, mem_map, mem_dedup]
  constructor
  · rintro ⟨_, ⟨key, -, rfl⟩, ht⟩
    obtain ⟨hme, hma⟩ := mem_topEntries.mp ht
    rw [mem_filter, decide_eq_true_iff] at hme
    refine ⟨hme.1, fun m hm hk => hma m (mem_filter.mpr ⟨hm, decide_eq_true (hk.trans hme.2)⟩)⟩
  · rintro ⟨hme, hma⟩
    refine ⟨_, ⟨t.key, ⟨t, hme, rfl⟩, rfl⟩, mem_topEntries.mpr ⟨?_, fun m hm => ?_⟩⟩
    · exact mem_filter.mpr ⟨hme, decide_eq_true rfl⟩
    · rw [mem_filter, decide_eq_true_iff] at hm
      exact hma m hm.1 hm.2

/-! ## Masks and priorities -/

section Survival

variable {S I} {masks : List MaskConfig} {rules : List ColumnMask}

variable {m : MaskConfig} {r : ColumnMask}

theorem lowerMask_ok (h : lowerMask S m = .ok r) :
    parseTableRef S m.table = .ok r.table ∧ r.column = m.column ∧ r.org = none ∧ r.groups = configGroups m.groups := by
  simp only [lowerMask, bind_ok_iff, mapError_ok_iff, pure_ok_iff] at h
  obtain ⟨table, ht, mask, -, rfl⟩ := h
  exact ⟨ht, rfl, rfl, rfl⟩

theorem lowerRowFilter_ok {rf r} (h : lowerRowFilter S rf = .ok r) :
    parseTableRef S rf.table = .ok r.table ∧ r.org = none ∧ r.groups = configGroups rf.groups := by
  simp only [lowerRowFilter, bind_ok_iff, mapError_ok_iff, pure_ok_iff] at h
  obtain ⟨table, ht, predicate, -, rfl⟩ := h
  exact ⟨ht, rfl, rfl⟩

theorem mem_buildMaskRules (h : buildMaskRules S I masks = .ok rules) :
    r ∈ rules ↔ ∃ t, MaskConfig.IsTop masks t ∧ lowerMask S t = .ok r := by
  rw [mem_of_mapM_ok_iff h]
  simp only [mem_chosen]

theorem exists_rule_of_isTop (h : buildMaskRules S I masks = .ok rules) {t} (ht : MaskConfig.IsTop masks t) :
    ∃ r ∈ rules, lowerMask S t = .ok r :=
  exists_mem_of_mapM_ok h ((mem_chosen I).mpr ht)

theorem applicableRank_of_lowerMask (h : lowerMask S m = .ok r) (id) :
    (applicableRank r.org r.groups id).isSome = true ↔ m.AppliesTo id := by
  obtain ⟨-, -, ho, hg⟩ := lowerMask_ok h
  rw [← MaskConfig.subjectMatches_configGroups, applicableRank, ho, hg, orgRuleApplies_none]
  cases subjectMatches (configGroups m.groups) id.orgGroups <;> simp

/-- The session finds a rule for the column that the entry is for. -/
def HasRule (S : SqlParser) (rules : List ColumnMask) (m : MaskConfig) (id : Identity) : Prop :=
  ∃ r ∈ rules, parseTableRef S m.table = .ok r.table ∧ r.column = m.column ∧
    (applicableRank r.org r.groups id).isSome = true

/-- A session finds a rule when an entry of highest priority for the column is for it. -/
theorem hasRule_iff (h : buildMaskRules S I masks = .ok rules) {id} :
    HasRule S rules m id ↔ ∃ t, MaskConfig.IsTop masks t ∧ t.SameTarget S m ∧ t.AppliesTo id := by
  constructor
  · rintro ⟨r, hr, hta, hc, ha⟩
    obtain ⟨t, ht, hl⟩ := (mem_buildMaskRules h).mp hr
    obtain ⟨ht', hc', -, -⟩ := lowerMask_ok hl
    exact ⟨t, ht, ⟨r.table, ht', hta, hc'.symm.trans hc⟩, (applicableRank_of_lowerMask hl id).mp ha⟩
  · rintro ⟨t, ht, ⟨table, hta, ht', hc⟩, ha⟩
    obtain ⟨r, hr, hl⟩ := exists_rule_of_isTop h ht
    obtain ⟨hrt, hrc, -, -⟩ := lowerMask_ok hl
    rw [hrt] at hta
    cases hta
    exact ⟨r, hr, ht', hrc.trans hc, (applicableRank_of_lowerMask hl id).mpr ha⟩

/-- Whomever the entry is for, an entry of highest priority for its column is for as well. -/
def MaskConfig.Covered (S : SqlParser) (masks : List MaskConfig) (m : MaskConfig) : Prop :=
  (∃ t, MaskConfig.IsTop masks t ∧ t.SameTarget S m ∧ t.entryGroups = []) ∨
    m.entryGroups ≠ [] ∧ ∀ g ∈ m.entryGroups, ∃ t, MaskConfig.IsTop masks t ∧ t.SameTarget S m ∧ g ∈ t.entryGroups

/-- **No mask is lost to priorities exactly when every entry is covered**: each session that an entry is for
finds a rule for the entry's column, if and only if the entries of highest priority for the column are for
everyone that the entry is for. -/
theorem masks_survive_priorities_iff (h : buildMaskRules S I masks = .ok rules) :
    (∀ id : Identity, ∀ m ∈ masks, m.AppliesTo id → HasRule S rules m id) ↔ ∀ m ∈ masks, m.Covered S masks := by
  simp only [hasRule_iff h]
  constructor
  · intro hf m hm
    by_cases hal : ∃ t, MaskConfig.IsTop masks t ∧ t.SameTarget S m ∧ t.entryGroups = []
    · exact .inl hal
    · right
      -- A session without groups, and for each group a session of this group alone.
      have hs : m.entryGroups ≠ [] := by
        intro hn
        obtain ⟨t, ht, hta, he | ⟨g, -, hg⟩⟩ := hf .anonymous m hm (.inl hn)
        · exact hal ⟨t, ht, hta, he⟩
        · cases hg
      refine ⟨hs, fun g hg => ?_⟩
      have ha : m.AppliesTo (Identity.anonymous.withGroups [g]) := .inr ⟨g, hg, List.mem_singleton_self g⟩
      obtain ⟨t, ht, hta, he | ⟨g', hg', hme⟩⟩ := hf _ m hm ha
      · exact absurd ⟨t, ht, hta, he⟩ hal
      · obtain rfl : g' = g := List.mem_singleton.mp hme
        exact ⟨t, ht, hta, hg'⟩
  · intro hc id m hm ha
    rcases hc m hm with ⟨t, ht, hta, he⟩ | ⟨hs, hgr⟩
    · exact ⟨t, ht, hta, .inl he⟩
    · rcases ha with hn | ⟨g, hg, hid⟩
      · exact absurd hn hs
      · obtain ⟨t, ht, hta, hg'⟩ := hgr g hg
        exact ⟨t, ht, hta, .inr ⟨g, hg', hid⟩⟩

end Survival

/-- Lower-case names without dots, and no SQL. -/
def SqlParser.bareNames : SqlParser := ⟨.bare, fun name => ⟨none, name⟩, fun sql => .error sql⟩

def IterationOrder.asWritten : IterationOrder := ⟨id, fun _ => .refl _⟩

/-- The column of a table under a literal, with a priority and for some groups. -/
def maskEntry (literal : String) (priority : Int) (groups : Option (List String)) : MaskConfig :=
  ⟨"users", "email", literal, none, none, priority, groups⟩

/-- Contractors and auditors each have a mask, of one priority: none is lost. -/
theorem masks_survive_one_priority :
    ∃ rules, buildMaskRules .bareNames .asWritten
        [maskEntry "x" 1 (some ["contractor"]), maskEntry "y" 1 (some ["auditor"])] = .ok rules ∧
      ∀ id : Identity, "auditor" ∈ id.orgGroups → HasRule .bareNames rules (maskEntry "y" 1 (some ["auditor"])) id := by
  obtain ⟨rules, hr⟩ : ∃ rules, buildMaskRules .bareNames .asWritten
      [maskEntry "x" 1 (some ["contractor"]), maskEntry "y" 1 (some ["auditor"])] = .ok rules := ⟨_, rfl⟩
  refine ⟨rules, hr, fun id hid => ?_⟩
  have hc : ∀ m ∈ [maskEntry "x" 1 (some ["contractor"]), maskEntry "y" 1 (some ["auditor"])],
      m.Covered .bareNames [maskEntry "x" 1 (some ["contractor"]), maskEntry "y" 1 (some ["auditor"])] := by
    intro m hm
    rcases List.mem_pair.mp hm with rfl | rfl
    · exact .inr ⟨by decide, fun g hg => ⟨_, ⟨hm, by decide⟩, ⟨.bare "users", rfl, rfl, rfl⟩, hg⟩⟩
    · exact .inr ⟨by decide, fun g hg => ⟨_, ⟨hm, by decide⟩, ⟨.bare "users", rfl, rfl, rfl⟩, hg⟩⟩
  exact (masks_survive_priorities_iff hr).mpr hc id _ (List.mem_pair.mpr (.inr rfl))
    (.inr ⟨_, List.mem_singleton_self _, hid⟩)

/-- A mask for everyone is lost to one of a higher priority for contractors: a session without groups finds
no rule for the column. -/
theorem mask_for_everyone_lost_to_priority :
    ∃ rules, buildMaskRules .bareNames .asWritten
        [maskEntry "***" 0 none, maskEntry "x" 10 (some ["contractor"])] = .ok rules ∧
      (maskEntry "***" 0 none).AppliesTo (.ofUser "ann") ∧
      ¬ HasRule .bareNames rules (maskEntry "***" 0 none) (.ofUser "ann") := by
  refine ⟨_, rfl, .inl rfl, ?_⟩
  rintro ⟨r, hr, -, -, ha⟩
  obtain rfl := List.mem_singleton.mp hr
  exact absurd ha (by decide)

end Dataglot
