/-
DataHub's URN of a schema field (`governance/datahub.rs`): which table and column a tag event
is about. The source scans bytes and compares them with ASCII only; here it scans characters.
-/
import Dataglot.Server.PolicyConfig

namespace Dataglot.DataHub
open List Text DataFusion

inductive AdapterError where
  | invalidUrn (kind : String) (urn : Text) (reason : String)
  | invalidTable (table urn : Text) (source : String)

def schemaFieldPrefix : String := "urn:li:schemaField:"

def datasetPrefix : Text := "urn:li:dataset:".toList

def platformPrefix : Text := "urn:li:dataPlatform:".toList

/-- One byte of the scan: its index, the depth, and the last comma at depth zero. -/
def commaStep : Nat × Int × Option Nat → Char → Option (Nat × Int × Option Nat)
  | (i, depth, last), c =>
    if c = '(' then some (i + 1, depth + 1, last)
    else if c = ')' then if depth - 1 < 0 then none else some (i + 1, depth - 1, last)
    else some (i + 1, depth, if c = ',' ∧ depth = 0 then some i else last)

def splitLastTopLevelComma (s : Text) : Option (Text × Text) := do
  let (_, depth, last) ← s.foldlM commaStep (0, 0, none)
  if depth ≠ 0 then none else last.map fun idx => (s.take idx, s.drop (idx + 1))

/-- `strip_prefix('(')` and then `strip_suffix(')')`. -/
def stripParens (s : Text) : Option Text := s.dropPrefix? ['('] >>= (·.dropSuffix? [')'])

def extractDatasetTablePath (datasetUrn : Text) : Option Text := do
  let body ← datasetUrn.dropPrefix? datasetPrefix
  let inner ← stripParens body
  match inner.splitOn ',' with
  | [table] => some (trim table)
  | [platform, table, _] => if platformPrefix <+: trim platform then some (trim table) else none
  | _ => none

theorem notMem_prefixes : ',' ∉ datasetPrefix ∧ '(' ∉ datasetPrefix ∧ ')' ∉ datasetPrefix ∧
    ',' ∉ platformPrefix ∧ '(' ∉ platformPrefix ∧ ')' ∉ platformPrefix := by
  decide

/-- `ok_or_else`. -/
def okOr {ε α : Type} (x : Option α) (e : ε) : Except ε α := x.elim (.error e) .ok

@[simp] theorem okOr_ok_iff {ε α : Type} {x : Option α} {e : ε} {a} : okOr x e = .ok a ↔ x = some a := by
  cases x <;> simp [okOr]

def parseSchemaFieldUrn (S : SqlParser) (urn : Text) : Except AdapterError (TableReference × Text) := do
  let invalid := AdapterError.invalidUrn "schemaField" urn
  let body ← okOr (urn.dropPrefix? schemaFieldPrefix.toList) (invalid ("expected prefix `" ++ schemaFieldPrefix ++ "`"))
  let inner ← okOr (stripParens body) (invalid "expected `(...,<column>)` outer parens")
  let (datasetUrn, column) ← okOr (splitLastTopLevelComma inner)
    (invalid "missing column separator (`,<column>`) at the top level")
  if column.isEmpty then .error (invalid "column name is empty") else do
    let tablePath ← okOr (extractDatasetTablePath datasetUrn)
      (invalid ("inner dataset URN `" ++ String.ofList datasetUrn ++ "` did not parse"))
    let table ← (parseTableRef S (String.ofList tablePath)).mapError (.invalidTable tablePath urn)
    return (table, column)

def dataset (platform table env : Text) : Text := platformPrefix ++ platform ++ ',' :: (table ++ ',' :: env)

/-- `urn:li:dataset:(urn:li:dataPlatform:platform,table,env)` -/
def datasetUrn (platform table env : Text) : Text :=
  datasetPrefix ++ '(' :: (dataset platform table env ++ [')'])

def schemaFieldUrn (platform table env column : Text) : Text :=
  schemaFieldPrefix.toList ++ '(' :: (datasetUrn platform table env ++ ',' :: (column ++ [')']))

/-- How many more parentheses a text opens than it closes. -/
def nesting (s : Text) : Int := s.count '(' - s.count ')'

theorem nesting_append (s t) : nesting (s ++ t) = nesting s + nesting t := by
  simp only [nesting, count_append]
  omega

/-! ## The scan -/

/-- The last comma outside all parentheses is at `idx`. -/
def LastComma (s : Text) (idx : Nat) : Prop :=
  ∃ a b, s = a ++ ',' :: b ∧ a.length = idx ∧ nesting a = 0 ∧ ∀ b₁ b₂, b = b₁ ++ ',' :: b₂ → nesting b₁ ≠ 0

theorem LastComma.concat {s idx} (h : LastComma s idx) {c} (hc : c = ',' → nesting s ≠ 0) :
    LastComma (s ++ [c]) idx := by
  obtain ⟨a, b, rfl, hi, ha, hb⟩ := h
  refine ⟨a, b ++ [c], by simp, hi, ha, fun b₁ b₂ hs => ?_⟩
  obtain rfl | ⟨b₂, d, rfl⟩ := b₂.eq_nil_or_concat'
  · obtain ⟨rfl, hd⟩ := append_inj' hs rfl
    have hn := hc (singleton_inj.mp hd)
    rw [nesting_append, ha, nesting, count_cons, count_cons] at hn
    simpa [nesting] using hn
  · rw [← cons_append, ← append_assoc] at hs
    exact hb _ _ (append_inj' hs rfl).1

theorem foldlM_commaStep {s i d last} (h : s.foldlM commaStep (0, 0, none) = some (i, d, last)) :
    i = s.length ∧ d = nesting s ∧ ∀ idx ∈ last, LastComma s idx := by
  induction s using reverseRecOn generalizing i d last with
  | nil =>
    cases h
    exact ⟨rfl, rfl, nofun⟩
  | append_singleton s c ih =>
    rw [foldlM_append, Option.bind_eq_bind, Option.bind_eq_some_iff] at h
    obtain ⟨⟨i', d', last'⟩, hs, hc⟩ := h
    obtain ⟨rfl, rfl, hlast⟩ := ih hs
    simp only [foldlM_cons, foldlM_nil, bind_pure] at hc
    rw [length_append, nesting_append, nesting.eq_def [c]]
    rw [commaStep] at hc
    split_ifs at hc with ho hcl hneg
    · cases hc
      subst ho
      exact ⟨rfl, rfl, fun idx hi => (hlast idx hi).concat nofun⟩
    · cases hc
      subst hcl
      exact ⟨rfl, rfl, fun idx hi => (hlast idx hi).concat nofun⟩
    · cases hc
      rename_i hco
      refine ⟨rfl, by simp [ho, hcl], fun idx hi => ?_⟩
      cases hi
      exact ⟨s, [], by simp [hco.1], rfl, hco.2, fun b₁ b₂ hb => by simp at hb⟩
    · cases hc
      rename_i hco
      refine ⟨rfl, by simp [ho, hcl], fun idx hi => ?_⟩
      exact (hlast idx hi).concat fun hc hn => hco ⟨hc, hn⟩

theorem splitLastTopLevelComma_eq_some {s a b} (h : splitLastTopLevelComma s = some (a, b)) :
    s = a ++ ',' :: b ∧ nesting a = 0 ∧ ∀ b₁ b₂, b = b₁ ++ ',' :: b₂ → nesting b₁ ≠ 0 := by
  simp only [splitLastTopLevelComma, Option.bind_eq_bind, Option.bind_eq_some_iff] at h
  obtain ⟨⟨i, d, last⟩, hs, h⟩ := h
  rw [Option.ite_none_left_eq_some, Option.map_eq_some_iff] at h
  obtain ⟨-, idx, hi, h⟩ := h
  obtain ⟨a', b', rfl, rfl, hsp⟩ := (foldlM_commaStep hs).2.2 idx hi
  rw [take_left, drop_length_add_append] at h
  cases h
  exact ⟨rfl, hsp⟩

/-- Text in which nothing is counted or recorded. -/
theorem foldlM_commaStep_of_plain {t : Text} {i d last} (hparen : '(' ∉ t ∧ ')' ∉ t) (hcomma : ',' ∈ t → d ≠ 0) :
    t.foldlM commaStep (i, d, last) = some (i + t.length, d, last) := by
  induction t generalizing i with
  | nil => rfl
  | cons c t ih =>
    rw [foldlM_cons, commaStep, if_neg, if_neg, if_neg]
    · change foldlM commaStep _ t = _
      rw [ih, length_cons, Nat.add_right_comm, Nat.add_assoc]
      all_goals grind
    all_goals grind

/-! ## The dataset -/

theorem length_splitOn (c : Char) (s : Text) : (s.splitOn c).length = s.count c + 1 := by
  induction s with
  | nil => rfl
  | cons d s ih =>
    rw [splitOn, splitOnP_cons_eq_if_modifyHead] at *
    by_cases hd : d = c <;> simp_all

theorem stripParens_eq_some {s inner} : stripParens s = some inner ↔ s = '(' :: (inner ++ [')']) := by
  simp [stripParens, Option.bind_eq_some_iff, dropPrefix?_eq_some_iff, dropSuffix?_eq_some_iff]

theorem splitOn_parts {p t e} (hp : ',' ∉ p) (ht : ',' ∉ t) (he : ',' ∉ e) :
    (dataset p t e).splitOn ',' = [platformPrefix ++ p, t, e] := by
  rw [dataset, splitOn_append_cons_self, splitOn_append_cons_self, splitOn, splitOnP_eq_singleton, splitOn,
    splitOnP_eq_singleton, splitOn, splitOnP_eq_singleton] <;> grind [notMem_prefixes]

theorem extractDatasetTablePath_append {p t e rest path}
    (h : extractDatasetTablePath (datasetUrn p t e ++ rest) = some path) : ',' ∉ rest ∧ (rest = [] → path = trim t) := by
  simp only [extractDatasetTablePath, Option.bind_eq_bind, Option.bind_eq_some_iff, dropPrefix?_eq_some_iff,
    stripParens_eq_some, beq_iff_eq] at h
  obtain ⟨_, ⟨_, heq, rfl⟩, inner, rfl, h⟩ := h
  have hi : dataset p t e ++ ')' :: rest = inner ++ [')'] := by simpa [datasetUrn] using heq
  have hc := congrArg (count ',') hi
  have hparts := length_splitOn ',' inner
  have hfew : (inner.splitOn ',').length ≤ 3 := by
    split at h <;> simp_all
  have hn : p.count ',' = 0 ∧ t.count ',' = 0 ∧ e.count ',' = 0 ∧ rest.count ',' = 0 := by
    simp [dataset] at hc
    omega
  simp only [count_eq_zero] at hn
  obtain ⟨hp, ht, he, hr⟩ := hn
  refine ⟨hr, ?_⟩
  rintro rfl
  obtain rfl := append_cancel_right hi
  rw [splitOn_parts hp ht he] at h
  exact (Option.some.inj (Option.ite_none_right_eq_some.mp h).2).symm

theorem parseSchemaFieldUrn_ok_iff {S p t e column table c} :
    parseSchemaFieldUrn S (schemaFieldUrn p t e column) = .ok (table, c) ↔
      ∃ dataset path, splitLastTopLevelComma (datasetUrn p t e ++ ',' :: column) = some (dataset, c) ∧ c ≠ [] ∧
        extractDatasetTablePath dataset = some path ∧ parseTableRef S (String.ofList path) = .ok table := by
  have hb : (schemaFieldUrn p t e column).dropPrefix? schemaFieldPrefix.toList =
      some ('(' :: (datasetUrn p t e ++ ',' :: column ++ [')'])) := by
    simp [dropPrefix?_eq_some_iff, schemaFieldUrn]
  have hi := stripParens_eq_some.mpr (rfl : _ = '(' :: (datasetUrn p t e ++ ',' :: column ++ [')']))
  simp only [parseSchemaFieldUrn, hb, hi, Except.bind_ok_iff, okOr_ok_iff, Option.some.injEq, exists_eq_left',
    Prod.exists]
  constructor
  · rintro ⟨a, b, hs, h⟩
    split_ifs at h with he
    simp only [Except.bind_ok_iff, okOr_ok_iff, Except.mapError_ok_iff, Except.pure_ok_iff] at h
    obtain ⟨path, hp, table', ht, h⟩ := h
    cases h
    exact ⟨a, path, hs, by simpa using he, hp, ht⟩
  · rintro ⟨dataset, path, hs, hne, hp, ht⟩
    refine ⟨dataset, c, hs, ?_⟩
    rw [if_neg (by simpa using hne)]
    simp [Except.bind_ok_iff, hp, ht, Except.mapError]

theorem platformPrefix_trim (p) : platformPrefix <+: trim (platformPrefix ++ p) := by
  change platformPrefix <+: rdropWhile isWhitespace (platformPrefix ++ p)
  induction p using reverseRecOn with
  | nil => decide
  | append_singleton p c ih =>
    rw [← append_assoc, rdropWhile_concat]
    split_ifs
    · exact ih
    · simp

theorem nesting_datasetUrn (p t e) : nesting (datasetUrn p t e) = nesting (p ++ t ++ e) := by
  have h := notMem_prefixes
  simp only [← count_eq_zero] at h
  simp [datasetUrn, dataset, nesting, h]
  omega

/-- An accepted URN binds to the column and the table that its components name exactly if these open as many
parentheses as they close, and a URN with plain components is accepted. -/
theorem schema_field_urn_binds_iff (S : SqlParser) (platform table env column : Text) :
    (∀ ref c, parseSchemaFieldUrn S (schemaFieldUrn platform table env column) = .ok (ref, c) →
      (c = column ∧ parseTableRef S (String.ofList (trim table)) = .ok ref ↔ nesting (platform ++ table ++ env) = 0)) ∧
    ((∀ s ∈ [platform, table, env, column], ∀ c ∈ [',', '(', ')'], c ∉ s) → column ≠ [] →
      ∀ ref, parseTableRef S (String.ofList (trim table)) = .ok ref →
        parseSchemaFieldUrn S (schemaFieldUrn platform table env column) = .ok (ref, column)) := by
  simp only [parseSchemaFieldUrn_ok_iff]
  constructor
  · rintro ref c ⟨dataset, path, hs, -, hpa, hp⟩
    obtain ⟨heq, hz, hlast⟩ := splitLastTopLevelComma_eq_some hs
    rw [← nesting_datasetUrn]
    constructor
    · rintro ⟨rfl, -⟩
      rw [append_cancel_right heq, hz]
    · intro hn
      rcases append_eq_append_iff.mp heq with ⟨longer, rfl, hc⟩ | ⟨left, hd, hc⟩
      · obtain ⟨hco, hna⟩ := extractDatasetTablePath_append hpa
        cases longer with
        | nil =>
          cases hc
          exact ⟨rfl, hna rfl ▸ hp⟩
        | cons d longer =>
          cases hc
          exact absurd mem_cons_self hco
      · cases left with
        | nil =>
          cases hc
          rw [← append_nil dataset, ← hd, ← append_nil (datasetUrn ..)] at hpa
          exact ⟨rfl, (extractDatasetTablePath_append hpa).2 rfl ▸ hp⟩
        | cons d left =>
          cases hc
          refine absurd ?_ (hlast left column rfl)
          rw [hd, nesting_append, hz] at hn
          simpa [nesting] using hn
  · intro hpl hne ref hr
    simp at hpl
    obtain ⟨hpm, ht, he, hc⟩ := hpl
    refine ⟨datasetUrn platform table env, trim table, ?_, hne, ?_, hr⟩
    · have hpre := notMem_prefixes
      have hf : (datasetUrn platform table env ++ ',' :: column).foldlM commaStep (0, 0, none) =
          some ((datasetUrn platform table env).length + 1 + column.length, 0,
            some (datasetUrn platform table env).length) := by
        simp [datasetUrn, dataset, foldlM_append, foldlM_commaStep_of_plain, commaStep, *]
        omega
      simp [splitLastTopLevelComma, hf]
    · have hb : (datasetUrn platform table env).dropPrefix? datasetPrefix = some _ :=
        dropPrefix?_eq_some_iff.mpr ⟨datasetPrefix, rfl, beq_self_eq_true _⟩
      rw [extractDatasetTablePath, hb, Option.bind_eq_bind, Option.bind_some, stripParens_eq_some.mpr rfl,
        Option.bind_some, splitOn_parts hpm.1 ht.1 he.1]
      exact if_pos (platformPrefix_trim platform)

/-- The components name the table `x(`, and the URN binds to `victim`. -/
theorem crafted_urn_binds_other_table :
    let S : SqlParser := ⟨.bare, fun name => ⟨none, name⟩, fun _ => .error ""⟩
    parseSchemaFieldUrn S (schemaFieldUrn "pg,victim,PROD)".toList "x(".toList "(".toList ")".toList) =
        .ok (.bare "victim", "x(,(),)".toList) ∧
      parseTableRef S (String.ofList (trim "x(".toList)) = .ok (.bare "x(") := by
  exact ⟨rfl, rfl⟩

end Dataglot.DataHub
