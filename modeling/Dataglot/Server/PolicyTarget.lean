/-
The table and the column that a policy statement is about. The statement's text goes
through two parsers: the first (`policy_ddl.rs`) takes the quotes off the parts of the
table's name and joins them with dots, the second (`parse_table_ref` in `config.rs`)
reads the joined text as a name once more, without the quotes. The column is taken as it
stands, a word without quotes too, which a query folds to lower case.
-/
import Dataglot.Pgwire.WrittenName
import Dataglot.Policy.AccessDenyFacts
import Dataglot.Policy.Qualification
import Dataglot.Server.PolicyReplay

namespace Dataglot
open DataFusion Written TableReference Except Option
open Text

/-! ## What a statement writes -/

section Writes

variable (U : UnicodeTables)

/-- The text behind the `ON` of a statement. -/
def afterOn (s : Text) : Option Text := do
  let (_, s) ← parseIfNotExists s
  let (_, s) ← parseIdentifier U s
  keyword (trimStart s) "ON"

/-- The statement is a `CREATE MASK` or a `CREATE ROW FILTER` on the table, and for a mask the column, written so. -/
inductive Writes (query : Text) : List Written → Option Written → Prop
  | mask {s behind target rest inner r : Text} {table : List Written} {column : Written} :
      keyword (withoutTerminator query) "CREATE" = some s → keyword s "MASK" = some behind →
      afterOn U behind = some target → Written.TableAt U table target rest →
      stripChar '(' (trimStart rest) = some inner → column.At U inner r → Writes query table (some column)
  | rowFilter {s behind target rest : Text} {table : List Written} :
      keyword (withoutTerminator query) "CREATE" = some s → keyword s "MASK" = none →
      PolicyDdl.parseRowFilterKw s = some behind → afterOn U behind = some target →
      Written.TableAt U table target rest → Writes query table none

end Writes

/-- The table and the column of a statement, as the first parser hands them on. -/
def PolicyDdl.target : PolicyDdl → Option (String × Option String)
  | .createMask _ table column _ _ => some (table, some column)
  | .createRowFilter _ table _ _ => some (table, none)
  | .dropMask .. | .dropRowFilter .. => none

/-- The parts of a written name without their quotes, joined. -/
def joined (table : List Written) : Text := dotted (table.map Written.content)

variable {U : UnicodeTables} {query : Text} {ddl : PolicyDdl} {table : List Written} {column : Option Written}

namespace PolicyDdl

theorem parseCreateMask_eq_some {s} (h : parseCreateMask U s = some ddl) :
    ∃ name target table rest column r mask ifNotExists, afterOn U s = some target ∧
      parseTableRef U target = some (table, rest) ∧ parseParenthesizedIdent U rest = some (column, r) ∧
      ddl = .createMask name table column mask ifNotExists := by
  simp only [parseCreateMask, bind_eq_bind, bind_eq_some_iff] at h
  obtain ⟨⟨ine, s₁⟩, h₁, ⟨name, s₂⟩, h₂, target, h₃, ⟨table, rest⟩, h₄, ⟨column, r⟩, h₅, mask, -, he⟩ := h
  refine ⟨name, target, table, rest, column, r, mask, ine, ?_, h₄, h₅, (some.inj he).symm⟩
  simp only [afterOn, h₁, h₂, h₃, bind_eq_bind, bind_some]

theorem parseCreateRowFilter_eq_some {s} (h : parseCreateRowFilter U s = some ddl) :
    ∃ name target table rest predicate ifNotExists, afterOn U s = some target ∧
      parseTableRef U target = some (table, rest) ∧ ddl = .createRowFilter name table predicate ifNotExists := by
  simp only [parseCreateRowFilter, bind_eq_bind, bind_eq_some_iff] at h
  obtain ⟨⟨ine, s₁⟩, h₁, ⟨name, s₂⟩, h₂, target, h₃, ⟨table, rest⟩, h₄, s₅, -, ⟨predicate, r⟩, -, _, -, he⟩ := h
  split_ifs at he
  refine ⟨name, target, table, rest, _, ine, ?_, h₄, (some.inj he).symm⟩
  simp only [afterOn, h₁, h₂, h₃, bind_eq_bind, bind_some]

theorem parseCreate_of_keyword {s} (hs : keyword (withoutTerminator query) "CREATE" = some s)
    (h : parsePolicyDdl U query = some ddl) : parseCreate U s = some ddl := by
  rwa [parsePolicyDdl, onKeyword, hs] at h

end PolicyDdl

open PolicyDdl

/-- The first parser hands on the written parts without their quotes. -/
theorem target_of_writes (h : parsePolicyDdl U query = some ddl) (hw : Writes U query table column) :
    ddl.target = some (String.ofList (joined table), column.map fun w => String.ofList w.content) := by
  cases hw with
  | @mask s behind target rest inner r table w hs hm hon ht hi hw =>
    have hc := parseCreate_of_keyword hs h
    rw [parseCreate, hm] at hc
    obtain ⟨name, target', tableText, rest', columnText, r', mask, ine, hon', ht', hco, rfl⟩ :=
      parseCreateMask_eq_some hc
    obtain rfl : target = target' := some.inj (hon.symm.trans hon')
    rw [parseTableRef_tableAt ht] at ht'
    cases ht'
    simp only [parseParenthesizedIdent, hi, parseIdentifier_at hw, bind_eq_bind, bind_some,
      bind_eq_some_iff] at hco
    obtain ⟨_, -, he⟩ := hco
    cases he
    rfl
  | @rowFilter s behind target rest table hs hm hf hon ht =>
    have hc := parseCreate_of_keyword hs h
    rw [parseCreate, hm, hf] at hc
    obtain ⟨name, target', tableText, rest', predicate, ine, hon', ht', rfl⟩ := parseCreateRowFilter_eq_some hc
    obtain rfl : target = target' := some.inj (hon.symm.trans hon')
    rw [parseTableRef_tableAt ht] at ht'
    cases ht'
    rfl

/-! ## What the second parser reads -/

section ReadBack

variable (P : IdentifierParser)

/-- The joined text is read as the written parts: each is a word that means what it is folded to, or there is
one part, which is no dotted name and loses nothing with its quotes. No blanks are trimmed off. -/
def ReadBack (table : List Written) : Prop :=
  trim (joined table) = joined table ∧
    ((∀ w ∈ table, P.word w.content ∧ w.content.map Char.toLower = w.meaning) ∨
      ∃ w, table = [w] ∧ P.parseIdentifiers w.content = none ∧ w.KeepsCase)

variable {P}

theorem trim_sublist (s) : (trim s).Sublist s :=
  (trimEnd_isPrefix (trimStart s)).sublist.trans (List.dropWhile_sublist _)

theorem parts_parseStr_of_none {t : Text} (h : P.parseIdentifiers t = none) :
    (parseStr P (String.ofList t)).parts = [t] := by
  simp [parseStr, h, fromVec, parts]

theorem parts_parseStr_of_some {t : Text} {ids} (h : P.parseIdentifiers t = some ids) (hne : t ≠ [])
    (hdots : t.count '.' + 1 ≤ 3) : (parseStr P (String.ofList t)).parts = ids.map Ident.normalize := by
  obtain ⟨pieces, rfl, hp⟩ := P.reads_only h
  have hlen := hp.length_eq
  have hcount := length_le_count_dotted pieces
  have hi : ids ≠ [] := by
    rintro rfl
    cases hp
    exact hne rfl
  have ht : (ids.map Ident.normalize).length ≤ 3 := by
    rw [List.length_map]
    omega
  obtain ⟨r, hr⟩ := exists_fromVec (mt List.map_eq_nil_iff.mp hi) ht
  rw [parseStr, String.toList_ofList, h, getD_some, hr, getD_some]
  exact fromVec_eq_some_iff.mp hr

/-- A text that is read as the meanings of the parts, each of the length of its part, is made of these parts. -/
theorem words_of_read {t : Text} {ids} (h : P.parseIdentifiers t = some ids)
    (hs : t.Sublist (joined table)) (hi : ids.map Ident.normalize = table.map meaning) :
    t = joined table ∧ ∀ w ∈ table, P.word w.content ∧ w.content.map Char.toLower = w.meaning := by
  obtain ⟨pieces, rfl, hp⟩ := P.reads_only h
  have hl : ids.map (·.value.length) = (table.map content).map List.length := by
    have hn := congrArg (List.map List.length) hi
    simpa [List.map_map, Function.comp_def, Ident.length_normalize, length_meaning] using hn
  obtain ⟨rfl, hwo⟩ := unquoted_of_length_le hp hl hs.length_le
  have heq : dotted pieces = joined table := hs.eq_of_length_le (length_dotted_le hp hl)
  have hpa : pieces = table.map content := dotted_inj (by simpa [Function.comp_def] using hl) heq
  subst hpa
  refine ⟨heq, fun w hw => ⟨hwo _ (List.mem_map_of_mem hw), ?_⟩⟩
  simp only [List.map_map] at hi
  exact List.map_inj_left.mp hi w hw

theorem read_of_words (hne : table ≠ []) (h : ∀ w ∈ table, P.word w.content ∧ w.content.map Char.toLower = w.meaning) :
    P.parseIdentifiers (joined table) = some (table.map fun w => ⟨w.content, false⟩) := by
  have hr := P.reads_words (mt List.map_eq_nil_iff.mp hne) (List.forall_mem_map.mpr fun w hw => (h w hw).1)
  rwa [List.map_map] at hr

/-- When the second parser accepts, it finds the written parts exactly if they are read back. -/
theorem parts_parseTableRef_iff {S} (hS : S.parseStr = parseStr P) {ref}
    (h : parseTableRef S (String.ofList (joined table)) = .ok ref) :
    ref.parts = table.map meaning ↔ ReadBack P table := by
  unfold parseTableRef at h
  simp only [String.toList_ofList] at h
  split_ifs at h with he hdots
  cases h
  rw [hS]
  have hne : trim (joined table) ≠ [] := fun hni => he (by rw [hni]; rfl)
  have hs := trim_sublist (joined table)
  have ht : table ≠ [] := by
    rintro rfl
    exact hne rfl
  cases hr : P.parseIdentifiers (trim (joined table)) with
  | none =>
    rw [parts_parseStr_of_none hr]
    constructor
    · intro heq
      obtain ⟨w, rfl, hw⟩ := List.map_eq_singleton_iff.mp heq.symm
      -- folding keeps the length, so that no blank was trimmed off
      have hl : (joined [w]).length ≤ (trim (joined [w])).length := by
        rw [← hw, w.length_meaning]
        exact le_rfl
      have htr := hs.eq_of_length_le hl
      rw [htr] at hr hw
      exact ⟨htr, .inr ⟨w, rfl, hr, hw.symm⟩⟩
    · rintro ⟨htr, hwo | ⟨w, rfl, -, hc⟩⟩
      · rw [htr, read_of_words ht hwo] at hr
        cases hr
      · rw [htr]
        exact congrArg (· :: []) hc
  | some ids =>
    rw [parts_parseStr_of_some hr hne (by omega)]
    constructor
    · intro heq
      obtain ⟨htr, hwo⟩ := words_of_read hr hs heq
      exact ⟨htr, .inl hwo⟩
    · rintro ⟨htr, hwo | ⟨w, rfl, hn, -⟩⟩
      · rw [htr, read_of_words ht hwo] at hr
        cases hr
        rw [List.map_map]
        exact List.map_congr_left fun w hw => (hwo w hw).2
      · rw [htr] at hr
        cases hn.symm.trans hr

end ReadBack

/-! ## What a statement installs -/

def RuleChange.rule : RuleChange → Option PolicyRule
  | .maskUpserted mask => some (.columnMask mask)
  | .rowFilterUpserted filter => some (.rowFilter filter)
  | .maskRemoved .. | .rowFilterRemoved .. => none

namespace PolicyRule

def maskedColumn : PolicyRule → Option String
  | columnMask m => some m.column
  | _ => none

/-- The rule is for the table and the column that a query means with the same text. -/
def Targets (rule : PolicyRule) (table : List Written) (column : Option Written) : Prop :=
  rule.table.parts = table.map Written.meaning ∧ rule.maskedColumn = column.map fun w => String.ofList w.meaning

theorem firesOn_own_table {rule : PolicyRule} {catalog schema id} (h : rule.inScope id) :
    rule.FiresOn catalog schema id rule.table := by
  cases rule with
  | rowFilter f => exact firesOn_rowFilter.mpr ⟨h, self_mem_matchCandidates f.table⟩
  | accessDenial d => exact firesOn_accessDenial.mpr ⟨h, self_mem_matchCandidates d.table⟩
  | columnWhitelist w => exact firesOn_columnWhitelist.mpr ⟨h, self_mem_matchCandidates w.table⟩
  | columnMask m =>
    have ho : ∀ r, r ∈ matchCandidates
        (.full (r.resolve catalog schema).1 (r.resolve catalog schema).2.1 (r.resolve catalog schema).2.2) := fun r => by
      cases r <;> simp [resolve, matchCandidates]
    exact (firesOn_columnMask rfl (ho m.table)).mpr h

end PolicyRule

namespace PolicyAdmin

variable {S : SqlParser} {I : IterationOrder} {debug : Expr → String} {faults : StoreFaults} {admin : StorePolicyAdmin}
  {org : String} {rule : PolicyRule}

/-- The statement is carried out, and this is the rule that it puts in. -/
def Installs (S : SqlParser) (I : IterationOrder) (debug : Expr → String) (faults : StoreFaults) (admin : StorePolicyAdmin)
    (org : String) (ddl : PolicyDdl) (rule : PolicyRule) : Prop :=
  ∃ change write, plan S I faults admin.store org ddl = .ok (.commit change write) ∧ change.rule = some rule ∧
    (apply S I debug faults admin org ddl).2 = .ok write.outcome

theorem target_of_installs (h : Installs S I debug faults admin org ddl rule) :
    ∃ text, parseTableRef S text = .ok rule.table ∧ ddl.target = some (text, rule.maskedColumn) := by
  obtain ⟨change, write, hplan, hre, -⟩ := h
  cases ddl with
  | createMask name table column mask ine =>
    obtain ⟨value, -, hd, -⟩ := createPolicy_commit hplan
    obtain ⟨cfg, hcg, hd⟩ := bind_ok_iff.mp hd
    obtain ⟨rules, hru, hd⟩ := bind_ok_iff.mp hd
    obtain ⟨columnMask, hl, rfl⟩ := buildMaskRules_singleton.mp (mapError_ok_iff.mp hru)
    cases hd
    cases hre
    obtain ⟨ht, hco, -, -⟩ := lowerMask_ok hl
    obtain ⟨hcf, hc, -⟩ := maskConfig_ok hcg
    refine ⟨cfg.table, ht, ?_⟩
    rw [PolicyRule.maskedColumn, hco, hcf, hc]
    rfl
  | createRowFilter name table predicate ine =>
    obtain ⟨value, -, hd, -⟩ := createPolicy_commit hplan
    obtain ⟨rules, hru, hd⟩ := bind_ok_iff.mp hd
    obtain ⟨rowFilter, hl, rfl⟩ := buildRowFilterRules_singleton.mp (mapError_ok_iff.mp hru)
    cases hd
    cases hre
    exact ⟨table, (lowerRowFilter_ok hl).1, rfl⟩
  | dropMask name ifExists =>
    obtain ⟨value, -, hr, -⟩ := dropPolicy_commit hplan
    simp only [removeMask, bind_ok_iff, pure_ok_iff] at hr
    obtain ⟨cfg, -, table, -, rfl⟩ := hr
    cases hre
  | dropRowFilter name ifExists =>
    obtain ⟨value, -, hr, -⟩ := dropPolicy_commit hplan
    simp only [removeRowFilter, bind_ok_iff, pure_ok_iff] at hr
    obtain ⟨cfg, -, table, -, rfl⟩ := hr
    cases hre

/-- **A policy statement's rule is for the table and the column it writes** exactly when the parts of the table are
read back without their quotes and the column loses nothing with its own; and then it fires on them. -/
theorem policy_targets_as_written_iff {P : IdentifierParser} (hS : S.parseStr = TableReference.parseStr P)
    (hparse : parsePolicyDdl U query = some ddl) (hwrites : Writes U query table column)
    (hinstalls : Installs S I debug faults admin org ddl rule) :
    (rule.Targets table column ↔ ReadBack P table ∧ ∀ w ∈ column, w.KeepsCase) ∧
      (rule.Targets table column → ∀ r, TableReference.fromVec (table.map Written.meaning) = some r →
        ∀ catalog schema id, rule.inScope id → rule.FiresOn catalog schema id r) := by
  obtain ⟨text, hta, ht⟩ := target_of_installs hinstalls
  rw [target_of_writes hparse hwrites] at ht
  obtain ⟨rfl, hc⟩ := Prod.mk.inj (Option.some.inj ht)
  refine ⟨and_congr (parts_parseTableRef_iff hS hta) ?_, ?_⟩
  · rw [← hc]
    cases column with
    | none => simp
    | some w => simp [KeepsCase, String.ofList_inj]
  · rintro ⟨hp, -⟩ r hr catalog schema id hs
    obtain rfl : r = rule.table := by
      rw [fromVec_eq_some_iff.mpr hp] at hr
      exact (Option.some.inj hr).symm
    exact PolicyRule.firesOn_own_table hs

/-- A session's SQL parser that reads names as `P` does. -/
def namesOf (P : IdentifierParser) : SqlParser :=
  ⟨TableReference.parseStr P, fun name => ⟨none, name⟩, fun sql => .error sql⟩

/-- A full name in lower case and a quoted column are kept. -/
theorem policy_targets_quoted_column :
    ∃ ddl rule, parsePolicyDdl .ascii "CREATE MASK m ON pg.\"s\".T (\"Id\") AS x".toList = some ddl ∧
      Installs (namesOf .ascii) .asWritten debugLiteral .nothing freshAdmin "acme" ddl rule ∧
      rule.Targets [.bare "pg".toList, .quoted "s".toList, .bare "T".toList] (some (.quoted "Id".toList)) := by
  have ht : TableAt .ascii [.bare "pg".toList, .quoted "s".toList, .bare "T".toList]
      "pg.\"s\".T (\"Id\") AS x".toList " (\"Id\") AS x".toList := by
    refine ⟨"\"s\".T (\"Id\") AS x".toList, ⟨⟨⟨'p', rfl, by decide⟩, List.all_eq_true.mp rfl⟩, ?_, rfl⟩,
      "T (\"Id\") AS x".toList, ⟨trivial, by rintro ⟨⟩, rfl⟩, ⟨⟨⟨'T', rfl, by decide⟩, List.all_eq_true.mp rfl⟩, ?_, rfl⟩, ?_⟩
    · rintro c ⟨⟩
      rfl
    · rintro c ⟨⟩
      rfl
    · rintro ⟨⟩
  have hc : (quoted "Id".toList).At .ascii "\"Id\") AS x".toList ") AS x".toList :=
    ⟨trivial, by rintro ⟨⟩, rfl⟩
  have hwr : Writes .ascii "CREATE MASK m ON pg.\"s\".T (\"Id\") AS x".toList
      [.bare "pg".toList, .quoted "s".toList, .bare "T".toList] (some (.quoted "Id".toList)) :=
    .mask rfl rfl rfl ht rfl hc
  have hi : Installs (namesOf .ascii) .asWritten debugLiteral .nothing freshAdmin "acme"
      (.createMask "m" "pg.s.T" "Id" (.literal "x") false)
      (.columnMask ⟨.full "pg" "s" "t", "Id", .literal (.utf8 "x"), some "acme", none⟩) :=
    ⟨_, _, rfl, rfl, rfl⟩
  refine ⟨_, _, rfl, hi, ((policy_targets_as_written_iff rfl rfl hwr hi).1).mpr ⟨⟨rfl, .inl ?_⟩, ?_⟩⟩
  · intro w hw
    simp only [List.mem_cons, List.not_mem_nil, or_false] at hw
    obtain rfl | rfl | rfl := hw <;> exact ⟨rfl, rfl⟩
  · rintro w ⟨⟩
    rfl

/-- The mask on `"Users"` is installed for `users`: no query of `"Users"` is masked. -/
theorem quoted_table_is_folded :
    ∃ ddl rule,
      parsePolicyDdl .ascii "CREATE MASK m ON \"Users\" (id) AS x".toList = some ddl ∧
      Writes .ascii "CREATE MASK m ON \"Users\" (id) AS x".toList [.quoted "Users".toList]
        (some (.bare "id".toList)) ∧
      Installs (namesOf .ascii) .asWritten debugLiteral .nothing freshAdmin "acme" ddl rule ∧
      ¬ rule.Targets [.quoted "Users".toList] (some (.bare "id".toList)) ∧
      ∀ id, ¬ rule.FiresOn "pg" "public" id (.bare "Users") := by
  have hf : parseStr .ascii "Users" = .bare "users" := rfl
  have ht : TableAt .ascii [.quoted "Users".toList] "\"Users\" (id) AS x".toList
      " (id) AS x".toList := ⟨⟨trivial, by rintro ⟨⟩, rfl⟩, by rintro ⟨⟩⟩
  have hc : (bare "id".toList).At .ascii "id) AS x".toList ") AS x".toList :=
    ⟨⟨⟨'i', rfl, by decide⟩, List.all_eq_true.mp rfl⟩, by rintro c ⟨⟩; rfl, rfl⟩
  refine ⟨_, .columnMask ⟨parseStr .ascii "Users", "id", .literal (.utf8 "x"), some "acme", none⟩, rfl,
    .mask rfl rfl rfl ht rfl hc, ⟨_, _, rfl, rfl, rfl⟩, ?_, ?_⟩
  · rintro ⟨hp, -⟩
    rw [PolicyRule.table, hf] at hp
    cases hp
  · rintro id ⟨E, hE, hm⟩
    apply hm
    rw [hf] at hE
    cases hE
    rfl

end PolicyAdmin

end Dataglot
