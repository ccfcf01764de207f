/-
Filter pushdown of the OData connector (`odata/filter.rs`, `OdataTableProvider` in
`odata/connector.rs`): which filters go into `$filter`, as what text, and how the answer of
the service compares with SQL on a row that has nulls.

A filter that is pushed is reported `Exact`, and DataFusion does not check it again. SQL leaves
a comparison with a null open, OData does not: it denies every one of them but `ne`. So the
service agrees with SQL wherever SQL has an answer (`spelled_of_translateExpr`), and where SQL
has none it may still say yes (`RestsOnNull`).
-/
import Dataglot.DataFusion.TableName
import Dataglot.Library.ODataSyntax

namespace Dataglot.OData

open ODataSyntax Filter List Option

abbrev Text := List Char

/-! ## Expressions, as far as the translation tells them apart -/

/-- An `f64`: its `Display` text, which has no blank and no parenthesis. -/
structure Float64 where
  display : Text
  isFinite : Bool
  ne_nil : display ≠ []
  isToken : ∀ c ∈ display, isTokenChar c = true
  deriving DecidableEq

/-- `ScalarValue`; a null of a type is `none`. An `f32` is what `f64::from` makes of it. -/
inductive ScalarValue
  | utf8 (v : Option Text)
  | largeUtf8 (v : Option Text)
  | utf8View (v : Option Text)
  | boolean (v : Option Bool)
  | int8 (v : Option Int8)
  | int16 (v : Option Int16)
  | int32 (v : Option Int32)
  | int64 (v : Option Int64)
  | uint8 (v : Option UInt8)
  | uint16 (v : Option UInt16)
  | uint32 (v : Option UInt32)
  | uint64 (v : Option UInt64)
  | float32 (v : Option Float64)
  | float64 (v : Option Float64)
  | decimal128 (v : Option Int) (precision : UInt8) (scale : Int8)
  | other (value : String)
  deriving DecidableEq

inductive Operator
  | and
  | or
  | eq
  | notEq
  | lt
  | ltEq
  | gt
  | gtEq
  | other (symbol : String)
  deriving DecidableEq

/-- `Expr`. Columns are named after properties of the entity set. -/
inductive Expr
  | column (relation : Option DataFusion.TableReference) (name : Name)
  | literal (value : ScalarValue)
  | binaryExpr (left : Expr) (op : Operator) (right : Expr)
  | not (inner : Expr)
  | isNull (inner : Expr)
  | isNotNull (inner : Expr)
  | other (expr : String)
  deriving DecidableEq

/-! ## Rendering -/

/-- `to_string` of an integer. -/
def showInt : Int → Text
  | .ofNat n => Nat.toDigits 10 n
  | .negSucc n => '-' :: Nat.toDigits 10 (n + 1)

def renderFloat (v : Float64) : Option Text :=
  if !v.isFinite then none
  else if v.display.any (fun c => c ∈ ['.', 'e', 'E']) then some v.display
  else some (v.display ++ ['.', '0'])

/-- `render_decimal128`. -/
def renderDecimal128 (value : Int) (scale : Int8) : Text :=
  if scale = 0 then showInt value
  else if scale < 0 then showInt value ++ List.replicate scale.toInt.natAbs '0'
  else
    let scale := scale.toInt.natAbs
    let digits := Nat.toDigits 10 value.natAbs
    -- at least one digit before the point
    let digits := if digits.length ≤ scale then List.replicate (scale + 1 - digits.length) '0' ++ digits else digits
    let point := digits.length - scale
    let rendered := digits.take point ++ '.' :: digits.drop point
    if value < 0 then '-' :: rendered else rendered

/-- `render_scalar`. A null is not rendered: `col = NULL` is no null test. -/
def renderScalar : ScalarValue → Option Text
  | .utf8 (some s) | .largeUtf8 (some s) | .utf8View (some s) => some ('\'' :: (escape s ++ ['\'']))
  | .boolean (some b) => some (if b then ['t', 'r', 'u', 'e'] else ['f', 'a', 'l', 's', 'e'])
  | .int8 (some v) => some (showInt v.toInt)
  | .int16 (some v) => some (showInt v.toInt)
  | .int32 (some v) => some (showInt v.toInt)
  | .int64 (some v) => some (showInt v.toInt ++ ['L'])
  | .uint8 (some v) => some (showInt v.toNat)
  | .uint16 (some v) => some (showInt v.toNat)
  | .uint32 (some v) => some (showInt v.toNat ++ ['L'])
  | .uint64 (some v) => some (showInt v.toNat ++ ['L'])
  | .float32 (some v) => (renderFloat v).map (· ++ ['f'])
  | .float64 (some v) => (renderFloat v).map (· ++ ['d'])
  | .decimal128 (some v) _ scale => some (renderDecimal128 v scale ++ ['M'])
  | _ => none

def odataOp : Operator → Option Text
  | .eq => some ['e', 'q']
  | .notEq => some ['n', 'e']
  | .lt => some ['l', 't']
  | .ltEq => some ['l', 'e']
  | .gt => some ['g', 't']
  | .gtEq => some ['g', 'e']
  | _ => none

def flipOp : Operator → Operator
  | .lt => .gt
  | .ltEq => .gtEq
  | .gt => .lt
  | .gtEq => .ltEq
  | other => other

def asColumn : Expr → Option Text
  | .column _ name => some name.text
  | _ => none

def asLiteral : Expr → Option ScalarValue
  | .literal scalar => some scalar
  | _ => none

def translateComparison (left : Expr) (op : Operator) (right : Expr) : Option Text :=
  match asColumn left, asLiteral right with
  | some name, some scalar => do
    let op ← odataOp op
    let value ← renderScalar scalar
    some (name ++ ' ' :: (op ++ ' ' :: value))
  | _, _ =>
    match asLiteral left, asColumn right with
    | some scalar, some name => do
      let op ← odataOp (flipOp op)
      let value ← renderScalar scalar
      some (name ++ ' ' :: (op ++ ' ' :: value))
    | _, _ => none

def translateExpr : Expr → Option Text
  | .binaryExpr left op right =>
    match op with
    | .and => do
      let l ← translateExpr left
      let r ← translateExpr right
      some ('(' :: (l ++ (andWord ++ (r ++ [')']))))
    | .or => do
      let l ← translateExpr left
      let r ← translateExpr right
      some ('(' :: (l ++ (orWord ++ (r ++ [')']))))
    | .eq | .notEq | .lt | .ltEq | .gt | .gtEq => translateComparison left op right
    | .other _ => none
  | .not inner => do
    let inner ← translateExpr inner
    some (notOpen ++ (inner ++ [')']))
  | .isNull inner => do
    let name ← asColumn inner
    some (name ++ ' ' :: (['e', 'q'] ++ ' ' :: nullText))
  | .isNotNull inner => do
    let name ← asColumn inner
    some (name ++ ' ' :: (['n', 'e'] ++ ' ' :: nullText))
  | _ => none

structure FilterTranslation where
  filter : Option Text
  pushed : List Bool

variable (filters : List Expr)

def translateFilters : FilterTranslation :=
  let fragments := filters.filterMap translateExpr
  { filter := if fragments.isEmpty then none else some (andWord.intercalate fragments)
    pushed := filters.map fun f => (translateExpr f).isSome }

inductive TableProviderFilterPushDown
  | exact
  | unsupported
  deriving DecidableEq

def supportsFiltersPushdown : List TableProviderFilterPushDown :=
  (translateFilters filters).pushed.map fun pushed => if pushed then .exact else .unsupported

/-- The filters `scan` is given, and that are not checked again: those reported `Exact`. -/
def exactFilters : List Expr :=
  (filters.zip (supportsFiltersPushdown filters)).filterMap fun (f, p) => if p = .exact then some f else none

/-- The `$filter` of the request that `scan` makes. -/
def scanFilter : Option Text := (translateFilters filters).filter

theorem exactFilters_eq : exactFilters filters = filters.filter fun e => (translateExpr e).isSome := by
  induction filters with
  | nil => rfl
  | cons e filters ih =>
    simp only [exactFilters, supportsFiltersPushdown, translateFilters, List.map_map] at ih ⊢
    rw [List.map_cons, List.zip_cons_cons, List.filterMap_cons, ih, List.filter_cons]
    by_cases h : (translateExpr e).isSome <;> simp [h]

theorem isSome_of_mem_exactFilters {filters e} (h : e ∈ exactFilters filters) : (translateExpr e).isSome = true := by
  rw [exactFilters_eq] at h
  exact (mem_filter.mp h).2

/-! ## A rendered scalar is a literal -/

theorem isTokenChar_of_digit {c} (h : c.isDigit = true) : isTokenChar c = true := by
  simp [isTokenChar, Char.isAlphanum, h]

theorem showInt_token (v) : ∀ c ∈ showInt v, c.isDigit = true ∨ c = '-' := by
  have hd : ∀ {n c}, c ∈ Nat.toDigits 10 n → c.isDigit = true :=
    Nat.isDigit_of_mem_toDigits (by decide) (by decide)
  intro c hc
  cases v with
  | ofNat n => exact .inl (hd hc)
  | negSucc n =>
    rcases mem_cons.mp hc with rfl | hc
    · exact .inr rfl
    · exact .inl (hd hc)

theorem showInt_ne_nil (v) : showInt v ≠ [] := by
  cases v with
  | ofNat n => exact Nat.toDigits_ne_nil
  | negSucc n => simp [showInt]

/-- Texts of tokens that are numbers as far as they go, before a suffix is put behind them. -/
def Numeral (s : Text) : Prop := s ≠ [] ∧ ∀ c ∈ s, isTokenChar c = true

instance (s : Text) : Decidable (Numeral s) := inferInstanceAs (Decidable (_ ∧ _))

theorem numeral_showInt (v) : Numeral (showInt v) := by
  refine ⟨showInt_ne_nil v, fun c hc => ?_⟩
  rcases showInt_token v c hc with h | rfl
  · exact isTokenChar_of_digit h
  · decide

variable {s : Text}

theorem Numeral.append {t} (hs : Numeral s) (ht : ∀ c ∈ t, isTokenChar c = true) : Numeral (s ++ t) := by
  refine ⟨append_ne_nil_of_left_ne_nil hs.1 t, fun c hc => ?_⟩
  rcases mem_append.mp hc with h | h
  · exact hs.2 c h
  · exact ht c h

theorem numeral_renderFloat {v} (h : renderFloat v = some s) : Numeral s := by
  have hv : Numeral v.display := ⟨v.ne_nil, v.isToken⟩
  unfold renderFloat at h
  split_ifs at h
  · exact some.inj h ▸ hv
  · exact some.inj h ▸ hv.append (all_eq_true.mp (by decide))

theorem numeral_renderDecimal128 (value) (scale) : Numeral (renderDecimal128 value scale) := by
  have hz : ∀ n, ∀ c ∈ replicate n '0', isTokenChar c = true := by
    intro n c hc
    rw [eq_of_mem_replicate hc]
    decide
  unfold renderDecimal128
  by_cases h0 : scale = 0
  · rw [if_pos h0]
    exact numeral_showInt value
  rw [if_neg h0]
  by_cases hn : scale < 0
  · rw [if_pos hn]
    exact (numeral_showInt value).append (hz _)
  · rw [if_neg hn]
    extract_lets scale digits padded point rendered
    have hd : ∀ c ∈ digits, isTokenChar c = true := fun c hc =>
      isTokenChar_of_digit (Nat.isDigit_of_mem_toDigits (by decide) (by decide) hc)
    have hp : ∀ c ∈ padded, isTokenChar c = true := by
      intro c hc
      simp only [padded] at hc
      split_ifs at hc
      · rcases mem_append.mp hc with h | h
        · exact hz _ c h
        · exact hd c h
      · exact hd c hc
    have hr : Numeral rendered := by
      refine ⟨by simp [rendered], fun c hc => ?_⟩
      rcases mem_append.mp hc with h | h
      · exact hp c (mem_of_mem_take h)
      · rcases mem_cons.mp h with rfl | h
        · decide
        · exact hp c (mem_of_mem_drop h)
    split_ifs
    · refine ⟨by simp, fun c hc => ?_⟩
      rcases mem_cons.mp hc with rfl | hc
      · decide
      · exact hr.2 c hc
    · exact hr

theorem exists_token (hs : Numeral s) (hn : s ≠ nullText) : ∃ l : Literal, l.text = s :=
  ⟨.token ⟨s, hs.1, hs.2, hn⟩, rfl⟩

theorem exists_suffixed (hs : Numeral s) (c) (hc : isTokenChar c = true) (hl : c ≠ 'l') :
    ∃ l : Literal, l.text = s ++ [c] := by
  refine exists_token (hs.append (by simpa using hc)) fun h => ?_
  have hlast := congrArg getLast? h
  rw [getLast?_append, getLast?_singleton] at hlast
  exact hl (some.inj hlast)

theorem exists_integer (v) : ∃ l : Literal, l.text = showInt v := by
  refine exists_token (numeral_showInt v) fun h => ?_
  have hn := showInt_token v 'n' (by rw [h]; decide)
  exact absurd hn (by decide)

theorem exists_literal_of_renderScalar {s text} (h : renderScalar s = some text) : ∃ l : Literal, l.text = text := by
  unfold renderScalar at h
  split at h
  case h_1 v | h_2 v | h_3 v => exact ⟨.string v, some.inj h⟩
  case h_4 b =>
    refine some.inj h ▸ exists_token ⟨?_, all_eq_true.mp ?_⟩ ?_ <;> cases b <;> decide
  case h_5 v | h_6 v | h_7 v | h_9 v | h_10 v => exact some.inj h ▸ exists_integer _
  case h_8 v | h_11 v | h_12 v =>
    exact some.inj h ▸ exists_suffixed (numeral_showInt _) 'L' (by decide) (by decide)
  case h_13 v =>
    obtain ⟨t, ht, rfl⟩ := map_eq_some_iff.mp h
    exact exists_suffixed (numeral_renderFloat ht) 'f' (by decide) (by decide)
  case h_14 v =>
    obtain ⟨t, ht, rfl⟩ := map_eq_some_iff.mp h
    exact exists_suffixed (numeral_renderFloat ht) 'd' (by decide) (by decide)
  case h_15 v _ scale =>
    exact some.inj h ▸ exists_suffixed (numeral_renderDecimal128 v scale) 'M' (by decide) (by decide)
  case h_16 => cases h

/-! ## SQL's answer -/

def kleeneAnd : Option Bool → Option Bool → Option Bool
  | some false, _ => some false
  | _, some false => some false
  | some true, some true => some true
  | _, _ => none

def kleeneOr : Option Bool → Option Bool → Option Bool
  | some true, _ => some true
  | _, some true => some true
  | some false, some false => some false
  | _, _ => none

abbrev Row (V : Type) := Name → Option V

/-- What SQL and the service have in common: values, and what literals stand for. The service
reads in the text of a scalar the value the scalar has. -/
structure Interp (V : Type) where
  literal : ScalarValue → Option V
  value : Literal → V
  ofBool : Bool → V
  truth : V → Bool
  operator : String → Option V → Option V → Option V
  other : String → Row V → Option V
  truth_ofBool : ∀ b, truth (ofBool b) = b
  reads : ∀ {s text l}, renderScalar s = some text → readOperand text = some (some l, []) → literal s = some (value l)

@[simp] theorem Interp.truth_comp_ofBool {V : Type} (I : Interp V) : I.truth ∘ I.ofBool = id := funext I.truth_ofBool

theorem literal_of_renderScalar {V : Type} (I : Interp V) {s text} (h : renderScalar s = some text) :
    ∃ l : Literal, l.text = text ∧ I.literal s = some (I.value l) := by
  obtain ⟨l, rfl⟩ := exists_literal_of_renderScalar h
  have hr := readOperand_text (some l) closed_nil
  rw [append_nil] at hr
  exact ⟨l, rfl, I.reads h hr⟩

section Sql

variable {V : Type} [LinearOrder V] (I : Interp V) (row : Row V)

/-- A comparison with a null has no answer. -/
def sqlCompare (c : Comparison) : Option V → Option V → Option Bool
  | some a, some b => some (c.holds a b)
  | _, _ => none

def Operator.compares : Operator → Option Comparison
  | eq => some .eq
  | notEq => some .ne
  | lt => some .lt
  | ltEq => some .le
  | gt => some .gt
  | gtEq => some .ge
  | _ => none

def evalOp (op : Operator) (l r : Option V) : Option V :=
  match op with
  | .and => (kleeneAnd (l.map I.truth) (r.map I.truth)).map I.ofBool
  | .or => (kleeneOr (l.map I.truth) (r.map I.truth)).map I.ofBool
  | .other symbol => I.operator symbol l r
  | op => op.compares.bind fun c => (sqlCompare c l r).map I.ofBool

def Expr.eval : Expr → Option V
  | column _ name => row name
  | literal s => I.literal s
  | binaryExpr left op right => evalOp I op left.eval right.eval
  | not inner => (inner.eval.map I.truth).map fun b => I.ofBool !b
  | isNull inner => some (I.ofBool inner.eval.isNone)
  | isNotNull inner => some (I.ofBool inner.eval.isSome)
  | other expr => I.other expr row

/-- TRUE, FALSE, or neither. -/
def Expr.truth (e : Expr) : Option Bool := (e.eval I row).map I.truth

variable {I row}

theorem truth_and (l r : Expr) :
    (Expr.binaryExpr l .and r).truth I row = kleeneAnd (l.truth I row) (r.truth I row) := by
  simp [Expr.truth, Expr.eval, evalOp]

theorem truth_or (l r : Expr) : (Expr.binaryExpr l .or r).truth I row = kleeneOr (l.truth I row) (r.truth I row) := by
  simp [Expr.truth, Expr.eval, evalOp]

theorem truth_not (e) : (Expr.not e).truth I row = (e.truth I row).map (! ·) := by
  simp only [Expr.truth, Expr.eval, Option.map_map]
  congr 1
  funext v
  exact I.truth_ofBool _

theorem truth_compare {op c} (h : op.compares = some c) (l r : Expr) :
    (Expr.binaryExpr l op r).truth I row = sqlCompare c (l.eval I row) (r.eval I row) := by
  cases op <;> simp_all [Operator.compares, Expr.truth, Expr.eval, evalOp]

theorem truth_isNull (e) : (Expr.isNull e).truth I row = some (e.eval I row).isNone := by
  simp [Expr.truth, Expr.eval, I.truth_ofBool]

theorem truth_isNotNull (e) : (Expr.isNotNull e).truth I row = some (e.eval I row).isSome := by
  simp [Expr.truth, Expr.eval, I.truth_ofBool]

end Sql

/-! ## The service's answer -/

/-- An answer where there may be none. -/
def Completes (x : Option Bool) (p : Bool) : Prop := ∀ b, x = some b → p = b

section Answers

variable {V : Type} [LinearOrder V] (I : Interp V) (row : Row V)

/-- Whether the service has a row in its answer. -/
def Satisfies : Option Text → Prop
  | none => True
  | some text => ∃ f, read text = some f ∧ f.holds I.value row = true

/-- Both sides say `b`, one of them on account of a null. -/
def RestsBoth (b : Bool) (x y : Option Bool) (restsX restsY : Prop) : Prop :=
  (x = some b ∨ restsX) ∧ (y = some b ∨ restsY) ∧ (restsX ∨ restsY)

/-- One side says `b` on account of a null, and none does in SQL. -/
def RestsOne (b : Bool) (x y : Option Bool) (restsX restsY : Prop) : Prop :=
  x ≠ some b ∧ y ≠ some b ∧ (restsX ∨ restsY)

/-- The answer `b` to an expression that SQL leaves open: a comparison with a null was taken
for true if it is `<>`, and for false if it is another. -/
def RestsOnNull (b : Bool) : Expr → Prop
  | .binaryExpr l .and r =>
    (if b then RestsBoth else RestsOne) b (l.truth I row) (r.truth I row) (RestsOnNull b l) (RestsOnNull b r)
  | .binaryExpr l .or r =>
    (if b then RestsOne else RestsBoth) b (l.truth I row) (r.truth I row) (RestsOnNull b l) (RestsOnNull b r)
  | .binaryExpr _ (.other _) _ => False
  | .binaryExpr l op r => (l.eval I row = none ∨ r.eval I row = none) ∧ b = decide (op = .notEq)
  | .not e => RestsOnNull (!b) e
  | _ => False

theorem and_table : ∀ x y p q, Completes x p → Completes y q → Completes (kleeneAnd x y) (p && q) ∧
      ∀ b, (if b then RestsBoth else RestsOne) b x y (x = none ∧ p = b) (y = none ∧ q = b) ↔
        kleeneAnd x y = none ∧ (p && q) = b := by
  simp only [ite_apply]
  unfold Completes RestsBoth RestsOne
  decide

theorem or_table : ∀ x y p q, Completes x p → Completes y q → Completes (kleeneOr x y) (p || q) ∧
      ∀ b, (if b then RestsOne else RestsBoth) b x y (x = none ∧ p = b) (y = none ∧ q = b) ↔
        kleeneOr x y = none ∧ (p || q) = b := by
  simp only [ite_apply]
  unfold Completes RestsBoth RestsOne
  decide

/-- A filter that stands for an expression: it answers as SQL does where SQL has an answer, and
elsewhere as the nulls have it. -/
structure Spelled (e : Expr) (f : Filter) : Prop where
  answers : Completes (e.truth I row) (f.holds I.value row)
  rests : ∀ b, RestsOnNull I row b e ↔ e.truth I row = none ∧ f.holds I.value row = b

variable {I row}

variable {f : Filter} {e : Expr} {c : Comparison} {op : Operator} {filters : List Expr}

theorem Spelled.and {l r g} (hl : Spelled I row l f) (hr : Spelled I row r g) :
    Spelled I row (.binaryExpr l .and r) (.and f g) := by
  obtain ⟨ha, hre⟩ := and_table _ _ _ _ hl.answers hr.answers
  constructor
  · rw [truth_and]
    exact ha
  · intro b
    rw [truth_and, RestsOnNull, hl.rests, hr.rests]
    exact hre b

theorem Spelled.or {l r g} (hl : Spelled I row l f) (hr : Spelled I row r g) :
    Spelled I row (.binaryExpr l .or r) (.or f g) := by
  obtain ⟨ha, hre⟩ := or_table _ _ _ _ hl.answers hr.answers
  constructor
  · rw [truth_or]
    exact ha
  · intro b
    rw [truth_or, RestsOnNull, hl.rests, hr.rests]
    exact hre b

theorem Spelled.not (h : Spelled I row e f) : Spelled I row (.not e) (.not f) := by
  constructor
  · rintro b hb
    rw [truth_not] at hb
    obtain ⟨c, hc, rfl⟩ := map_eq_some_iff.mp hb
    rw [holds, h.answers c hc]
  · intro b
    rw [truth_not, RestsOnNull, h.rests, map_eq_none_iff, holds, Bool.not_eq_eq_eq_not]

theorem Spelled.nullTest (hr : ∀ b, ¬RestsOnNull I row b e)
    (ht : e.truth I row = some (f.holds I.value row)) : Spelled I row e f := by
  constructor
  · intro b hb
    exact some.inj (ht.symm.trans hb)
  · intro b
    rw [ht]
    simp [hr b]

theorem restsOnNull_compare (h : op.compares = some c) (b) (l r) :
    RestsOnNull I row b (.binaryExpr l op r) ↔
      (l.eval I row = none ∨ r.eval I row = none) ∧ b = decide (op = .notEq) := by
  cases op <;> first | rfl | cases h

/-- A comparison of a property with a literal: the operands in SQL are those of the service, in
this order or the other. -/
theorem Spelled.compare {l r d name lit} (hop : op.compares = some c) (hne : d = .ne ↔ op = .notEq)
    (hn : l.eval I row = none ∨ r.eval I row = none ↔ row name = none)
    (hs : sqlCompare c (l.eval I row) (r.eval I row) = (row name).map (d.holds · (I.value lit))) :
    Spelled I row (.binaryExpr l op r) (.compare name d (some lit)) := by
  constructor
  · intro b hb
    rw [truth_compare hop, hs] at hb
    obtain ⟨v, hv, rfl⟩ := map_eq_some_iff.mp hb
    rw [holds, hv]
    rfl
  · intro b
    rw [restsOnNull_compare hop, hn, truth_compare hop, hs, map_eq_none_iff]
    refine and_congr_right fun hv => ?_
    rw [holds, hv, map_some, Comparison.holdsNull, eq_comm (a := b), ← decide_eq_decide.mpr hne]
    rfl

theorem odataOp_eq (op) : odataOp op = op.compares.map Comparison.keyword := by
  cases op <;> rfl

/-- The comparison that is meant when the operands change places. -/
def flipped : Comparison → Comparison
  | .lt => .gt
  | .le => .ge
  | .gt => .lt
  | .ge => .le
  | c => c

theorem compares_flipOp (op) : (flipOp op).compares = op.compares.map flipped := by
  cases op <;> rfl

theorem holds_flipped (c) (a b : V) : (flipped c).holds a b = c.holds b a := by
  cases c <;> simp [flipped, Comparison.holds, eq_comm]

theorem compares_eq_ne (h : op.compares = some c) : c = .ne ↔ op = .notEq := by
  cases op <;> simp_all [Operator.compares] <;> subst h <;> simp

theorem flipped_eq_ne : flipped c = .ne ↔ c = .ne := by
  cases c <;> simp [flipped]

theorem asColumn_eq_some {name} (h : asColumn e = some name) :
    ∃ relation property, e = .column relation property ∧ property.text = name := by
  cases e with
  | column relation property => exact ⟨relation, property, rfl, some.inj h⟩
  | _ => cases h

theorem asLiteral_eq_some {s} (h : asLiteral e = some s) : e = .literal s := by
  cases e with
  | literal s => exact congrArg Expr.literal (some.inj h)
  | _ => cases h

theorem spelled_of_translateComparison {l r text}
    (h : translateComparison l op r = some text) : ∃ f : Filter, f.text = text ∧ Spelled I row
    (.binaryExpr l op r) f := by
  unfold translateComparison at h
  split at h
  · rename_i name s hname hs
    obtain ⟨relation, property, rfl, rfl⟩ := asColumn_eq_some hname
    obtain rfl := asLiteral_eq_some hs
    simp only [odataOp_eq, bind_eq_bind, bind_eq_some_iff, map_eq_some_iff] at h
    obtain ⟨_, ⟨c, hop, rfl⟩, value, hv, ht⟩ := h
    obtain ⟨lit, rfl, hl⟩ := literal_of_renderScalar I hv
    refine ⟨.compare property c (some lit), some.inj ht, .compare hop (compares_eq_ne hop) ?_ ?_⟩
    · simp [Expr.eval, hl]
    · rw [Expr.eval, Expr.eval, hl]
      cases row property <;> rfl
  · split at h
    · rename_i s name hs hname
      obtain ⟨relation, property, rfl, rfl⟩ := asColumn_eq_some hname
      obtain rfl := asLiteral_eq_some hs
      simp only [odataOp_eq, compares_flipOp, bind_eq_bind, bind_eq_some_iff,
        map_eq_some_iff] at h
      obtain ⟨_, ⟨_, ⟨c, hop, rfl⟩, rfl⟩, value, hv, ht⟩ := h
      obtain ⟨lit, rfl, hl⟩ := literal_of_renderScalar I hv
      have hne := flipped_eq_ne.trans (compares_eq_ne hop)
      refine ⟨.compare property (flipped c) (some lit), some.inj ht, .compare hop hne ?_ ?_⟩
      · simp [Expr.eval, hl]
      · rw [Expr.eval, Expr.eval, hl]
        cases row property with
        | none => rfl
        | some a => exact congrArg some (holds_flipped c a _).symm
    · cases h

/-- What is pushed for an expression stands for it. -/
theorem spelled_of_translateExpr (I) (row : Row V) {text} (h : translateExpr e = some text) :
    ∃ f : Filter, f.text = text ∧ Spelled I row e f := by
  induction e generalizing text with
  | column | literal | other => cases h
  | binaryExpr l op r ihl ihr =>
    cases op with
    | and =>
      simp only [translateExpr, bind_eq_bind, bind_eq_some_iff] at h
      obtain ⟨_, hl, _, hr, ht⟩ := h
      obtain ⟨f, rfl, hf⟩ := ihl hl
      obtain ⟨g, rfl, hg⟩ := ihr hr
      exact ⟨.and f g, some.inj ht, hf.and hg⟩
    | or =>
      simp only [translateExpr, bind_eq_bind, bind_eq_some_iff] at h
      obtain ⟨_, hl, _, hr, ht⟩ := h
      obtain ⟨f, rfl, hf⟩ := ihl hl
      obtain ⟨g, rfl, hg⟩ := ihr hr
      exact ⟨.or f g, some.inj ht, hf.or hg⟩
    | eq | notEq | lt | ltEq | gt | gtEq => exact spelled_of_translateComparison h
    | other => cases h
  | not e ih =>
    simp only [translateExpr, bind_eq_bind, bind_eq_some_iff] at h
    obtain ⟨_, he, ht⟩ := h
    obtain ⟨f, rfl, hf⟩ := ih he
    exact ⟨.not f, some.inj ht, hf.not⟩
  | isNull e =>
    simp only [translateExpr, bind_eq_bind, bind_eq_some_iff] at h
    obtain ⟨_, hname, ht⟩ := h
    obtain ⟨relation, property, rfl, rfl⟩ := asColumn_eq_some hname
    refine ⟨.compare property .eq none, some.inj ht, .nullTest (fun b hb => hb) ?_⟩
    rw [truth_isNull, Expr.eval, holds]
    cases row property <;> rfl
  | isNotNull e =>
    simp only [translateExpr, bind_eq_bind, bind_eq_some_iff] at h
    obtain ⟨_, hname, ht⟩ := h
    obtain ⟨relation, property, rfl, rfl⟩ := asColumn_eq_some hname
    refine ⟨.compare property .ne none, some.inj ht, .nullTest (fun b hb => hb) ?_⟩
    rw [truth_isNotNull, Expr.eval, holds]
    cases row property <;> rfl

theorem Spelled.holds_iff (h : Spelled I row e f) :
    f.holds I.value row = true ↔ e.truth I row = some true ∨ RestsOnNull I row true e := by
  rw [h.rests]
  cases ht : e.truth I row with
  | none => simp
  | some b => simp [h.answers b ht]

theorem spelled_of_all (I) (row : Row V) (h : ∀ e ∈ filters, (translateExpr e).isSome = true) :
    ∃ fs : List Filter, filters.filterMap translateExpr = fs.map text ∧
      Forall₂ (Spelled I row) filters fs := by
  induction filters with
  | nil => exact ⟨[], rfl, .nil⟩
  | cons e filters ih =>
    obtain ⟨fs, hfs, hs⟩ := ih fun e he => h e (mem_cons_of_mem _ he)
    obtain ⟨text, ht⟩ := isSome_iff_exists.mp (h e mem_cons_self)
    obtain ⟨f, rfl, hf⟩ := spelled_of_translateExpr I row ht
    exact ⟨f :: fs, by rw [filterMap_cons_some ht, hfs, map_cons], .cons hf hs⟩

theorem satisfies_join (fs : List Filter) :
    Satisfies I row (if (fs.map text).isEmpty then none else some (andWord.intercalate (fs.map text))) ↔
      ∀ f ∈ fs, f.holds I.value row = true := by
  cases fs with
  | nil => simp [Satisfies]
  | cons f fs =>
    rw [if_neg (by simp), Satisfies, read_join]
    simp only [some.injEq, exists_eq_left', holds_conj]

/-- A row is in the answer when each pushed filter is TRUE on it, or open and taken for true. -/
theorem satisfies_scanFilter (h : ∀ e ∈ filters, (translateExpr e).isSome = true) :
    Satisfies I row (scanFilter filters) ↔
      ∀ e ∈ filters, e.truth I row = some true ∨ RestsOnNull I row true e := by
  obtain ⟨fs, hfs, hs⟩ := spelled_of_all I row h
  rw [scanFilter, translateFilters, hfs, satisfies_join]
  clear h hfs
  induction hs with
  | nil => simp
  | cons hf _ ih => rw [forall_mem_cons, forall_mem_cons, hf.holds_iff, ih]

theorem not_restsOnNull_of_truth (hp : (translateExpr e).isSome = true) {b c}
    (h : e.truth I row = some b) : ¬RestsOnNull I row c e := by
  obtain ⟨text, ht⟩ := isSome_iff_exists.mp hp
  obtain ⟨f, -, hf⟩ := spelled_of_translateExpr I row ht
  rw [hf.rests, h]
  simp

/-- No row is lost: what SQL has, the service has. -/
theorem satisfies_of_truth (h : ∀ e ∈ exactFilters filters, e.truth I row = some true) :
    Satisfies I row (scanFilter (exactFilters filters)) :=
  (satisfies_scanFilter fun _ => isSome_of_mem_exactFilters).mpr fun e he => .inl (h e he)

/-- Rows may be added: the answer of the service is SQL's unless the pushed filters are all TRUE or
taken for true, and one is taken for true. -/
theorem exact_pushdown_iff (I : Interp V) (row : Row V) (filters : List Expr) :
    (Satisfies I row (scanFilter (exactFilters filters)) ↔
        ∀ e ∈ exactFilters filters, e.truth I row = some true) ↔
      ¬((∀ e ∈ exactFilters filters, e.truth I row = some true ∨ RestsOnNull I row true e) ∧
        ∃ e ∈ exactFilters filters, RestsOnNull I row true e) := by
  constructor
  · rintro h ⟨ha, e, he, hr⟩
    have hs := (satisfies_scanFilter fun _ => isSome_of_mem_exactFilters).mpr ha
    exact not_restsOnNull_of_truth (isSome_of_mem_exactFilters he) (h.mp hs e he) hr
  · intro h
    refine ⟨fun hs e he => ?_, satisfies_of_truth⟩
    have ha := (satisfies_scanFilter fun _ => isSome_of_mem_exactFilters).mp hs
    rcases ha e he with ht | hr
    · exact ht
    · exact absurd ⟨ha, e, he, hr⟩ h

end Answers

/-! ## A row that comes back -/

/-- Integers, read off their digits; texts by their length. -/
def decimal : Literal → Int
  | .token t => t.text.foldl (fun n c => if c.isDigit then 10 * n + (c.toNat - '0'.toNat : Nat) else n) 0
  | .string s => s.length

/-- Scalars stand for what their text is read as. -/
def integers : Interp Int where
  literal s := ((renderScalar s).bind readOperand).bind fun (operand, rest) => if rest = [] then operand.map decimal else none
  value := decimal
  ofBool b := if b then 1 else 0
  truth v := v ≠ 0
  operator _ _ _ := none
  other _ _ := none
  truth_ofBool b := by cases b <;> rfl
  reads hs hl := by simp [hs, hl]

def age : Name := ⟨['A', 'g', 'e'], by decide, List.all_eq_true.mp (by decide)⟩

/-- `Age <> 30`. -/
def ageNotThirty : Expr := .binaryExpr (.column none age) .notEq (.literal (.int32 (some 30)))

/-- `Age ne 30` has an entity without an age in its answer. -/
theorem null_age_added :
    scanFilter (exactFilters [ageNotThirty]) = some "Age ne 30".toList ∧
      Satisfies integers (fun _ => none) (scanFilter (exactFilters [ageNotThirty])) ∧
        ¬∀ e ∈ exactFilters [ageNotThirty], e.truth integers (fun _ => none) = some true := by
  have hex : exactFilters [ageNotThirty] = [ageNotThirty] := by decide +kernel
  refine ⟨by decide +kernel, ?_, ?_⟩
  · refine (satisfies_scanFilter fun _ => isSome_of_mem_exactFilters).mpr fun e he => .inr ?_
    rw [hex, List.mem_singleton] at he
    subst he
    exact ⟨.inl rfl, rfl⟩
  · rw [hex]
    intro h
    exact absurd (h ageNotThirty List.mem_cons_self) (by decide)

end Dataglot.OData
