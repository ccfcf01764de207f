/-
The named masks (`mask_kinds.rs`): what each puts in a column's place. Every one but
the constant reads the column it masks, by its unqualified name.
-/
import Dataglot.DataFusion.Plan

namespace Dataglot
open DataFusion

inductive MaskKind
  | redact
  | partialShowLast (n : Nat)
  | partialShowFirst (n : Nat)
  | hash
  | nullify
  | dateYear
  | constant (value : String)
  deriving DecidableEq, Repr

namespace MaskKind

def lit (s : String) : Expr := .literal (.utf8 s)

def asText (column : Expr) : Expr := .op "CAST AS Utf8" [column]

/-- `when(…).otherwise(…)`. -/
def whenOtherwise (condition value other : Expr) : Expr := .op "CASE" [condition, value, other]

def nullSafe (source masked : Expr) : Expr := whenOtherwise (.op "IS NULL" [source]) (.literal .null) masked

inductive Reveal
  | first | last
  deriving DecidableEq, Repr

/-- `partial_mask`: a value not longer than what is shown is masked in full. -/
def partialMask (column : Expr) (n : Nat) (reveal : Reveal) : Expr :=
  let keep := Expr.literal (.int64 (min n (2 ^ 63 - 1)))
  let s := asText column
  let fullLen := Expr.op "CAST AS Int64" [.op "character_length" [s]]
  let longer := Expr.op ">" [fullLen, keep]
  let mask := Expr.op "repeat" [lit "X", whenOtherwise longer (.op "-" [fullLen, keep]) fullLen]
  let body := match reveal with
    | .last => Expr.op "concat" [mask, whenOtherwise longer (.op "right" [s, keep]) (lit "")]
    | .first => Expr.op "concat" [whenOtherwise longer (.op "left" [s, keep]) (lit ""), mask]
  nullSafe s body

/-- `to_expr`, given what `col(column)` is. -/
def toExpr (column : Expr) : MaskKind → Expr
  | .constant value => lit value
  | .nullify => .op "nullif" [column, column]
  | .hash => .op "md5" [asText column]
  | .redact =>
    let letters := Expr.op "regexp_replace" [asText column, lit "[A-Za-z]", lit "x", lit "g"]
    .op "regexp_replace" [letters, lit "[0-9]", lit "n", lit "g"]
  | .partialShowLast n => partialMask column n .last
  | .partialShowFirst n => partialMask column n .first
  | .dateYear => .op "date_trunc" [lit "year", column]

end MaskKind

end Dataglot
