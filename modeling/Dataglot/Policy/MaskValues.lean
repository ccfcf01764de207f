/-
What the text masks make of a value (`mask_kinds.rs`), given the string functions of
DataFusion as they are documented: characters are counted as code points, `concat` takes
NULL for the empty string, and `regexp_replace` with the flag `g` replaces every match.

A partial mask shows what it promises. `Redact` replaces what the classes `[A-Za-z]` and
`[0-9]` match, and so leaves the letters and digits of other scripts as they are.
-/
import Mathlib
import Dataglot.DataFusion.Eval
import Dataglot.Pgwire.Text
import Dataglot.Policy.MaskKinds

namespace DataFusion

/-- Values of the types that the masks compute with. -/
inductive Scalar
  | null
  | text (s : List Char)
  | int (n : Int)
  | bool (b : Bool)
  deriving DecidableEq

namespace Scalar

def toText : Scalar → Option (List Char)
  | null => none
  | text s => some s
  | int n => some (toString n).toList
  | bool b => some (toString b).toList

def ofText : Option (List Char) → Scalar
  | none => null
  | some s => text s

/-- The first characters; with a negative count, all but the last ones. -/
def left (s : List Char) (n : Int) : List Char := if 0 ≤ n then s.take n.toNat else s.take (s.length - n.natAbs)

/-- The last characters; with a negative count, all but the first ones. -/
def right (s : List Char) (n : Int) : List Char := if 0 ≤ n then s.drop (s.length - n.toNat) else s.drop n.natAbs

/-- The ranges of a bracket expression. -/
def charClass : List Char → Option (List (Char × Char))
  | '[' :: rest => ranges rest
  | _ => none
where
  ranges : List Char → Option (List (Char × Char))
    | [']'] => some []
    | a :: '-' :: b :: rest => (ranges rest).map ((a, b) :: ·)
    | _ => none

/-- Every match of a class is one character. -/
def replaceClass (ranges : List (Char × Char)) (replacement s : List Char) : List Char :=
  s.flatMap fun c => if ranges.any fun (a, b) => a ≤ c && c ≤ b then replacement else [c]

/-- The documented value of a function or an operator, for the arguments that the masks give it. -/
def call : String → List Scalar → Option Scalar
  | "CAST AS Utf8", [v] => some (ofText v.toText)
  | "CAST AS Int64", [int n] => some (int n)
  | "character_length", [text s] => some (int s.length)
  | ">", [int a, int b] => some (bool (decide (b < a)))
  | "-", [int a, int b] => some (int (a - b))
  | "repeat", [text s, int n] => some (text (List.replicate n.toNat s).flatten)
  | "left", [text s, int n] => some (text (left s n))
  | "right", [text s, int n] => some (text (right s n))
  | "concat", args => some (text (args.flatMap fun v => v.toText.getD []))
  | "CASE", [condition, value, other] => some (if condition = bool true then value else other)
  | "IS NULL", [v] => some (bool (decide (v = null)))
  | "regexp_replace", [null, _, _, _] => some null
  | "regexp_replace", [text s, text pattern, text replacement, text ['g']] =>
    (charClass pattern).map fun ranges => text (replaceClass ranges replacement s)
  | _, _ => none

end Scalar

def Scalar.ofValue : ScalarValue → Scalar
  | .null => .null
  | .boolean b => .bool b
  | .int64 n => .int n
  | .utf8 s => .text s.toList

/-- An interpretation in which the functions are as documented. -/
def Interp.documented (rest : Interp Scalar) : Interp Scalar := { rest with
  null := .null
  literal := Scalar.ofValue
  op name args := (Scalar.call name args).getD (rest.op name args) }

/-- The values of expressions, as far as literals and the documented functions determine them. -/
structure Evaluates (value : Expr → Scalar) : Prop where
  literal : ∀ v, value (.literal v) = .ofValue v
  op : ∀ {name args v}, Scalar.call name (args.map value) = some v → value (.op name args) = v

theorem evaluates_documented (rest : Interp Scalar) (db keep outer row) : Evaluates (evalExpr rest.documented db keep outer row) := by
  refine ⟨fun _ => rfl, fun {name args v} h => ?_⟩
  rw [evalExpr, evalExprs_eq_map]
  show (Scalar.call name _).getD _ = v
  rw [h, Option.getD_some]

end DataFusion

namespace Dataglot.MaskKind

open DataFusion

/-! ## Partial masks -/

/-- The positions of a value of `n` characters that a mask shows. -/
def Reveal.Kept (k n i : Nat) : Reveal → Prop
  | .first => k < n ∧ i < k
  | .last => k < n ∧ n ≤ i + k

instance (k n i : Nat) : ∀ reveal : Reveal, Decidable (reveal.Kept k n i)
  | .first => inferInstanceAs (Decidable (_ ∧ _))
  | .last => inferInstanceAs (Decidable (_ ∧ _))

/-- The value with an `X` wherever it is not shown. -/
def Reveal.shown (reveal : Reveal) (k : Nat) (s : List Char) : List Char :=
  s.mapIdx fun i c => if reveal.Kept k s.length i then c else 'X'

theorem shown_first (k s) : Reveal.first.shown k s =
    (if k < s.length then s.take k else []) ++ List.replicate
    (if k < s.length then s.length - k else s.length) 'X' := by
  refine List.ext_getElem ?_ fun i hi hi' => ?_
  · simp [Reveal.shown]
    grind
  · simp [Reveal.shown, Reveal.Kept]
    grind

theorem shown_last (k s) : Reveal.last.shown k s =
    List.replicate (if k < s.length then s.length - k else s.length) 'X' ++
      if k < s.length then s.drop (s.length - k) else [] := by
  refine List.ext_getElem ?_ fun i hi hi' => ?_
  · simp [Reveal.shown]
    grind
  · simp [Reveal.shown, Reveal.Kept]
    grind

def Reveal.kind (k : Nat) : Reveal → MaskKind
  | .first => .partialShowFirst k
  | .last => .partialShowLast k

section Eval

variable {value : Expr → Scalar} (h : Evaluates value) {column : Expr} {s : List Char}

include h

theorem value_asText : value (asText column) = .ofText (value column).toText := h.op rfl

theorem value_whenOtherwise (condition shown other) : value (whenOtherwise condition shown other) =
    if value condition = .bool true then value shown else value other := h.op rfl

theorem value_nullSafe (source masked) : value (nullSafe source masked) =
    if value source = .null then .null else value masked := by
  have hn : value (.op "IS NULL" [source]) = .bool (decide (value source = .null)) := h.op rfl
  simp [nullSafe, value_whenOtherwise h, hn, h.literal, Scalar.ofValue]

theorem value_partial_null (ht : (value column).toText = none) (k) (reveal : Reveal) :
    value ((reveal.kind k).toExpr column) = .null := by
  cases reveal <;> simp [Reveal.kind, toExpr, partialMask, value_nullSafe h, value_asText h, ht, Scalar.ofText]

section Pieces

variable {full keep : Expr} {n k : Int} (hfull : value full = .int n) (hkeep : value keep = .int k)

include hfull hkeep

theorem value_longer : value (.op ">" [full, keep]) = .bool (decide (k < n)) :=
  h.op (by simp [hfull, hkeep, Scalar.call])

theorem value_mask :
    value (.op "repeat" [lit "X", whenOtherwise (.op ">" [full, keep]) (.op "-" [full, keep]) full]) =
      .text (List.replicate (if k < n then n - k else n).toNat 'X') := by
  have hX : value (lit "X") = .text ['X'] := h.literal _
  have hs : value (.op "-" [full, keep]) = .int (n - k) := h.op (by simp [hfull, hkeep, Scalar.call])
  refine h.op ?_
  rw [List.map_cons, List.map_singleton, hX, value_whenOtherwise h, value_longer h hfull hkeep, hs, hfull]
  split_ifs <;> simp_all [Scalar.call]

theorem value_end {source} (hs : value source = .text s) (f end_)
    (hc : Scalar.call f [.text s, .int k] = some (.text end_)) :
    value (whenOtherwise (.op ">" [full, keep]) (.op f [source, keep]) (lit "")) =
      .text (if k < n then end_ else []) := by
  have he : value (lit "") = .text [] := h.literal _
  have hen : value (.op f [source, keep]) = .text end_ := h.op (by simpa [hs, hkeep] using hc)
  rw [value_whenOtherwise h, value_longer h hfull hkeep, hen, he]
  split_ifs <;> simp_all

end Pieces

theorem value_partial (ht : (value column).toText = some s) (hs : s.length < 2 ^ 63) (k) (reveal : Reveal) :
    value ((reveal.kind k).toExpr column) = .text (reveal.shown k s) := by
  have hc : value (asText column) = .text s := by rw [value_asText h, ht, Scalar.ofText]
  have hl : value (.op "character_length" [asText column]) = .int s.length := h.op (by simp [hc, Scalar.call])
  have hfull : value (.op "CAST AS Int64" [.op "character_length" [asText column]]) = .int s.length :=
    h.op (by simp [hl, Scalar.call])
  have hkeep : value (.literal (.int64 (min k (2 ^ 63 - 1)))) = .int (min k (2 ^ 63 - 1)) := h.literal _
  have hm := value_mask h hfull hkeep
  cases reveal with
  | first =>
    have he := value_end h hfull hkeep hc "left" _ rfl
    rw [Reveal.kind, toExpr, partialMask, value_nullSafe h, hc, if_neg (by simp)]
    refine h.op ?_
    rw [List.map_cons, List.map_singleton, he, hm, shown_first]
    simp [Scalar.call, Scalar.toText, Scalar.left]
    grind
  | last =>
    have he := value_end h hfull hkeep hc "right" _ rfl
    rw [Reveal.kind, toExpr, partialMask, value_nullSafe h, hc, if_neg (by simp)]
    refine h.op ?_
    rw [List.map_cons, List.map_singleton, he, hm, shown_last]
    simp [Scalar.call, Scalar.toText, Scalar.right]
    grind

/-- The character that a character of a redacted value is replaced by. -/
def redactChar (c : Char) : Char :=
  if ('A' ≤ c ∧ c ≤ 'Z') ∨ 'a' ≤ c ∧ c ≤ 'z' then 'x' else if '0' ≤ c ∧ c ≤ '9' then 'n' else c

omit h in
theorem replaceClass_eq_map (ranges r) : ∀ s,
    Scalar.replaceClass ranges [r] s = s.map fun c => if ranges.any fun (a, b) => a ≤ c && c ≤ b then r else c
  | [] => rfl
  | c :: s => by
    have ih := replaceClass_eq_map ranges r s
    unfold Scalar.replaceClass at ih ⊢
    rw [List.flatMap_cons, ih, List.map_cons]
    split_ifs <;> rfl

theorem value_replace {source pattern replacement ranges r t} (hs : value source = .ofText t)
    (hc : Scalar.charClass pattern.toList = some ranges) (hr : replacement.toList = [r]) :
    value (.op "regexp_replace" [source, lit pattern, lit replacement, lit "g"]) =
      .ofText (t.map fun s => s.map fun c => if ranges.any fun (a, b) => a ≤ c && c ≤ b then r else c) := by
  have hl (s : String) : value (lit s) = .text s.toList := h.literal _
  refine h.op ?_
  simp only [List.map_cons, List.map_nil, hs, hl, hr]
  cases t with
  | none => rfl
  | some s =>
    rw [Option.map_some, Scalar.ofText, Scalar.ofText, ← replaceClass_eq_map]
    exact congrArg (Option.map _) hc

theorem value_redact : value (MaskKind.redact.toExpr column) = .ofText
    ((value column).toText.map (·.map redactChar)) := by
  have hl : Scalar.charClass "[A-Za-z]".toList = some [('A', 'Z'), ('a', 'z')] := by decide
  have hd : Scalar.charClass "[0-9]".toList = some [('0', '9')] := by decide
  have hx : "x".toList = ['x'] := by decide
  have hn : "n".toList = ['n'] := by decide
  refine (value_replace h (value_replace h (value_asText h) hl hx) hd hn).trans (congrArg Scalar.ofText ?_)
  rw [Option.map_map]
  refine congrArg (Option.map · _) (funext fun s => ?_)
  rw [Function.comp_apply, List.map_map]
  refine List.map_congr_left fun c _ => ?_
  by_cases hle : ('A' ≤ c ∧ c ≤ 'Z') ∨ 'a' ≤ c ∧ c ≤ 'z' <;> simp [redactChar, hle]

end Eval

/-- Whatever the row and the column, and for both kinds: NULL stays NULL, and a string has at every position what is
shown of it or an `X`. So strings of one length that agree where they are shown have one masked value. -/
theorem partial_mask_reveals (rest : Interp Scalar) (db : Database Scalar) (keep : Keep Scalar) (outer row : Row Scalar)
    (column : Expr) (k : Nat) (reveal : Reveal) :
    let value := evalExpr rest.documented db keep outer row
    (match (value column).toText with
      | none => value ((reveal.kind k).toExpr column) = .null
      | some s => s.length < 2 ^ 63 → value ((reveal.kind k).toExpr column) = .text (reveal.shown k s)) ∧
    ∀ s s' : List Char, s.length = s'.length → (∀ i, reveal.Kept k s.length i → s[i]? = s'[i]?) →
      reveal.shown k s = reveal.shown k s' := by
  intro value
  have h : Evaluates value := evaluates_documented rest db keep outer row
  constructor
  · cases ht : (value column).toText with
    | none => exact value_partial_null h ht k reveal
    | some s => exact fun hs => value_partial h ht hs k reveal
  · intro s s' hl ha
    refine List.ext_getElem (by simpa [Reveal.shown] using hl) fun i hi hi' => ?_
    have hi : i < s.length := by simpa [Reveal.shown] using hi
    have hi' : i < s'.length := hl ▸ hi
    have hsa := ha i
    simp [Reveal.shown, ← hl, hi] at hsa ⊢
    grind

/-! ## Redaction -/

/-- The tables of Unicode, with the letters and digits of ASCII. -/
structure Scripts extends UnicodeTables where
  alphabetic_ascii : ∀ c : Char, c.toNat < 128 → isAlphabetic c = c.isAlpha
  numeric_ascii : ∀ c : Char, c.toNat < 128 → isNumeric c = c.isDigit

/-- An `x` for a letter of any script and an `n` for a digit. -/
def Scripts.shape (U : Scripts) (s : List Char) : List Char :=
  s.map fun c => if U.isAlphabetic c then 'x' else if U.isNumeric c then 'n' else c

theorem redactChar_of_lt {c} (U : Scripts) (hc : c.toNat < 128) :
    redactChar c = if U.isAlphabetic c then 'x' else if U.isNumeric c then 'n' else c := by
  rw [U.alphabetic_ascii c hc, U.numeric_ascii c hc]
  simp [redactChar, Char.isAlpha, Char.isUpper, Char.isLower, Char.isDigit, Char.le_def]

theorem redactChar_of_le {c} (hc : 128 ≤ c.toNat) : redactChar c = c := by
  have hne {d} (hd : d.toNat < 128) : ¬ c ≤ d := fun hle => by
    have : c.toNat ≤ d.toNat := hle
    omega
  simp [redactChar, hne]

/-- NULL stays NULL, and a string is redacted to its shape iff its letters and digits are those of ASCII. -/
theorem redact_shape_iff (U : Scripts) (rest : Interp Scalar) (db : Database Scalar) (keep : Keep Scalar)
    (outer row : Row Scalar) (column : Expr) :
    let value := evalExpr rest.documented db keep outer row
    match (value column).toText with
    | none => value (MaskKind.redact.toExpr column) = .null
    | some s => value (MaskKind.redact.toExpr column) = .text (U.shape s) ↔
      ∀ c ∈ s, U.isAlphabetic c = true ∨ U.isNumeric c = true → c.toNat < 128 := by
  intro value
  have hr : value (MaskKind.redact.toExpr column) = .ofText ((value column).toText.map (·.map redactChar)) :=
    value_redact (evaluates_documented rest db keep outer row)
  cases ht : (value column).toText with
  | none => simp [hr, ht, Scalar.ofText]
  | some s =>
    simp only [hr, ht, Option.map_some, Scalar.ofText, Scalar.text.injEq, Scripts.shape, List.map_inj_left]
    refine forall₂_congr fun c _ => ?_
    by_cases hc : c.toNat < 128
    · exact iff_of_true (redactChar_of_lt U hc) fun _ => hc
    · have hx : c ≠ 'x' := by rintro rfl; exact hc (by decide)
      have hn : c ≠ 'n' := by rintro rfl; exact hc (by decide)
      rw [redactChar_of_le (not_lt.mp hc)]
      split_ifs <;> simp_all

/-- The letters of the first 256 code points. -/
def latin1 : Scripts where
  isAlphabetic c := c.isAlpha || c.toNat ∈ [0xAA, 0xB5, 0xBA] || 0xC0 ≤ c.toNat && c.toNat ≤ 0xFF && c.toNat ∉ [0xD7, 0xF7]
  isNumeric c := c.isDigit
  alphabetic_ascii c hc := by grind
  numeric_ascii _ _ := rfl

/-- Of `é1` the letter survives. -/
theorem redact_keeps_accents :
    let name : Column := ⟨none, "name"⟩
    latin1.shape "é1".toList = "xn".toList ∧ ∀ rest : Interp Scalar,
      evalExpr rest.documented (fun _ => []) keepAll [] [(name, .text "é1".toList)] (MaskKind.redact.toExpr (.column name)) =
        .text "én".toList := by
  refine ⟨by decide, fun rest => ?_⟩
  have hr : "é1".toList.map redactChar = "én".toList := by decide
  rw [value_redact (evaluates_documented ..), ← hr]
  rfl

end Dataglot.MaskKind
