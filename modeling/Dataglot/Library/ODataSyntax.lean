/-
`$filter` of OData v2, as far as comparisons of a property with a literal go: the tree of a
filter, its text, a reader for such texts, and what a service answers to a filter on an entity.

`and` binds stronger than `or`; `not` stands before parentheses. The answer is two-valued:
null is compared as a value of its own, equal to itself and to nothing else, and before or
behind nothing.
-/
import Mathlib

namespace ODataSyntax
open List

/-! ## Trees and texts -/

def isNameChar (c : Char) : Bool := c ∉ [' ', '(', ')', '\'', ',', '/']

/-- The name of a property. -/
structure Name where
  text : List Char
  ne_nil : text ≠ []
  isName : ∀ c ∈ text, isNameChar c = true
  deriving DecidableEq

inductive Comparison
  | eq
  | ne
  | lt
  | le
  | gt
  | ge
  deriving DecidableEq, Repr

def Comparison.keyword : Comparison → List Char
  | eq => ['e', 'q']
  | ne => ['n', 'e']
  | lt => ['l', 't']
  | le => ['l', 'e']
  | gt => ['g', 't']
  | ge => ['g', 'e']

def nullText : List Char := ['n', 'u', 'l', 'l']

def isTokenChar (c : Char) : Bool := c.isAlphanum || c == '.' || c == '-' || c == '+'

/-- A literal that is not quoted: a number with its suffix, or a truth value. -/
structure Token where
  text : List Char
  ne_nil : text ≠ []
  isToken : ∀ c ∈ text, isTokenChar c = true
  ne_null : text ≠ nullText
  deriving DecidableEq

inductive Literal
  | string (s : List Char)
  | token (t : Token)
  deriving DecidableEq

/-- Quotes are doubled. -/
def escape (s : List Char) : List Char := s.flatMap fun c => if c = '\'' then ['\'', '\''] else [c]

def Literal.text : Literal → List Char
  | string s => '\'' :: (escape s ++ ['\''])
  | token t => t.text

/-- What a property is compared with; `none` is `null`. -/
def operandText : Option Literal → List Char
  | none => nullText
  | some l => l.text

inductive Filter
  | compare (property : Name) (op : Comparison) (operand : Option Literal)
  | and (left right : Filter)
  | or (left right : Filter)
  | not (filter : Filter)
  deriving DecidableEq

def andWord : List Char := [' ', 'a', 'n', 'd', ' ']

def orWord : List Char := [' ', 'o', 'r', ' ']

def notOpen : List Char := ['n', 'o', 't', ' ', '(']

def Filter.text : Filter → List Char
  | compare property op operand => property.text ++ ' ' :: (op.keyword ++ ' ' :: operandText operand)
  | and left right => '(' :: (left.text ++ (andWord ++ (right.text ++ [')'])))
  | or left right => '(' :: (left.text ++ (orWord ++ (right.text ++ [')'])))
  | not filter => notOpen ++ (filter.text ++ [')'])

/-- One filter or several, all to hold. -/
def conj : Filter → List Filter → Filter
  | f, [] => f
  | f, g :: rest => .and f (conj g rest)

/-! ## Reading -/

/-- The text behind a word. -/
def skip : List Char → List Char → Option (List Char)
  | [], s => some s
  | _ :: _, [] => none
  | c :: word, d :: s => if c = d then skip word s else none

def readName (s : List Char) : Option (Name × List Char) :=
  if h : s.takeWhile isNameChar ≠ [] then
    some (⟨s.takeWhile isNameChar, h, fun _ => List.mem_takeWhile_imp⟩, s.dropWhile isNameChar)
  else none

def readComparison (s : List Char) : Option (Comparison × List Char) :=
  [Comparison.eq, .ne, .lt, .le, .gt, .ge].findSome? fun op => (skip (op.keyword ++ [' ']) s).map (op, ·)

/-- Up to the quote that is not doubled. -/
def readString : List Char → Option (List Char × List Char)
  | [] => none
  | c :: rest =>
    if c = '\'' then
      match rest with
      | [] => some ([], [])
      | d :: rest => if d = '\'' then (readString rest).map fun (s, r) => ('\'' :: s, r) else some ([], d :: rest)
    else (readString rest).map fun (s, r) => (c :: s, r)

def readToken (s : List Char) : Option (Option Literal × List Char) :=
  if h : s.takeWhile isTokenChar = [] then none
  else if hnull : s.takeWhile isTokenChar = nullText then some (none, s.dropWhile isTokenChar)
  else
    some (some (.token ⟨s.takeWhile isTokenChar, h, fun _ => List.mem_takeWhile_imp, hnull⟩),
      s.dropWhile isTokenChar)

def readOperand (s : List Char) : Option (Option Literal × List Char) :=
  match skip ['\''] s with
  | some rest => (readString rest).map fun (t, r) => (some (.string t), r)
  | none => readToken s

def readCompare (s : List Char) : Option (Filter × List Char) := do
  let (property, rest) ← readName s
  let rest ← skip [' '] rest
  let (op, rest) ← readComparison rest
  let (operand, rest) ← readOperand rest
  some (.compare property op operand, rest)

inductive Level
  | or
  | and
  | unary
  deriving DecidableEq

/-- Each level of precedence, with fuel for the recursion. -/
def readFrom : Nat → Level → List Char → Option (Filter × List Char)
  | 0, _, _ => none
  | n + 1, .or, s =>
    (readFrom n .and s).bind fun (left, rest) =>
      match skip orWord rest with
      | some rest => (readFrom n .or rest).map fun (right, rest) => (.or left right, rest)
      | none => some (left, rest)
  | n + 1, .and, s =>
    (readFrom n .unary s).bind fun (left, rest) =>
      match skip andWord rest with
      | some rest => (readFrom n .and rest).map fun (right, rest) => (.and left right, rest)
      | none => some (left, rest)
  | n + 1, .unary, s =>
    match skip notOpen s with
    | some inner =>
      (readFrom n .or inner).bind fun (f, rest) => (skip [')'] rest).map fun rest => (.not f, rest)
    | none =>
      match skip ['('] s with
      | some inner => (readFrom n .or inner).bind fun (f, rest) => (skip [')'] rest).map fun rest => (f, rest)
      | none => readCompare s

def read (s : List Char) : Option Filter :=
  match readFrom (s.length + 2) .or s with
  | some (f, []) => some f
  | _ => none

/-! ## What is written is read -/

@[simp] theorem skip_append (word s) : skip word (word ++ s) = some s := by
  induction word with
  | nil => cases s <;> rfl
  | cons c word ih => simpa [skip] using ih

theorem skip_of_head {c d word s} (h : c ≠ d) : skip (c :: word) (d :: s) = none := if_neg h

/-- Where a run of characters that satisfy `p` has its end. -/
def Stops (p : Char → Bool) (s : List Char) : Prop := ∀ c, s.head? = some c → p c = false

variable {rest : List Char}

theorem takeWhile_run {p run} (hru : ∀ c ∈ run, p c = true) (hr : Stops p rest) :
    (run ++ rest).takeWhile p = run := by
  rw [takeWhile_append_of_pos hru]
  cases rest with
  | nil => simp
  | cons c rest => simp [hr c rfl]

theorem dropWhile_run {p run} (hru : ∀ c ∈ run, p c = true) (hr : Stops p rest) :
    (run ++ rest).dropWhile p = rest := by
  rw [dropWhile_append_of_pos hru]
  cases rest with
  | nil => simp
  | cons c rest => simp [hr c rfl]

/-- What stands behind a filter: nothing, a blank or a parenthesis. -/
def Closed (rest : List Char) : Prop := ∀ c, rest.head? = some c → c = ' ' ∨ c = ')'

theorem closed_nil : Closed [] := by simp [Closed]

theorem closed_paren (rest) : Closed (')' :: rest) := by simp [Closed]

theorem closed_blank (rest) : Closed (' ' :: rest) := by simp [Closed]

theorem Closed.stops (h : Closed rest) : Stops isTokenChar rest := by
  intro c hc
  rcases h c hc with rfl | rfl <;> decide

theorem readName_text (name) (hr : Stops isNameChar rest) :
    readName (name.text ++ rest) = some (name, rest) := by
  have ht := takeWhile_run name.isName hr
  have hd := dropWhile_run name.isName hr
  unfold readName
  rw [dif_pos (by rw [ht]; exact name.ne_nil)]
  simp only [ht, hd]

theorem readComparison_keyword (op) (rest) :
    readComparison (op.keyword ++ ' ' :: rest) = some (op, rest) := by
  cases op <;> simp [readComparison, Comparison.keyword, skip]

theorem readString_escape (s) (hr : Closed rest) :
    readString (escape s ++ '\'' :: rest) = some (s, rest) := by
  induction s with
  | nil =>
    cases rest with
    | nil => rfl
    | cons d rest =>
      have hd : d ≠ '\'' := by
        rcases hr d rfl with rfl | rfl <;> decide
      simp [escape, readString, hd]
  | cons c s ih =>
    by_cases hc : c = '\''
    · subst hc
      have hco : escape ('\'' :: s) = '\'' :: '\'' :: escape s := rfl
      rw [hco, cons_append, cons_append]
      unfold readString
      simp only [if_true, ih, Option.map_some]
    · have hco : escape (c :: s) = c :: escape s := by simp [escape, hc]
      rw [hco, cons_append]
      unfold readString
      rw [if_neg hc, ih]
      rfl

theorem readToken_text (t) (hr : Closed rest) :
    readToken (t.text ++ rest) = some (some (.token t), rest) := by
  have ht := takeWhile_run t.isToken hr.stops
  have hd := dropWhile_run t.isToken hr.stops
  unfold readToken
  rw [dif_neg (by rw [ht]; exact t.ne_nil), dif_neg (by rw [ht]; exact t.ne_null)]
  simp only [ht, hd]

theorem isTokenChar_nullText : ∀ c ∈ nullText, isTokenChar c = true := all_eq_true.mp (by decide)

theorem readToken_null (hr : Closed rest) : readToken (nullText ++ rest) = some (none, rest) := by
  have ht := takeWhile_run isTokenChar_nullText hr.stops
  have hd := dropWhile_run isTokenChar_nullText hr.stops
  unfold readToken
  rw [dif_neg (by rw [ht]; decide), dif_pos ht, hd]

theorem skip_quote_token {run} (hne : run ≠ []) (hr : ∀ c ∈ run, isTokenChar c = true) :
    skip ['\''] (run ++ rest) = none := by
  cases run with
  | nil => exact absurd rfl hne
  | cons c run =>
    refine skip_of_head ?_
    rintro rfl
    exact absurd (hr '\'' mem_cons_self) (by decide)

theorem readOperand_text (operand) (hr : Closed rest) :
    readOperand (operandText operand ++ rest) = some (operand, rest) := by
  match operand with
  | none => rw [operandText, readOperand, skip_quote_token (by decide) isTokenChar_nullText, readToken_null hr]
  | some (.token t) =>
    rw [operandText, Literal.text, readOperand, skip_quote_token t.ne_nil t.isToken, readToken_text t hr]
  | some (.string s) =>
    have ht : operandText (some (.string s)) ++ rest = ['\''] ++ (escape s ++ '\'' :: rest) := by
      simp [operandText, Literal.text]
    rw [ht, readOperand, skip_append]
    simp only [readString_escape s hr, Option.map_some]

theorem readCompare_text (property) (op) (operand) (hr : Closed rest) :
    readCompare ((Filter.compare property op operand).text ++ rest) =
      some (.compare property op operand, rest) := by
  have hb : Stops isNameChar (' ' :: (op.keyword ++ ' ' :: (operandText operand ++ rest))) := by
    rintro c ⟨⟩
    decide
  have ht : (Filter.compare property op operand).text ++ rest =
      property.text ++ ' ' :: (op.keyword ++ ' ' :: (operandText operand ++ rest)) := by
    simp [Filter.text]
  rw [ht, readCompare, readName_text property hb]
  simp [skip, readComparison_keyword, readOperand_text operand hr]

/-! ### The levels -/

section Levels

variable {n : Nat} {s rest : List Char} {f l r : Filter}

theorem readFrom_and_one (h : readFrom n .unary s = some (f, rest)) (hr : skip andWord rest = none) :
    readFrom (n + 1) .and s = some (f, rest) := by
  simp [readFrom, h, hr]

theorem readFrom_and_more {s'} (hl : readFrom n .unary s = some (l, andWord ++ s'))
    (hr : readFrom n .and s' = some (r, rest)) : readFrom (n + 1) .and s = some (.and l r, rest) := by
  simp [readFrom, hl, hr]

theorem readFrom_or_one (h : readFrom n .and s = some (f, rest)) (hr : skip orWord rest = none) :
    readFrom (n + 1) .or s = some (f, rest) := by
  simp [readFrom, h, hr]

theorem readFrom_or_more {s'} (hl : readFrom n .and s = some (l, orWord ++ s'))
    (hr : readFrom n .or s' = some (r, rest)) : readFrom (n + 1) .or s = some (.or l r, rest) := by
  simp [readFrom, hl, hr]

theorem readFrom_paren (h : readFrom n .or s = some (f, ')' :: rest)) :
    readFrom (n + 1) .unary ('(' :: s) = some (f, rest) := by
  have hn : skip notOpen ('(' :: s) = none := skip_of_head (by decide)
  simp [readFrom, hn, skip, h]

theorem readFrom_not (h : readFrom n .or s = some (f, ')' :: rest)) :
    readFrom (n + 1) .unary (notOpen ++ s) = some (.not f, rest) := by
  simp [readFrom, h, skip]

/-- Behind a name and its blank stands no parenthesis, so that a property may be called `not`. -/
theorem skip_name_paren (word) {run c tail}
    (hw : ∀ c ∈ word, isNameChar c = true) (hr : ∀ c ∈ run, isNameChar c = true) (hc : c ≠ '(') :
    skip (word ++ [' ', '(']) (run ++ ' ' :: c :: tail) = none := by
  induction word generalizing run with
  | nil =>
    cases run with
    | nil => simp [skip, hc.symm]
    | cons d run =>
      refine skip_of_head ?_
      rintro rfl
      exact absurd (hr ' ' mem_cons_self) (by decide)
  | cons a word ih =>
    cases run with
    | nil =>
      refine skip_of_head ?_
      rintro rfl
      exact absurd (hw ' ' mem_cons_self) (by decide)
    | cons d run =>
      by_cases had : a = d
      · have h := ih (fun c hc => hw c (mem_cons_of_mem a hc)) (fun c hc => hr c (mem_cons_of_mem d hc))
        simpa [skip, had] using h
      · exact skip_of_head had

theorem readFrom_compare (property) (op) (operand) (hr : Closed rest) :
    readFrom (n + 1) .unary ((Filter.compare property op operand).text ++ rest) =
      some (.compare property op operand, rest) := by
  have hp : skip ['('] ((Filter.compare property op operand).text ++ rest) = none := by
    obtain ⟨c, name, hname⟩ := exists_cons_of_ne_nil property.ne_nil
    have hc := property.isName c (by simp [hname])
    rw [Filter.text, hname]
    refine skip_of_head ?_
    rintro rfl
    exact absurd hc (by decide)
  have hn : skip notOpen ((Filter.compare property op operand).text ++ rest) = none := by
    obtain ⟨c, tail, hk, hc⟩ : ∃ c tail, op.keyword = c :: tail ∧ c ≠ '(' := by
      cases op <;> exact ⟨_, _, rfl, by decide⟩
    have ht : (Filter.compare property op operand).text ++ rest =
        property.text ++ ' ' :: c :: (tail ++ ' ' :: (operandText operand ++ rest)) := by
      simp [Filter.text, hk]
    rw [ht]
    exact skip_name_paren ['n', 'o', 't'] (all_eq_true.mp (by decide)) property.isName hc
  rw [readFrom, hn]
  simp only [hp]
  exact readCompare_text property op operand hr

end Levels

theorem readFrom_text (f) {n} (rest) (hn : f.text.length ≤ n) (hre : Closed rest) :
    readFrom n .unary (f.text ++ rest) = some (f, rest) := by
  induction f generalizing n rest with
  | compare property op operand =>
    obtain ⟨m, rfl⟩ : ∃ m, n = m + 1 := by
      refine Nat.exists_eq_add_one.mpr (Nat.lt_of_lt_of_le ?_ hn)
      rw [Filter.text, length_append, length_cons]
      omega
    exact readFrom_compare property op operand hre
  | and l r ihl ihr =>
    have hle : (Filter.and l r).text.length = l.text.length + r.text.length + 7 := by
      simp only [Filter.text, length_cons, length_append, andWord, length_nil]
      omega
    obtain ⟨m, rfl⟩ : ∃ m, n = m + 4 := ⟨n - 4, by omega⟩
    have ht : (Filter.and l r).text ++ rest = '(' :: (l.text ++ (andWord ++ (r.text ++ ')' :: rest))) := by
      simp [Filter.text]
    have hl := ihl (n := m + 1) (andWord ++ (r.text ++ ')' :: rest)) (by omega) (closed_blank _)
    have hr := ihr (n := m) (')' :: rest) (by omega) (closed_paren rest)
    rw [ht]
    exact readFrom_paren (readFrom_or_one
      (readFrom_and_more hl (readFrom_and_one hr (skip_of_head (by decide)))) (skip_of_head (by decide)))
  | or l r ihl ihr =>
    have hle : (Filter.or l r).text.length = l.text.length + r.text.length + 6 := by
      simp only [Filter.text, length_cons, length_append, orWord, length_nil]
      omega
    obtain ⟨m, rfl⟩ : ∃ m, n = m + 4 := ⟨n - 4, by omega⟩
    have ht : (Filter.or l r).text ++ rest = '(' :: (l.text ++ (orWord ++ (r.text ++ ')' :: rest))) := by
      simp [Filter.text]
    have hl := ihl (n := m + 1) (orWord ++ (r.text ++ ')' :: rest)) (by omega) (closed_blank _)
    have hr := ihr (n := m) (')' :: rest) (by omega) (closed_paren rest)
    have hor : skip andWord (orWord ++ (r.text ++ ')' :: rest)) = none := by simp [andWord, orWord, skip]
    rw [ht]
    exact readFrom_paren (readFrom_or_more (readFrom_and_one hl hor)
      (readFrom_or_one (readFrom_and_one hr (skip_of_head (by decide))) (skip_of_head (by decide))))
  | not f ih =>
    have hle : (Filter.not f).text.length = f.text.length + 6 := by
      simp only [Filter.text, length_append, notOpen, length_cons, length_nil]
      omega
    obtain ⟨m, rfl⟩ : ∃ m, n = m + 3 := ⟨n - 3, by omega⟩
    have ht : (Filter.not f).text ++ rest = notOpen ++ (f.text ++ ')' :: rest) := by simp [Filter.text]
    have hf := ih (n := m) (')' :: rest) (by omega) (closed_paren rest)
    rw [ht]
    exact readFrom_not (readFrom_or_one (readFrom_and_one hf (skip_of_head (by decide))) (skip_of_head (by decide)))

theorem readFrom_join (f) (fs) {n}
    (hn : (andWord.intercalate ((f :: fs).map Filter.text)).length < n) :
    readFrom n .and (andWord.intercalate ((f :: fs).map Filter.text)) = some (conj f fs, []) := by
  induction fs generalizing f n with
  | nil =>
    obtain ⟨m, rfl⟩ : ∃ m, n = m + 1 := Nat.exists_eq_add_one.mpr (Nat.zero_lt_of_lt hn)
    have ho : andWord.intercalate ([f].map Filter.text) = f.text ++ [] := by simp [intercalate]
    rw [ho] at hn ⊢
    have hf := readFrom_text f (n := m) [] (by simp at hn; omega) closed_nil
    exact readFrom_and_one hf rfl
  | cons g fs ih =>
    have hm : andWord.intercalate ((f :: g :: fs).map Filter.text) =
        f.text ++ (andWord ++ andWord.intercalate ((g :: fs).map Filter.text)) := by
      simp [intercalate]
    rw [hm] at hn ⊢
    simp only [length_append] at hn
    obtain ⟨m, rfl⟩ : ∃ m, n = m + 1 := Nat.exists_eq_add_one.mpr (Nat.zero_lt_of_lt hn)
    have hword : andWord.length = 5 := rfl
    have hf := readFrom_text f (n := m) (andWord ++ andWord.intercalate ((g :: fs).map Filter.text))
      (by omega) (closed_blank _)
    exact readFrom_and_more hf (ih g (by omega))

theorem read_join (f) (fs) :
    read (andWord.intercalate ((f :: fs).map Filter.text)) = some (conj f fs) := by
  rw [read, readFrom_or_one (readFrom_join f fs (Nat.lt_succ_self _)) rfl]

/-! ## The answer of a service -/

section Holds

variable {V : Type} [LinearOrder V]

def Comparison.holds : Comparison → V → V → Bool
  | eq, a, b => decide (a = b)
  | ne, a, b => decide (a ≠ b)
  | lt, a, b => decide (a < b)
  | le, a, b => decide (a ≤ b)
  | gt, a, b => decide (b < a)
  | ge, a, b => decide (b ≤ a)

def Comparison.holdsNull (op : Comparison) : Option V → Option V → Bool
  | some a, some b => op.holds a b
  | none, none => op == .eq
  | some _, none => op == .ne
  | none, some _ => op == .ne

/-- Whether an entity is in the answer, given the value a literal stands for. -/
def Filter.holds (value : Literal → V) (entity : Name → Option V) : Filter → Bool
  | compare property op operand => op.holdsNull (entity property) (operand.map value)
  | and left right => left.holds value entity && right.holds value entity
  | or left right => left.holds value entity || right.holds value entity
  | not filter => !filter.holds value entity

theorem holds_conj {value} {entity : Name → Option V} (f) (fs) :
    (conj f fs).holds value entity = true ↔ ∀ g ∈ f :: fs, g.holds value entity = true := by
  induction fs generalizing f with
  | nil => simp [conj]
  | cons g fs ih => simp only [conj, Filter.holds, Bool.and_eq_true, ih, forall_mem_cons]

end Holds

end ODataSyntax
