/-
Where the statements of a message end: for the front end, which looks at quotes only
(`sql_split.rs`), and for PostgreSQL, whose lexer also knows comments and dollar quotes.
-/
import Dataglot.Pgwire.Text

namespace Dataglot
open Text List

/-- A slice of a message: where it begins, and its text. -/
structure Statement where
  start : Nat
  text : Text
  deriving DecidableEq, Repr

namespace Statement

/-- The slice without the blanks around it. -/
protected def trim (s : Statement) : Statement :=
  ⟨s.start + (s.text.length - (trimStart s.text).length), Text.trim s.text⟩

/-- The slice that the parsers read: without the blanks around it and without one final `;`. -/
def core (s : Statement) : Statement := ⟨s.trim.start, withoutTerminator s.text⟩

/-- The first slice ends before the second begins. -/
def Precedes (a b : Statement) : Prop := a.start + a.text.length < b.start

/-- The trimmed slices that are not blank. -/
def nonBlank (slices : List Statement) : List Statement := (slices.map Statement.trim).filter fun s => !s.text.isEmpty

end Statement

/-! ## The front end's split -/

/-- The loop of `split_sql_statements`: the slices between the `;` outside quotes. `current` is the slice
that began at `start`, as far as it has been read. -/
def quoteSlices : Option Char → Nat → Text → Text → List Statement
  | _, start, current, [] => [⟨start, current⟩]
  | some _, start, current, [c] => [⟨start, current ++ [c]⟩]
  | some q, start, current, c :: d :: rest =>
    if c = q then
      -- A doubled quote is one of the string, and does not close it.
      if d = q then quoteSlices (some q) start (current ++ [c, d]) rest
      else quoteSlices none start (current ++ [c]) (d :: rest)
    else quoteSlices (some q) start (current ++ [c]) (d :: rest)
  | none, start, current, c :: rest =>
    if c = '\'' ∨ c = '"' then quoteSlices (some c) start (current ++ [c]) rest
    else if c = ';' then ⟨start, current⟩ :: quoteSlices none (start + current.length + 1) [] rest
    else quoteSlices none start (current ++ [c]) rest

def splitSqlStatements (query : Text) : List Statement := Statement.nonBlank (quoteSlices none 0 [] query)

/-! ## PostgreSQL's split -/

/-- Where PostgreSQL's lexer is. Two-character openers are read one character at a time. -/
inductive LexMode
  /-- Outside of everything; the character before continues an identifier or does not. -/
  | top (inIdent : Bool)
  | dash
  | slash
  | single
  | double
  | lineComment
  | blockComment (depth : Nat)
  | blockSlash (depth : Nat)
  | blockStar (depth : Nat)
  /-- Behind a `$` and the beginning of a tag. -/
  | dollarTag (tag : Text)
  | dollarBody (tag : Text)
  /-- In a body, behind a `$` and what may be its tag. -/
  | dollarClose (tag seen : Text)
  deriving DecidableEq, Repr

namespace LexMode

/-- `ident_start` of the lexer: every character beyond ASCII is one. -/
def isIdentStart (c : Char) : Bool := c.isAlpha || c == '_' || 128 ≤ c.toNat

/-- `dolq_cont`. -/
def isTagPart (c : Char) : Bool := isIdentStart c || c.isDigit

/-- A character outside of everything. -/
def stepTop (inIdent : Bool) (c : Char) : LexMode :=
  if c = '\'' then .single
  else if c = '"' then .double
  else if c = '-' then .dash
  else if c = '/' then .slash
  else if c = '$' then
    -- An identifier may hold a `$`, but may not begin with one.
    if inIdent then .top true else .dollarTag []
  else .top (isIdentStart c || (inIdent && c.isDigit))

/-- A tag goes on with `c`, behind `seen`. -/
def continuesTag (seen : Text) (c : Char) : Bool := if seen.isEmpty then isIdentStart c else isTagPart c

def step : LexMode → Char → LexMode
  | .top inIdent, c => stepTop inIdent c
  | .dash, c => if c = '-' then .lineComment else stepTop false c
  | .slash, c => if c = '*' then .blockComment 0 else stepTop false c
  -- A doubled quote closes the string and opens it again, with nothing in between.
  | .single, c => if c = '\'' then .top false else .single
  | .double, c => if c = '"' then .top false else .double
  | .lineComment, c => if c = '\n' ∨ c = '\r' then .top false else .lineComment
  | .blockComment depth, c =>
    if c = '/' then .blockSlash depth else if c = '*' then .blockStar depth else .blockComment depth
  | .blockSlash depth, c =>
    if c = '*' then .blockComment (depth + 1) else if c = '/' then .blockSlash depth else .blockComment depth
  | .blockStar depth, c =>
    if c = '/' then
      match depth with
      | 0 => .top false
      | depth + 1 => .blockComment depth
    else if c = '*' then .blockStar depth
    else .blockComment depth
  | .dollarTag tag, c =>
    if c = '$' then .dollarBody tag
    else if continuesTag tag c then .dollarTag (tag ++ [c])
    else stepTop false c
  | .dollarBody tag, c => if c = '$' then .dollarClose tag [] else .dollarBody tag
  | .dollarClose tag seen, c =>
    -- The final `$` of a delimiter that does not match may begin another one.
    if c = '$' then if seen = tag then .top false else .dollarClose tag []
    else if continuesTag seen c then .dollarClose tag (seen ++ [c])
    else .dollarBody tag

/-- Not in a string, a comment or a dollar quote. -/
def isTopLevel : LexMode → Bool
  | .top _ | .dash | .slash | .dollarTag _ => true
  | _ => false

/-- The slices between the top-level `;`. -/
def slices : LexMode → Nat → Text → Text → List Statement
  | _, start, current, [] => [⟨start, current⟩]
  | mode, start, current, c :: rest =>
    if mode.isTopLevel ∧ c = ';' then ⟨start, current⟩ :: slices (mode.step c) (start + current.length + 1) [] rest
    else slices (mode.step c) start (current ++ [c]) rest

end LexMode

/-- The statements of a message by PostgreSQL's lexical rules. -/
def postgresStatements (query : Text) : List Statement := Statement.nonBlank (LexMode.slices (.top false) 0 [] query)

/-! ## The slices of a message -/

namespace Statement

theorem Precedes.ne {a b} (h : Precedes a b) : a ≠ b := by
  rintro rfl
  unfold Precedes at h
  omega

theorem length_trim_le (s : Statement) : s.trim.start + s.trim.text.length ≤ s.start + s.text.length := by
  have hle := length_trimStart_le s.text
  have hend : (trim s.text).length ≤ (trimStart s.text).length := (trimEnd_isPrefix _).length_le
  show s.start + (s.text.length - (trimStart s.text).length) + (trim s.text).length ≤ _
  omega

theorem Precedes.trim {a b} (h : Precedes a b) : Precedes a.trim b.trim := by
  have hb : b.start ≤ b.trim.start := Nat.le_add_right _ _
  exact (length_trim_le a).trans_lt (lt_of_lt_of_le h hb)

theorem pairwise_nonBlank {slices} (h : slices.Pairwise Precedes) : (nonBlank slices).Pairwise Precedes :=
  ((pairwise_map.mpr (h.imp Precedes.trim))).filter _

end Statement

open Statement

theorem pairwise_quoteSlices (quote start current rest) :
    (quoteSlices quote start current rest).Pairwise Precedes ∧
      ∀ s ∈ quoteSlices quote start current rest, start ≤ s.start := by
  fun_induction quoteSlices quote start current rest with
  | case1 | case2 => simp
  | case3 | case4 | case5 | case6 | case8 => assumption
  | case7 start current rest _ ih =>
    obtain ⟨hp, hf⟩ := ih
    refine ⟨pairwise_cons.mpr ⟨fun s hs => ?_, hp⟩, forall_mem_cons.mpr ⟨le_rfl, fun s hs => ?_⟩⟩
    · have hle := hf s hs
      show start + current.length < s.start
      omega
    · have hle := hf s hs
      omega

theorem pairwise_splitSqlStatements (query) : (splitSqlStatements query).Pairwise Precedes :=
  pairwise_nonBlank (pairwise_quoteSlices none 0 [] query).1

theorem quoteSlices_first (quote start) (current rest : Text) :
    ∃ front tail more, rest = front ++ tail ∧ quoteSlices quote start current rest = ⟨start, current ++ front⟩ :: more ∧
      (tail = [] ∧ more = [] ∨ ∃ after, tail = ';' :: after) := by
  fun_induction quoteSlices quote start current rest with
  | case1 => exact ⟨[], [], [], rfl, by rw [append_nil], .inl ⟨rfl, rfl⟩⟩
  | case2 _ _ _ c => exact ⟨[c], [], [], rfl, rfl, .inl ⟨rfl, rfl⟩⟩
  | case7 start current rest => exact ⟨[], ';' :: rest, _, rfl, by rw [append_nil], .inr ⟨rest, rfl⟩⟩
  | case3 start current d rest ih =>
    obtain ⟨front, tail, more, rfl, hs, ht⟩ := ih
    exact ⟨d :: d :: front, tail, more, rfl, by rw [hs, append_assoc]; rfl, ht⟩
  | case4 start current c d rest _ ih | case5 _ start current c d rest _ ih =>
    obtain ⟨front, tail, more, hr, hs, ht⟩ := ih
    exact ⟨c :: front, tail, more, by rw [hr]; rfl, by rw [hs, append_assoc]; rfl, ht⟩
  | case6 start current c rest _ ih | case8 start current c rest _ _ ih =>
    obtain ⟨front, tail, more, hr, hs, ht⟩ := ih
    exact ⟨c :: front, tail, more, by rw [hr]; rfl, by rw [hs, append_assoc]; rfl, ht⟩

theorem first_isPrefix {query s more} (h : splitSqlStatements query = s :: more) :
    (∃ after, trimStart query = ';' :: after) ∨ s.text <+: trimStart query := by
  obtain ⟨front, tail, slices, rfl, hs, ht⟩ := quoteSlices_first none 0 [] query
  rw [splitSqlStatements, hs, nil_append, nonBlank, map_cons, filter_cons] at h
  by_cases hb : Text.trim front = []
  · left
    have hd : (!(Statement.trim ⟨0, front⟩).text.isEmpty) = false := by
      show (!(Text.trim front).isEmpty) = false
      rw [hb]
      rfl
    rw [hd, if_neg Bool.false_ne_true] at h
    rw [trimStart_append_of_blank hb]
    rcases ht with ⟨-, rfl⟩ | ⟨after, rfl⟩
    · cases h
    · exact ⟨after, by rw [trimStart, dropWhile_cons_of_neg (by rw [isWhitespace_semicolon]; exact Bool.false_ne_true)]⟩
  · right
    have hk : (!(Statement.trim ⟨0, front⟩).text.isEmpty) = true := by
      show (!(Text.trim front).isEmpty) = true
      rw [isEmpty_eq_false_iff.mpr hb]
      rfl
    rw [hk, if_pos rfl] at h
    obtain ⟨rfl, -⟩ := cons.inj h
    rw [trimStart_append hb]
    exact (trimEnd_isPrefix _).trans (prefix_append _ _)

end Dataglot
