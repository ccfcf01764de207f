/-
Query text as the pg wire front end reads it (`explain.rs`, `catalog_ddl.rs`): leading
keywords, identifiers, option values. The source scans bytes, and only ever compares
them with ASCII; here a text is the list of its characters.
-/
import Mathlib
import Dataglot.Server.Identity

namespace Dataglot
open List Option

/-- A `&str`. -/
abbrev Text := List Char

/-- What `char::is_alphabetic` and `char::is_numeric` answer. -/
structure UnicodeTables where
  isAlphabetic : Char → Bool
  isNumeric : Char → Bool

def UnicodeTables.ascii : UnicodeTables := ⟨Char.isAlpha, Char.isDigit⟩

namespace Text

/-! ## Trimming -/

def isWhitespace (c : Char) : Bool :=
  (9 ≤ c.toNat && c.toNat ≤ 13) || c.toNat == 0x20 || c.toNat == 0x85 || c.toNat == 0xA0 || c.toNat == 0x1680 ||
    (0x2000 ≤ c.toNat && c.toNat ≤ 0x200A) || c.toNat == 0x2028 || c.toNat == 0x2029 || c.toNat == 0x202F ||
    c.toNat == 0x205F || c.toNat == 0x3000

def trimStart (s : Text) : Text := s.dropWhile isWhitespace

def trimEnd (s : Text) : Text := s.rdropWhile isWhitespace

def trim (s : Text) : Text := trimEnd (trimStart s)

/-- What every parser of the front end begins with: the trimmed text without one final `;`. -/
def withoutTerminator (query : Text) : Text :=
  let s := trim query
  if s.getLast? = some ';' then trimEnd s.dropLast else s

/-! ## Keywords -/

/-- `strip_prefix` of one character. -/
def stripChar (c : Char) : Text → Option Text
  | [] => none
  | d :: rest => if d = c then some rest else none

def eqIgnoreAsciiCase (a b : Text) : Bool := a.map Char.toLower == b.map Char.toLower

def stripKeywordCi (s : Text) (kw : String) : Option Text :=
  let n := kw.toList.length
  if n ≤ s.length && eqIgnoreAsciiCase (s.take n) kw.toList then some (s.drop n) else none

def startsWithWhitespace : Text → Bool
  | [] => false
  | c :: _ => isWhitespace c

/-- `keyword`: a leading keyword with a blank behind it. -/
def keyword (s : Text) (kw : String) : Option Text := do
  let rest ← stripKeywordCi s kw
  if startsWithWhitespace rest then some (trimStart rest) else none

/-- `word`: a leading keyword with a blank or the end of the text behind it. -/
def word (s : Text) (kw : String) : Option Text := do
  let rest ← stripKeywordCi s kw
  if rest.isEmpty || startsWithWhitespace rest then some (trimStart rest) else none

/-- What the text is by its leading keyword: the parsers of the rest are tried in their order. -/
def onKeyword {α : Type} (s : Text) : List (String × (Text → Option α)) → Option α
  | [] => none
  | (kw, parse) :: others =>
    match keyword s kw with
    | some rest => parse rest
    | none => onKeyword s others

/-- The optional `OR REPLACE`. -/
def parseOrReplace (s : Text) : Option (Bool × Text) :=
  match keyword s "OR" with
  | some afterOr => (keyword afterOr "REPLACE").map (true, ·)
  | none => some (false, s)

def parseIfNotExists (s : Text) : Option (Bool × Text) :=
  match keyword s "IF" with
  | some afterIf => do
    let afterNot ← keyword afterIf "NOT"
    (keyword afterNot "EXISTS").map (true, ·)
  | none => some (false, s)

def parseIfExists (s : Text) : Option (Bool × Text) :=
  match keyword s "IF" with
  | some afterIf => (keyword afterIf "EXISTS").map (true, ·)
  | none => some (false, s)

/-- Nothing but blanks may follow. -/
def parseEnd (rest : Text) : Option Unit := guard (trim rest).isEmpty

/-! ## Identifiers and values -/

/-- `parse_quoted`: the text up to the closing quote, a doubled quote being one of the text. -/
def parseQuoted (quote : Char) : Text → Option (Text × Text)
  | [] => none
  | [c] => if c = quote then some ([], []) else none
  | c :: d :: rest =>
    if c = quote then
      if d = quote then (parseQuoted quote rest).map fun (out, r) => (quote :: out, r)
      else some ([], d :: rest)
    else (parseQuoted quote (d :: rest)).map fun (out, r) => (c :: out, r)

variable (U : UnicodeTables)

def isIdentStart (c : Char) : Bool := U.isAlphabetic c || c == '_'

def isIdentPart (c : Char) : Bool := U.isAlphabetic c || U.isNumeric c || c == '_'

def parseBareIdent (s : Text) : Option (Text × Text) :=
  match s with
  | [] => none
  | first :: _ =>
    if isIdentStart U first then some (s.takeWhile (isIdentPart U), s.dropWhile (isIdentPart U)) else none

def parseIdentifier (s : Text) : Option (String × Text) :=
  let s := trimStart s
  match stripChar '"' s with
  | some rest => (parseQuoted '"' rest).map fun (out, r) => (String.ofList out, r)
  | none => (parseBareIdent U s).map fun (id, r) => (String.ofList id, r)

/-- `[IF EXISTS] <name>` and nothing more, which most `DROP`s end with. -/
def parseDropped (s : Text) : Option (String × Bool) := do
  let (ifExists, s) ← parseIfExists s
  let (name, rest) ← parseIdentifier U s
  parseEnd rest
  some (name, ifExists)

/-- A bare value ends here. -/
def endsValue (c : Char) : Bool := c == ',' || c == ')' || isWhitespace c

def parseValue (s : Text) : Option (String × Text) :=
  match s with
  | '\'' :: rest => (parseQuoted '\'' rest).map fun (out, r) => (String.ofList out, r)
  | '"' :: rest => (parseQuoted '"' rest).map fun (out, r) => (String.ofList out, r)
  | s =>
    let token := s.takeWhile fun c => !endsValue c
    if token.isEmpty then none else some (String.ofList token, s.dropWhile fun c => !endsValue c)

/-- Entries after the first of a bag stand behind a comma. -/
def afterComma (first : Bool) (rest : Text) : Option Text := if first then some rest else (stripChar ',' rest).map trimStart

/-- One `key = value` of a bag. -/
def parseOption (first : Bool) (rest : Text) : Option (String × String × Text) := do
  let rest ← afterComma first rest
  let (key, r) ← parseBareIdent U rest
  let rest ← (stripChar '=' (trimStart r)).map trimStart
  let (value, r) ← parseValue rest
  some (String.ofList (key.map Char.toLower), value, r)

/-- The loop of `parse_option_bag`; each round reads something, so that the text's length bounds them. -/
def parseOptions : Nat → HashMap String → Text → Option (HashMap String)
  | 0, _, _ => none
  | fuel + 1, opts, rest =>
    let rest := trimStart rest
    match stripChar ')' rest with
    | some after => if (trim after).isEmpty then some opts else none
    | none => do
      let (key, value, r) ← parseOption U opts.entries.isEmpty rest
      parseOptions fuel (opts.insert key value) r

def parseOptionBag (s : Text) : Option (HashMap String) := do
  let rest ← stripChar '(' (trimStart s)
  parseOptions U (rest.length + 1) ∅ rest

/-! ## What is left of a text -/

theorem isWhitespace_semicolon : isWhitespace ';' = false := by decide

theorem trimEnd_isPrefix (s) : trimEnd s <+: s := rdropWhile_prefix ..

theorem withoutTerminator_isPrefix (query) : withoutTerminator query <+: trimStart query := by
  have ht : trim query <+: trimStart query := trimEnd_isPrefix (trimStart query)
  unfold withoutTerminator
  dsimp only
  split_ifs
  · exact (trimEnd_isPrefix _).trans ((List.dropLast_prefix _).trans ht)
  · exact ht

variable {s rest r : Text} {words : List String} {c : Char}

theorem trimStart_of_isPrefix {t} (h : s <+: trimStart t) : trimStart s = s := by
  cases s with
  | nil => rfl
  | cons c s =>
    obtain ⟨tail, ht⟩ := h
    have hne : t.dropWhile isWhitespace ≠ [] := by
      show trimStart t ≠ []
      rw [← ht]
      exact cons_ne_nil _ _
    have hh := head_dropWhile_not isWhitespace hne
    have hc : (t.dropWhile isWhitespace).head hne = c := by
      have heq : t.dropWhile isWhitespace = c :: (s ++ tail) := ht.symm
      simp only [heq, head_cons]
    rw [hc] at hh
    rw [trimStart, dropWhile_cons_of_neg (by rw [hh]; exact Bool.false_ne_true)]

theorem trimStart_append (h : trim s ≠ []) (tail) : trimStart (s ++ tail) = trimStart s ++ tail := by
  have hne : s.dropWhile isWhitespace ≠ [] := by
    intro hn
    apply h
    rw [trim, trimStart, hn]
    rfl
  unfold trimStart
  rw [dropWhile_append, isEmpty_eq_false_iff.mpr hne]
  rfl

theorem trimStart_append_of_blank (h : trim s = []) (tail) : trimStart (s ++ tail) = trimStart tail := by
  have hn : s.dropWhile isWhitespace = [] := by
    rw [trim, trimEnd, rdropWhile_eq_nil_iff] at h
    by_contra hne
    have hh := head_dropWhile_not isWhitespace hne
    rw [h _ (head_mem hne)] at hh
    cases hh
  unfold trimStart
  rw [dropWhile_append, hn]
  rfl

theorem isPrefix_of_stripKeywordCi {kw} (h : stripKeywordCi s kw = some rest) :
    kw.toList.map Char.toLower <+: s.map Char.toLower := by
  unfold stripKeywordCi eqIgnoreAsciiCase at h
  dsimp only at h
  split_ifs at h with hc
  rw [Bool.and_eq_true, beq_iff_eq] at hc
  rw [← hc.2]
  exact (List.take_prefix _ s).map _

theorem isPrefix_of_keyword {kw} (h : keyword s kw = some rest) :
    kw.toList.map Char.toLower <+: s.map Char.toLower := by
  simp only [keyword, bind_eq_bind, bind_eq_some_iff] at h
  obtain ⟨after, hs, -⟩ := h
  exact isPrefix_of_stripKeywordCi hs

/-- One of some words leads the text. -/
def LedBy (words : List String) (s : Text) : Prop := ∃ kw ∈ words, kw.toList.map Char.toLower <+: s.map Char.toLower

theorem LedBy.of_isPrefix {t : Text} (h : LedBy words s) (hl : s <+: t) : LedBy words t := by
  obtain ⟨kw, hm, hkw⟩ := h
  exact ⟨kw, hm, hkw.trans (hl.map _)⟩

theorem LedBy.mono {words'} (h : LedBy words s) (hs : words ⊆ words') : LedBy words' s := by
  obtain ⟨kw, hm, hkw⟩ := h
  exact ⟨kw, hs hm, hkw⟩

/-- Words of which none begins another lead different texts. -/
theorem LedBy.elim {words'} (h : LedBy words s) (h' : LedBy words' s)
    (hd : ∀ a ∈ words, ∀ b ∈ words', ¬ a.toList.map Char.toLower <+: b.toList.map Char.toLower ∧
      ¬ b.toList.map Char.toLower <+: a.toList.map Char.toLower) : False := by
  obtain ⟨a, ha, hsa⟩ := h
  obtain ⟨b, hb, hsb⟩ := h'
  rcases prefix_or_prefix_of_prefix hsa hsb with hab | hba
  · exact (hd a ha b hb).1 hab
  · exact (hd a ha b hb).2 hba

theorem ledBy_of_onKeyword {α : Type} {d} : ∀ {table : List (String × (Text → Option α))},
    onKeyword s table = some d → LedBy (table.map (·.1)) s
  | [], h => by cases h
  | (kw, parse) :: others, h => by
    rw [onKeyword] at h
    split at h
    next hkw => exact ⟨kw, mem_cons_self, isPrefix_of_keyword hkw⟩
    next => exact (ledBy_of_onKeyword h).mono (subset_cons_self _ _)

theorem length_trimStart_le (s) : (trimStart s).length ≤ s.length := (dropWhile_sublist _).length_le

theorem eq_cons_of_stripChar (h : stripChar c s = some rest) : s = c :: rest := by
  cases s with
  | nil => cases h
  | cons d s =>
    rw [stripChar] at h
    split_ifs at h with hd
    cases h
    rw [hd]

theorem length_stripChar (h : stripChar c s = some rest) : rest.length < s.length := by
  rw [eq_cons_of_stripChar h]
  exact Nat.lt_succ_self _

theorem length_parseQuoted {quote} : ∀ {s out r}, parseQuoted quote s = some (out, r) → r.length < s.length
  | [], out, r, h => by cases h
  | [c], out, r, h => by
    rw [parseQuoted] at h
    split_ifs at h
    cases h
    exact Nat.zero_lt_one
  | c :: d :: rest, out, r, h => by
    rw [parseQuoted] at h
    simp only [length_cons]
    split_ifs at h
    · obtain ⟨⟨out', r'⟩, hr, he⟩ := map_eq_some_iff.mp h
      cases he
      have hlt : r.length < rest.length := length_parseQuoted hr
      omega
    · cases h
      exact Nat.lt_succ_self _
    · obtain ⟨⟨out', r'⟩, hr, he⟩ := map_eq_some_iff.mp h
      cases he
      have hlt : r.length < (d :: rest).length := length_parseQuoted hr
      rw [length_cons] at hlt
      omega

theorem length_dropWhile_lt {α : Type} {p} {s : List α} (h : s.takeWhile p ≠ []) :
    (s.dropWhile p).length < s.length := by
  have hsum : (s.takeWhile p).length + (s.dropWhile p).length = s.length := by
    rw [← length_append, takeWhile_append_dropWhile]
  have hpos : 0 < (s.takeWhile p).length := length_pos_iff.mpr h
  omega

theorem isIdentPart_of_isIdentStart (h : isIdentStart U c = true) : isIdentPart U c = true := by
  unfold isIdentStart at h
  unfold isIdentPart
  revert h
  cases U.isAlphabetic c <;> cases c == '_' <;> simp

theorem length_parseBareIdent {id : Text} (h : parseBareIdent U s = some (id, r)) : r.length < s.length := by
  cases s with
  | nil => cases h
  | cons first rest =>
    rw [parseBareIdent] at h
    split_ifs at h with hf
    cases h
    refine length_dropWhile_lt ?_
    rw [takeWhile_cons, if_pos (isIdentPart_of_isIdentStart U hf)]
    exact cons_ne_nil _ _

theorem length_parseIdentifier {id} (h : parseIdentifier U s = some (id, r)) : r.length < s.length := by
  have hle := length_trimStart_le s
  unfold parseIdentifier at h
  dsimp only at h
  split at h
  next rest hs =>
    obtain ⟨⟨out, r'⟩, hq, he⟩ := map_eq_some_iff.mp h
    cases he
    have hr : r'.length < rest.length := length_parseQuoted hq
    have hrest := length_stripChar hs
    show r'.length < s.length
    omega
  next =>
    obtain ⟨⟨id', r'⟩, hb, he⟩ := map_eq_some_iff.mp h
    cases he
    have hr : r'.length < (trimStart s).length := length_parseBareIdent U hb
    show r'.length < s.length
    omega

theorem length_parseValue {value : String} (h : parseValue s = some (value, r)) : r.length < s.length := by
  unfold parseValue at h
  split at h
  next rest =>
    obtain ⟨⟨out, r'⟩, hq, he⟩ := map_eq_some_iff.mp h
    cases he
    exact (length_parseQuoted hq).trans (Nat.lt_succ_self _)
  next rest =>
    obtain ⟨⟨out, r'⟩, hq, he⟩ := map_eq_some_iff.mp h
    cases he
    exact (length_parseQuoted hq).trans (Nat.lt_succ_self _)
  next =>
    dsimp only at h
    split_ifs at h with hem
    cases h
    refine length_dropWhile_lt fun hn => hem ?_
    rw [hn]
    rfl

theorem length_parseOption {first key value}
    (h : parseOption U first rest = some (key, value, r)) : r.length < rest.length := by
  simp only [parseOption, bind_eq_bind, bind_eq_some_iff] at h
  obtain ⟨rest₁, hc, ⟨id, r₁⟩, hk, rest₂, heq, ⟨v, r₂⟩, hv, he⟩ := h
  cases he
  have h₁ : rest₁.length ≤ rest.length := by
    unfold afterComma at hc
    split_ifs at hc
    · cases hc
      exact le_rfl
    · obtain ⟨t, ht, rfl⟩ := map_eq_some_iff.mp hc
      exact (length_trimStart_le t).trans (length_stripChar ht).le
  have h₂ : r₁.length < rest₁.length := length_parseBareIdent U hk
  have h₃ : rest₂.length < r₁.length := by
    obtain ⟨t, ht, rfl⟩ := map_eq_some_iff.mp heq
    have hlt : t.length < (trimStart r₁).length := length_stripChar ht
    have hle := length_trimStart_le r₁
    have hle' := length_trimStart_le t
    omega
  have h₄ : r₂.length < rest₂.length := length_parseValue hv
  show r₂.length < rest.length
  omega

theorem parseOptions_fuel {n m opts} (hn : rest.length < n) (hm : rest.length < m) :
    parseOptions U n opts rest = parseOptions U m opts rest := by
  induction n generalizing m opts rest with
  | zero => omega
  | succ n ih =>
    obtain ⟨m, rfl⟩ : ∃ k, m = k + 1 := ⟨m - 1, by omega⟩
    unfold parseOptions
    dsimp only
    cases stripChar ')' (trimStart rest) with
    | some after => rfl
    | none =>
      simp only [bind_eq_bind]
      refine bind_congr fun read hr => ?_
      have hlt : read.2.2.length < rest.length :=
        (length_parseOption U hr).trans_le (length_trimStart_le rest)
      exact ih (hlt.trans_le (Nat.le_of_lt_succ hn)) (hlt.trans_le (Nat.le_of_lt_succ hm))

end Text

end Dataglot
