/-
`TableReference::parse_str`: a text is read as a dotted name when the SQL parser reads it
as one, its unquoted parts folded to lower case, and is one bare name otherwise.

What the SQL parser reads is taken from it (`IdentifierParser`), with what is known of
every reading: dotted words are read as they stand, and whatever is read stands in the
text, between its dots.
-/
import Dataglot.DataFusion.Plan

namespace DataFusion
open List

def dotted : List (List Char) → List Char
  | [] => []
  | [part] => part
  | part :: next :: parts => part ++ '.' :: dotted (next :: parts)

/-- `Ident`: an identifier as it is read, without its quotes. -/
structure Ident where
  value : List Char
  quoted : Bool
  deriving DecidableEq, Repr

/-- What an identifier stands for: unquoted ones are folded. -/
def Ident.normalize (id : Ident) : List Char := if id.quoted then id.value else id.value.map Char.toLower

/-- `[A-Za-z_][A-Za-z0-9_]*`. -/
def isAsciiWord : List Char → Bool
  | [] => false
  | c :: rest => (c.isAlpha || c == '_') && rest.all fun d => d.isAlphanum || d == '_'

/-- The identifier stands in the text: as it is, or longer by its quotes. -/
def Ident.StandsIn (word : List Char → Prop) (id : Ident) (text : List Char) : Prop :=
  ∃ before token after, text = before ++ token ++ after ∧
    if id.quoted then id.value.length < token.length else token = id.value ∧ word token

/-- `parse_identifiers`, which fails on a text that is not a dotted name. -/
structure IdentifierParser where
  parseIdentifiers : List Char → Option (List Ident)
  /-- An identifier that needs no quotes. -/
  word : List Char → Prop
  word_of_ascii : ∀ {w}, isAsciiWord w = true → word w
  reads_words : ∀ {words : List (List Char)}, words ≠ [] → (∀ w ∈ words, word w) →
    parseIdentifiers (dotted words) = some (words.map (⟨·, false⟩))
  reads_only : ∀ {text ids}, parseIdentifiers text = some ids →
    ∃ pieces, text = dotted pieces ∧ List.Forall₂ (Ident.StandsIn word) ids pieces

namespace TableReference

def fromVec : List (List Char) → Option TableReference
  | [table] => some (.bare (String.ofList table))
  | [schema, table] => some (.partialRef (String.ofList schema) (String.ofList table))
  | [catalog, schema, table] => some (.full (String.ofList catalog) (String.ofList schema) (String.ofList table))
  | _ => none

def parseStr (P : IdentifierParser) (s : String) : TableReference :=
  (fromVec (((P.parseIdentifiers s.toList).getD []).map Ident.normalize)).getD (.bare s)

def parts : TableReference → List (List Char)
  | .bare table => [table.toList]
  | .partialRef schema table => [schema.toList, table.toList]
  | .full catalog schema table => [catalog.toList, schema.toList, table.toList]

theorem fromVec_eq_some_iff {names r} : fromVec names = some r ↔ r.parts = names := by
  constructor
  · intro h
    unfold fromVec at h
    split at h <;> cases h <;> simp [parts]
  · rintro rfl
    cases r <;> simp [parts, fromVec]

theorem exists_fromVec {parts} (hne : parts ≠ []) (hl : parts.length ≤ 3) : ∃ r, fromVec parts = some r := by
  match parts, hne, hl with
  | [table], _, _ => exact ⟨_, rfl⟩
  | [schema, table], _, _ => exact ⟨_, rfl⟩
  | [catalog, schema, table], _, _ => exact ⟨_, rfl⟩

end TableReference

/-! ## Dotted names -/

theorem length_le_count_dotted : ∀ parts, parts.length ≤ (dotted parts).count '.' + 1
  | [] => Nat.zero_le _
  | [part] => Nat.le_add_left ..
  | part :: next :: parts => by
    have ih := length_le_count_dotted (next :: parts)
    rw [dotted, count_append, count_cons_self]
    rw [length_cons]
    omega

theorem dotted_inj : ∀ {parts parts'}, parts.map length = parts'.map length →
    dotted parts = dotted parts' → parts = parts'
  | [], parts', hl, _ => (map_eq_nil_iff.mp hl.symm).symm
  | [part], parts', hl, h => by
    obtain ⟨part', rfl, -⟩ := map_eq_singleton_iff.mp hl.symm
    exact congrArg (· :: []) h
  | part :: next :: parts, parts', hl, h => by
    obtain ⟨part', _, rfl, hp, ht⟩ := map_eq_cons_iff.mp hl.symm
    obtain ⟨next', parts', rfl, -, -⟩ := map_eq_cons_iff.mp ht
    obtain ⟨hh, hr⟩ := append_inj h hp.symm
    rw [hh, dotted_inj ht.symm (cons.inj hr).2]

theorem Ident.length_normalize (id : Ident) : id.normalize.length = id.value.length := by
  unfold normalize
  split_ifs
  · rfl
  · exact length_map _

variable {word : List Char → Prop}

theorem Ident.StandsIn.length_le {id : Ident} {text} (h : id.StandsIn word text) : id.value.length ≤ text.length := by
  obtain ⟨before, token, after, rfl, ht⟩ := h
  rw [length_append, length_append]
  split_ifs at ht
  · omega
  · rw [ht.1]
    omega

theorem Ident.StandsIn.eq_of_length {id : Ident} {text} (h : id.StandsIn word text)
    (hl : text.length = id.value.length) : id.quoted = false ∧ text = id.value ∧ word text := by
  obtain ⟨before, token, after, rfl, ht⟩ := h
  rw [length_append, length_append] at hl
  split_ifs at ht with hq
  · omega
  · obtain ⟨rfl, hw⟩ := ht
    have hb : before = [] := length_eq_zero_iff.mp (by omega)
    have ha : after = [] := length_eq_zero_iff.mp (by omega)
    subst hb
    subst ha
    rw [nil_append, append_nil]
    exact ⟨Bool.eq_false_iff.mpr hq, rfl, hw⟩

theorem length_dotted_le {ids : List Ident} {pieces parts} (hp : Forall₂ (Ident.StandsIn word) ids pieces)
    (hl : ids.map (·.value.length) = parts.map length) : (dotted parts).length ≤ (dotted pieces).length := by
  induction hp generalizing parts with
  | nil =>
    rw [map_eq_nil_iff.mp hl.symm]
  | @cons id piece ids pieces hpi hr ih =>
    match parts with
    | part :: parts =>
      rw [map_cons, map_cons, cons.injEq] at hl
      have hle := hpi.length_le
      have hdotted := ih hl.2
      match parts, hr with
      | [], .nil => exact hl.1 ▸ hle
      | next :: parts, .cons hnext hr =>
        rw [dotted, dotted, length_append, length_append, length_cons, length_cons]
        omega

/-- A text that is no longer than the parts it is read as is made of them, unquoted. -/
theorem unquoted_of_length_le {ids : List Ident} {pieces parts} (hpi : Forall₂ (Ident.StandsIn word) ids pieces)
    (hln : ids.map (·.value.length) = parts.map length) (hle : (dotted pieces).length ≤ (dotted parts).length) :
    ids = pieces.map (⟨·, false⟩) ∧ ∀ piece ∈ pieces, word piece := by
  induction hpi generalizing parts with
  | nil => exact ⟨rfl, by simp⟩
  | @cons id piece ids pieces hp hr ih =>
    match parts with
    | part :: parts =>
      rw [map_cons, map_cons, cons.injEq] at hln
      have hh := hp.length_le
      have hdotted := length_dotted_le hr hln.2
      have hl : piece.length = id.value.length ∧ (dotted pieces).length ≤ (dotted parts).length := by
        match parts, hr with
        | [], .nil => exact ⟨le_antisymm (hln.1 ▸ hle) hh, le_rfl⟩
        | next :: parts, .cons hnext hr =>
          rw [dotted, dotted, length_append, length_append, length_cons, length_cons] at hle
          omega
      obtain ⟨hq, hv, hwo⟩ := hp.eq_of_length hl.1
      obtain ⟨hi, hw⟩ := ih hln.2 hl.2
      refine ⟨?_, forall_mem_cons.mpr ⟨hwo, hw⟩⟩
      rw [map_cons, ← hi, hv, ← hq]

/-! ## A parser -/

theorem dotted_eq_intercalate : ∀ parts, dotted parts = ['.'].intercalate parts
  | [] => by simp [dotted]
  | [part] => by simp [dotted]
  | part :: next :: parts => by
    rw [dotted, dotted_eq_intercalate (next :: parts), intercalate_cons_cons]
    simp

theorem dot_notMem_of_isAsciiWord {w} (h : isAsciiWord w = true) : '.' ∉ w := by
  cases w with
  | nil => exact not_mem_nil
  | cons c rest =>
    simp only [isAsciiWord, Bool.and_eq_true, all_eq_true] at h
    intro hm
    rcases mem_cons.mp hm with rfl | hr
    · exact absurd h.1 (by decide)
    · exact absurd (h.2 '.' hr) (by decide)

/-- The parser that knows words of ASCII and no quotes. -/
def IdentifierParser.ascii : IdentifierParser where
  parseIdentifiers text :=
    let parts := text.splitOn '.'
    if parts.all isAsciiWord then some (parts.map (⟨·, false⟩)) else none
  word w := isAsciiWord w = true
  word_of_ascii h := h
  reads_words {words} hne hwords := by
    have hsplit : (dotted words).splitOn '.' = words := by
      rw [dotted_eq_intercalate]
      exact List.splitOn_intercalate '.' (fun w hw => dot_notMem_of_isAsciiWord (hwords w hw)) hne
    simp only [hsplit]
    rw [if_pos (List.all_eq_true.mpr hwords)]
  reads_only {text ids} h := by
    dsimp only at h
    split_ifs at h with hall
    cases h
    refine ⟨text.splitOn '.', ?_, ?_⟩
    · rw [dotted_eq_intercalate, List.intercalate_splitOn]
    · refine List.forall₂_map_left_iff.mpr (List.forall₂_same.mpr fun part hpart => ?_)
      exact ⟨[], part, [], by simp, rfl, List.all_eq_true.mp hall part hpart⟩

end DataFusion
