/-
Names as a statement writes them: a bare word, or any text in double quotes. The parsers
of the control plane take the quotes off and forget that they were there
(`parse_identifier`); `parse_table_ref` of the policy statements joins the parts of a
table's name into one text.
-/
import Dataglot.DataFusion.TableName
import Dataglot.Pgwire.ControlPlaneDdl

namespace Dataglot
open PolicyDdl
open DataFusion (dotted)
open Text

/-- An identifier as it is written. -/
inductive Written
  | bare (word : Text)
  | quoted (content : Text)
  deriving DecidableEq, Repr

namespace Written

/-- A quote inside quotes is written twice. -/
def doubled (content : Text) : Text := content.flatMap fun c => if c = '"' then ['"', '"'] else [c]

def spelling : Written → Text
  | bare word => word
  | quoted content => '"' :: doubled content ++ ['"']

/-- What is between the quotes, or the word. -/
def content : Written → Text
  | bare word => word
  | quoted content => content

/-- What the identifier means in a query: a word is folded to lower case, a quoted text is itself. -/
def meaning : Written → Text
  | bare word => word.map Char.toLower
  | quoted content => content

theorem length_meaning (w : Written) : w.meaning.length = w.content.length := by
  cases w with
  | bare word => exact List.length_map _
  | quoted content => rfl

/-- Nothing is lost with the quotes: there were some, or the word is in lower case. -/
def KeepsCase (w : Written) : Prop := w.content = w.meaning

variable (U : UnicodeTables)

/-- What may stand without quotes. -/
def Valid : Written → Prop
  | bare word => (∃ c ∈ word.head?, c ≠ '"' ∧ isIdentStart U c = true) ∧ ∀ c ∈ word, isIdentPart U c = true
  | quoted _ => True

/-- The identifier is not written further in what follows it. -/
def EndsBefore (rest : Text) : Written → Prop
  | bare _ => ∀ c ∈ rest.head?, isIdentPart U c = false
  | quoted _ => rest.head? ≠ some '"'

/-- The identifier stands at the beginning of a text, behind blanks. -/
structure At (w : Written) (s rest : Text) : Prop where
  valid : w.Valid U
  ends : w.EndsBefore U rest
  eq : trimStart s = w.spelling ++ rest

/-- The identifiers stand at the beginning of a text with dots between them. -/
def TableAt : List Written → Text → Text → Prop
  | [], _, _ => False
  | [w], s, rest => w.At U s rest ∧ rest.head? ≠ some '.'
  | w :: next :: parts, s, rest => ∃ s', w.At U s ('.' :: s') ∧ TableAt (next :: parts) s' rest

end Written

/-! ## Quotes -/

variable {quote : Char}

theorem Text.parseQuoted_close {s : Text} (h : s.head? ≠ some quote) :
    parseQuoted quote (quote :: s) = some ([], s) := by
  cases s with
  | nil => simp [parseQuoted]
  | cons d s =>
    have hd : d ≠ quote := fun he => h (by rw [he]; rfl)
    simp [parseQuoted, hd]

theorem Text.parseQuoted_double (s : Text) :
    parseQuoted quote (quote :: quote :: s) = (parseQuoted quote s).map fun (out, r) => (quote :: out, r) := by
  simp [parseQuoted]

theorem Text.parseQuoted_other {c} (h : c ≠ quote) (s : Text) :
    parseQuoted quote (c :: s) = (parseQuoted quote s).map fun (out, r) => (c :: out, r) := by
  cases s with
  | nil => simp [parseQuoted, h]
  | cons d s => simp [parseQuoted, h]

namespace Written

theorem doubled_quote (content : Text) : doubled ('"' :: content) = '"' :: '"' :: doubled content := by simp [doubled]

theorem doubled_other {c} (h : c ≠ '"') (content : Text) : doubled (c :: content) = c :: doubled content := by
  simp [doubled, h]

variable {rest s : Text}

theorem parseQuoted_doubled {content} (h : rest.head? ≠ some '"') :
    parseQuoted '"' (doubled content ++ '"' :: rest) = some (content, rest) := by
  induction content with
  | nil => exact parseQuoted_close h
  | cons c content ih =>
    by_cases hc : c = '"'
    · subst hc
      rw [doubled_quote, List.cons_append, List.cons_append, parseQuoted_double, ih]
      rfl
    · rw [doubled_other hc, List.cons_append, parseQuoted_other hc, ih]
      rfl

/-! ## Identifiers -/

variable {U : UnicodeTables}

theorem parseIdentifier_at {w : Written} (h : w.At U s rest) :
    parseIdentifier U s = some (String.ofList w.content, rest) := by
  obtain ⟨hv, he, heq⟩ := h
  unfold parseIdentifier
  dsimp only
  rw [heq]
  cases w with
  | quoted content =>
    have hs : (quoted content).spelling ++ rest = '"' :: (doubled content ++ '"' :: rest) := by simp [spelling]
    rw [hs]
    simp only [stripChar, if_true, parseQuoted_doubled he]
    rfl
  | bare word =>
    obtain ⟨⟨first, hf, hq, hst⟩, hp⟩ := hv
    obtain ⟨tail, rfl⟩ := List.head?_eq_some_iff.mp hf
    have hso : rest.takeWhile (isIdentPart U) = [] := by
      cases rest with
      | nil => rfl
      | cons c rest => rw [List.takeWhile_cons, he c rfl]; rfl
    have hsk : rest.dropWhile (isIdentPart U) = rest := by
      have hsp := List.takeWhile_append_dropWhile (p := isIdentPart U) (l := rest)
      rwa [hso, List.nil_append] at hsp
    have hb : parseBareIdent U (first :: tail ++ rest) = some (first :: tail, rest) := by
      rw [List.cons_append, parseBareIdent, if_pos hst, ← List.cons_append]
      rw [List.takeWhile_append_of_pos hp, List.dropWhile_append_of_pos hp, hso, hsk, List.append_nil]
    have hsr : stripChar '"' (first :: tail ++ rest) = none := by
      rw [List.cons_append, stripChar, if_neg hq]
    rw [spelling, hsr, hb]
    rfl

/-! ## Tables -/

theorem parseTableParts_end (h : rest.head? ≠ some '.') (fuel acc) :
    parseTableParts U (fuel + 1) acc rest = some (acc, rest) := by
  have hs : stripChar '.' rest = none := by
    cases rest with
    | nil => rfl
    | cons c rest => rw [stripChar, if_neg fun hc => h (by rw [hc]; rfl)]
  rw [parseTableParts, hs]

theorem parseTableParts_dot {r part} (h : parseIdentifier U s = some (part, r)) (fuel acc) : parseTableParts U (fuel + 1) acc ('.' :: s) = parseTableParts U fuel (acc ++ "." ++ part) r := by
  rw [parseTableParts, stripChar, if_pos rfl]
  simp only [h, Option.bind_eq_bind, Option.bind_some]

theorem parseTableParts_tableAt {w parts} (h : TableAt U (w :: parts) s rest) :
    ∃ r, w.At U s r ∧ ∀ acc fuel, r.length < fuel →
      parseTableParts U fuel (acc ++ String.ofList w.content) r =
        some (acc ++ String.ofList (dotted ((w :: parts).map content)), rest) := by
  induction parts generalizing w s with
  | nil =>
    obtain ⟨hw, hd⟩ := h
    refine ⟨rest, hw, fun acc fuel hf => ?_⟩
    obtain ⟨fuel, rfl⟩ : ∃ k, fuel = k + 1 := ⟨fuel - 1, by omega⟩
    exact parseTableParts_end hd fuel _
  | cons next parts ih =>
    obtain ⟨s', hw, hn⟩ := h
    obtain ⟨r, hr, hp⟩ := ih hn
    refine ⟨'.' :: s', hw, fun acc fuel hf => ?_⟩
    obtain ⟨fuel, rfl⟩ : ∃ k, fuel = k + 1 := ⟨fuel - 1, by omega⟩
    have hre := parseIdentifier_at hr
    have hlen : r.length < s'.length := length_parseIdentifier U hre
    rw [List.length_cons] at hf
    rw [parseTableParts_dot hre, hp _ fuel (by omega)]
    have hjoin : acc ++ String.ofList w.content ++ "." ++ String.ofList (dotted ((next :: parts).map content)) =
        acc ++ String.ofList (w.content ++ '.' :: dotted ((next :: parts).map content)) := by
      refine String.toList_inj.mp ?_
      simp
    rw [hjoin]
    rfl

theorem parseTableRef_tableAt {parts : List Written} (h : TableAt U parts s rest) :
    parseTableRef U s = some (String.ofList (dotted (parts.map content)), rest) := by
  cases parts with
  | nil => exact h.elim
  | cons w parts =>
    obtain ⟨r, hw, hp⟩ := parseTableParts_tableAt h
    have hr := hp "" (r.length + 1) (Nat.lt_succ_self _)
    rw [String.empty_append, String.empty_append] at hr
    simp only [parseTableRef, parseIdentifier_at hw, Option.bind_eq_bind, Option.bind_some, hr]

end Written

end Dataglot
