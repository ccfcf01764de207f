/-
What the templates of an LDAP login come to (`ldap.rs`). The bind DN is read as the
template's name with the username for its value, whatever the username is. The group
filter is read as the template's filter too, but a value put in is read as the one meant
only if it is ASCII, since a byte above 127 is pushed as a character of its own; and a
username that holds the `user` placeholder is put in once more where the DN was put in.
-/
import Mathlib
import Dataglot.Pgwire.Ldap

namespace Dataglot
open LdapSyntax Dn SearchFilter
open Replace

namespace Ldap

/-! ## Putting in -/

/-- What keeps a placeholder apart from the text around it. -/
structure Token (pat : Text) : Prop where
  begins : pat.head? = some '{'
  plain : ∀ c ∈ pat, c ∉ ['=', ',', '+', '(', ')', '*', '&', '|', '!']

theorem token_user : Token userToken := ⟨rfl, by simp [userToken]⟩

theorem token_userDn : Token userDnToken := ⟨rfl, by simp [userDnToken]⟩

section Token

variable {pat sub : Text} {V : Type} {w : V → Text}

theorem Token.ne_nil (h : Token pat) : pat ≠ [] := by
  rintro rfl
  cases h.begins

theorem Token.notMem (h : Token pat) {c} (hc : c ∈ ['=', ',', '+', '(', ')', '*', '&', '|', '!']) : c ∉ pat :=
  fun hm => h.plain c hm hc

theorem Token.replace_word (h : Token pat) {s : Text} (hs : '{' ∉ s) (t : Text) :
    replace pat sub (s ++ t) = s ++ replace pat sub t := by
  refine replace_append_of_head h.ne_nil fun p hp => ?_
  rw [h.begins, Option.mem_some_iff] at hp
  rwa [← hp]

theorem Token.replace_dnText (h : Token pat) {good} {dn : Dn V} (hdn : dn.Forall good) :
    replace pat sub (dn.text w) = dn.text fun v => replace pat sub (w v) := by
  have hw : ∀ {type : Text}, (∀ c ∈ type, Dn.isTypeChar c = true) → '{' ∉ type :=
    fun ht hm => absurd (ht _ hm) (by decide)
  induction dn with
  | last type value =>
    rw [Dn.text, Dn.text, h.replace_word (hw hdn.1.2), replace_sep h.ne_nil (h.notMem (by decide))]
  | more type value sep rest ih =>
    obtain ⟨ht, -, hs, hr⟩ := hdn
    have hs : sep ∈ ['=', ',', '+', '(', ')', '*', '&', '|', '!'] := by
      rw [Dn.isSep, Bool.or_eq_true, beq_iff_eq, beq_iff_eq] at hs
      rcases hs with rfl | rfl <;> decide
    rw [Dn.text, Dn.text, h.replace_word (hw ht.2), replace_sep h.ne_nil (h.notMem (by decide)),
      replace_append_sep h.ne_nil (h.notMem hs), ih hr]

theorem Token.replace_starred (h : Token pat) (vs : List V) (rest : Text) :
    replace pat sub (starred (vs.map w) ++ ')' :: rest) =
      starred (vs.map fun v => replace pat sub (w v)) ++ ')' :: replace pat sub rest := by
  induction vs with
  | nil => exact replace_sep h.ne_nil (h.notMem (by decide)) rest
  | cons v vs ih =>
    cases vs with
    | nil => exact replace_append_sep h.ne_nil (h.notMem (by decide)) (w v) rest
    | cons next vs =>
      rw [List.map_cons, List.map_cons, starred, ← List.map_cons, List.append_assoc, List.cons_append]
      rw [replace_append_sep h.ne_nil (h.notMem (by decide)), ih]
      simp [starred]

mutual

theorem Token.replace_filterText (h : Token pat) {good} : ∀ (f : SearchFilter V), f.Forall good → ∀ rest,
    replace pat sub (f.text w ++ rest) = f.text (fun v => replace pat sub (w v)) ++ replace pat sub rest
  | .item attr values, hf, rest => by
    have hw : '{' ∉ attr := fun hm => absurd (hf.1.2 _ hm) (by decide)
    have hte : ∀ w rest, (SearchFilter.item attr values).text w ++ rest =
        '(' :: (attr ++ '=' :: (SearchFilter.starred (values.map w) ++ ')' :: rest)) := fun w rest => by simp [SearchFilter.text]
    rw [hte, hte, replace_sep h.ne_nil (h.notMem (by decide)), h.replace_word hw,
      replace_sep h.ne_nil (h.notMem (by decide)), h.replace_starred]
  | .compound op filters, hf, rest => by
    have hop : op ∈ ['=', ',', '+', '(', ')', '*', '&', '|', '!'] := by
      have ht := hf.1
      simp only [SearchFilter.takes, Bool.or_eq_true, Bool.and_eq_true, beq_iff_eq] at ht
      rcases ht with ⟨rfl | rfl, -⟩ | ⟨rfl, -⟩ <;> decide
    have hte : ∀ w rest, (SearchFilter.compound op filters).text w ++ rest =
        '(' :: op :: (SearchFilter.textList w filters ++ ')' :: rest) := fun w rest => by simp [SearchFilter.text]
    rw [hte, hte, replace_sep h.ne_nil (h.notMem (by decide)), replace_sep h.ne_nil (h.notMem hop),
      Token.replace_filterTexts h filters hf.2, replace_sep h.ne_nil (h.notMem (by decide))]

theorem Token.replace_filterTexts (h : Token pat) {good} : ∀ fs,
    ForallList good fs → ∀ rest, replace pat sub (textList w fs ++ rest) =
      textList (fun v => replace pat sub (w v)) fs ++ replace pat sub rest
  | [], _, rest => rfl
  | f :: fs, hfs, rest => by
    rw [textList, textList, List.append_assoc, List.append_assoc,
      Token.replace_filterText h f hfs.1, Token.replace_filterTexts h fs hfs.2]

end

end Token

/-! ## The bind DN -/

variable {first : Bool} {s : Text}

theorem isSpecial_of_isEscaped {last c} (h : isEscaped first last c = true) : isSpecial c = true := by
  simp only [isEscaped, Bool.or_eq_true, Bool.and_eq_true, decide_eq_true_eq, List.mem_cons, List.not_mem_nil, or_false,
    beq_iff_eq] at h
  rcases h with ((rfl | rfl | rfl | rfl | rfl | rfl | rfl | rfl) | ⟨rfl, -⟩) | ⟨rfl, -⟩ <;> decide

theorem endsHere_escapeDnChars {c} {rest : Text} : endsHere (escapeDnChars false (c :: rest)) = false := by
  rw [escapeDnChars]
  split_ifs with he
  · rfl
  · have hs : isSep c = false := by
      rw [isSep, Bool.or_eq_false_iff, beq_eq_false_iff_ne, beq_eq_false_iff_ne]
      constructor
      · rintro rfl
        exact he rfl
      · rintro rfl
        exact he rfl
    simp [endsHere, hs]

/-- **An escaped username is read as the username.** -/
theorem readString_escapeDnChars {name} (hn : '\x00' ∉ name) :
    readString first (escapeDnChars first name) = some (utf8 name, []) := by
  induction name generalizing first with
  | nil => rfl
  | cons c rest ih =>
    rw [List.mem_cons, not_or] at hn
    have hr : readString false (escapeDnChars false rest) = some (utf8 rest, []) := ih hn.2
    rw [escapeDnChars]
    split_ifs with he
    · rw [readString_special (isSpecial_of_isEscaped he), hr]
      rfl
    · simp only [isEscaped, Bool.or_eq_true, Bool.and_eq_true, decide_eq_true_eq, List.mem_cons, List.not_mem_nil, or_false,
        beq_iff_eq, not_or, not_and] at he
      obtain ⟨⟨⟨hc, hp, hq, hes, hl, hg, hs, -⟩, hb⟩, hh⟩ := he
      have hse : ¬ isSep c = true := by simp [isSep, hc, hp]
      have hfr : ¬ isBlocked first c (escapeDnChars false rest) = true := by
        simp only [isBlocked, isForbidden, Bool.or_eq_true, Bool.and_eq_true, decide_eq_true_eq, List.mem_cons,
          List.not_mem_nil, or_false, beq_iff_eq]
        rintro ((hf | ⟨hfi, rfl | rfl⟩) | ⟨rfl, hen⟩)
        · rcases hf with rfl | rfl | rfl | rfl | rfl
          · exact hq rfl
          · exact hs rfl
          · exact hl rfl
          · exact hg rfl
          · exact hn.1 rfl
        · exact (hb rfl).1 hfi
        · exact hh rfl hfi
        · cases rest with
          | nil => exact (hb rfl).2 rfl
          | cons d rest =>
            rw [endsHere_escapeDnChars] at hen
            cases hen
      rw [readString_plain hes hse hfr, hr]
      rfl

theorem readValue_escapeDnValue {name} (hn : '\x00' ∉ name) :
    readValue (escapeDnValue name) = some (.string (utf8 name), []) := by
  have hh : (escapeDnValue name).head? ≠ some '#' := by
    cases name with
    | nil => simp [escapeDnValue, escapeDnChars]
    | cons c rest =>
      rw [escapeDnValue, escapeDnChars]
      split_ifs with he
      · simp
      · rintro ⟨⟩
        exact he (by simp [isEscaped])
  rw [readValue_string hh, escapeDnValue, readString_escapeDnChars hn]
  rfl

/-- How a slot is written in the DN of a user. -/
def DnSlot.written (name : Text) : DnSlot → Text
  | literal raw => raw
  | user => escapeDnValue name

variable {config : LdapConfig} {bind : Dn DnSlot} {name : Text}

theorem userDn_eq (hb : bind.Forall DnSlot.Valid) (hc : config.bindDnTemplate = bind.text DnSlot.spelling)
    (name) : userDn config name = bind.text (DnSlot.written name) := by
  rw [userDn, hc, token_user.replace_dnText hb]
  refine text_congr (hb.imp fun slot hs => ?_)
  cases slot with
  | literal raw => exact replace_of_absent hs.2
  | user => exact replace_pattern token_user.ne_nil

theorem read_userDn (hb : bind.Forall DnSlot.Valid) (hc : config.bindDnTemplate = bind.text DnSlot.spelling)
    (hn : '\x00' ∉ name) : Dn.read (userDn config name) = some (bind.map (DnSlot.value name)) := by
  rw [userDn_eq hb hc]
  refine read_text (hb.imp fun slot hs => ?_)
  cases slot with
  | literal raw =>
    obtain ⟨⟨v, hv⟩, -⟩ := hs
    simp [DnSlot.written, DnSlot.value, hv]
  | user => exact readValue_escapeDnValue hn

/-! ## The group filter -/

/-- The octets that a byte is read as when it has been put in. -/
def readByte (b : UInt8) : Octets := if b.toNat < 128 then [b] else String.utf8EncodeChar (Char.ofNat b.toNat)

/-- The octets that a text is read as when it has been put in. -/
def readInserted (s : Text) : Octets := (utf8 s).flatMap readByte

theorem toNat_ofNat_byte (b : UInt8) : (Char.ofNat b.toNat).toNat = b.toNat := by
  have hv : b.toNat.isValidChar := .inl (b.toNat_lt.trans (by decide))
  simp [Char.ofNat, hv, Char.toNat, Char.ofNatAux]

theorem readAssertion_escapeFilterByte (b : UInt8) : readAssertion (escapeFilterByte b) = some (readByte b, []) := by
  unfold escapeFilterByte
  split_ifs with hs ho hcl he hn
  · subst hs; rfl
  · subst ho; rfl
  · subst hcl; rfl
  · subst he; rfl
  · subst hn; rfl
  · have hne : ∀ c, Char.ofNat b.toNat = c → b = UInt8.ofNat c.toNat := fun c hc => by
      rw [← hc, toNat_ofNat_byte, UInt8.ofNat_toNat]
    have hp : Char.ofNat b.toNat ≠ '\\' := fun hc => he (hne _ hc)
    have hst : ¬ isStop (Char.ofNat b.toNat) = true := by
      rw [isStop, decide_eq_true_eq]
      intro hm
      simp only [List.mem_cons, List.not_mem_nil, or_false] at hm
      rcases hm with hc | hc | hc | hc
      · exact ho (hne _ hc)
      · exact hcl (hne _ hc)
      · exact hs (hne _ hc)
      · exact hn (hne _ hc)
    rw [readAssertion_plain hp hst, readAssertion, readByte]
    split_ifs with ha
    · rw [← toNat_ofNat_byte] at ha
      simp [utf8EncodeChar_of_ascii ha, toNat_ofNat_byte]
    · simp

theorem readAssertion_escapeFilterValue (s) :
    readAssertion (escapeFilterValue s) = some (readInserted s, []) := by
  unfold escapeFilterValue readInserted
  induction utf8 s with
  | nil => rfl
  | cons b bytes ih =>
    rw [List.flatMap_cons, readAssertion_append (readAssertion_escapeFilterByte b), ih]
    rfl

/-! ### ASCII -/

theorem lt_of_mem_utf8 (h : IsAscii s) : ∀ b ∈ utf8 s, b.toNat < 128 := by
  intro b hb
  obtain ⟨c, hc, hbc⟩ := List.mem_flatMap.mp hb
  have hlt := h c hc
  rw [utf8EncodeChar_of_ascii hlt, List.mem_singleton] at hbc
  rw [hbc, UInt8.toNat_ofNat']
  omega

theorem length_readByte_le (b) : 1 ≤ (readByte b).length ∧ (¬ b.toNat < 128 → 1 < (readByte b).length) := by
  unfold readByte
  split_ifs with ha
  · exact ⟨le_rfl, fun h => absurd ha h⟩
  · rw [String.length_utf8EncodeChar]
    have hpos := Char.utf8Size_pos (Char.ofNat b.toNat)
    have hone : (Char.ofNat b.toNat).utf8Size ≠ 1 := by
      rw [Ne, Char.utf8Size_eq_one_iff, UInt32.le_iff_toNat_le]
      intro hle
      exact ha (by rw [← toNat_ofNat_byte]; exact Nat.lt_succ_of_le hle)
    exact ⟨hpos, fun _ => by omega⟩

theorem length_flatMap_readByte (bytes : Octets) : bytes.length ≤ (bytes.flatMap readByte).length ∧
    ((∃ b ∈ bytes, ¬ b.toNat < 128) → bytes.length < (bytes.flatMap readByte).length) := by
  induction bytes with
  | nil => simp
  | cons b bytes ih =>
    have hb := length_readByte_le b
    rw [List.flatMap_cons, List.length_append, List.length_cons]
    refine ⟨by omega, ?_⟩
    rintro ⟨b', hm, hh⟩
    rcases List.mem_cons.mp hm with rfl | hm
    · have hl := hb.2 hh
      omega
    · have hl := ih.2 ⟨b', hm, hh⟩
      omega

theorem length_readInserted_lt (h : ¬ IsAscii s) : (utf8 s).length < (readInserted s).length := by
  refine (length_flatMap_readByte (utf8 s)).2 ?_
  simp only [IsAscii, not_forall, not_lt] at h
  obtain ⟨c, hc, hh⟩ := h
  obtain ⟨b, bytes, hb⟩ := List.exists_cons_of_ne_nil (String.utf8EncodeChar_ne_nil (c := c))
  have hm : b ∈ String.utf8EncodeChar c := by
    rw [hb]
    exact List.mem_cons_self
  exact ⟨b, List.mem_flatMap.mpr ⟨c, hc, hm⟩, Nat.not_lt.mpr (high_of_mem_utf8EncodeChar hh b hm)⟩

theorem readInserted_of_isAscii (h : IsAscii s) : readInserted s = utf8 s := by
  have hl := lt_of_mem_utf8 h
  unfold readInserted
  generalize utf8 s = bytes at hl ⊢
  induction bytes with
  | nil => rfl
  | cons b bytes ih =>
    rw [List.forall_mem_cons] at hl
    rw [List.flatMap_cons, readByte, if_pos hl.1, ih hl.2]
    rfl

/-- **A text that has been put in is read as itself exactly if it is ASCII.** -/
theorem readInserted_eq_iff : readInserted s = utf8 s ↔ IsAscii s := by
  constructor
  · intro heq
    by_contra ha
    have hlt := length_readInserted_lt ha
    rw [heq] at hlt
    exact Nat.lt_irrefl _ hlt
  · exact readInserted_of_isAscii

/-! ### The placeholder in what is put in -/

/-- `escape_filter_value` of one character. -/
def escapeFilterChar (c : Char) : Text := (String.utf8EncodeChar c).flatMap escapeFilterByte

theorem escapeFilterValue_eq (s) : escapeFilterValue s = s.flatMap escapeFilterChar := List.flatMap_assoc

theorem escapeFilterByte_cases (b) : escapeFilterByte b = [Char.ofNat b.toNat] ∨
    b.toNat < 128 ∧ ∃ hi low, escapeFilterByte b = ['\\', hi, low] ∧ hi ≠ '{' ∧ low ≠ '{' := by
  unfold escapeFilterByte
  split_ifs with hs ho hc he hn
  · exact .inr ⟨by rw [hs]; decide, '2', 'a', rfl, by decide⟩
  · exact .inr ⟨by rw [ho]; decide, '2', '8', rfl, by decide⟩
  · exact .inr ⟨by rw [hc]; decide, '2', '9', rfl, by decide⟩
  · exact .inr ⟨by rw [he]; decide, '5', 'c', rfl, by decide⟩
  · exact .inr ⟨by rw [hn]; decide, '0', '0', rfl, by decide⟩
  · exact .inl rfl

theorem escapeFilterChar_cases (c) : escapeFilterChar c = [c] ∨
    (∃ hi low, escapeFilterChar c = ['\\', hi, low] ∧ hi ≠ '{' ∧ low ≠ '{') ∨
    (escapeFilterChar c ≠ [] ∧ ∀ d ∈ escapeFilterChar c, 128 ≤ d.toNat) := by
  unfold escapeFilterChar
  by_cases ha : c.toNat < 128
  · have hbe : Char.ofNat (UInt8.ofNat c.toNat).toNat = c := by
      rw [UInt8.toNat_ofNat', Nat.mod_eq_of_lt (by omega), Char.ofNat_toNat]
    rw [utf8EncodeChar_of_ascii ha, List.flatMap_singleton]
    rcases escapeFilterByte_cases (UInt8.ofNat c.toNat) with hs | ⟨-, he⟩
    · rw [hbe] at hs
      exact .inl hs
    · exact .inr (.inl he)
  · have hh := high_of_mem_utf8EncodeChar (Nat.not_lt.mp ha)
    have hbe : ∀ b ∈ String.utf8EncodeChar c, escapeFilterByte b = [Char.ofNat b.toNat] := fun b hb =>
      (escapeFilterByte_cases b).resolve_right fun he => Nat.not_lt.mpr (hh b hb) he.1
    refine .inr (.inr ⟨?_, ?_⟩)
    · obtain ⟨b, bytes, hby⟩ := List.exists_cons_of_ne_nil (String.utf8EncodeChar_ne_nil (c := c))
      rw [hby, List.flatMap_cons, hbe b (by rw [hby]; exact List.mem_cons_self)]
      exact List.cons_ne_nil _ _
    · intro d hd
      obtain ⟨b, hb, hdb⟩ := List.mem_flatMap.mp hd
      rw [hbe b hb, List.mem_singleton] at hdb
      rw [hdb, toNat_ofNat_byte]
      exact hh b hb

theorem code_escapeFilterChar : Code userToken escapeFilterChar where
  own p hp := by
    simp only [userToken, List.mem_cons, List.not_mem_nil, or_false] at hp
    rcases hp with rfl | rfl | rfl | rfl | rfl | rfl <;> rfl
  head c p hp hh := by
    have hlow : p.toNat < 128 := by
      simp only [userToken, List.mem_cons, List.not_mem_nil, or_false] at hp
      rcases hp with rfl | rfl | rfl | rfl | rfl | rfl <;> decide
    rcases escapeFilterChar_cases c with hs | ⟨hi, low, hes, -⟩ | ⟨-, hhi⟩
    · rw [hs] at hh
      exact Option.some.inj hh
    · rw [hes] at hh
      cases hh
      exact absurd hp (by decide)
    · have hge := hhi p (List.mem_of_mem_head? hh)
      omega
  inner c p hp hm := by
    obtain rfl : '{' = p := Option.some.inj hp
    rcases escapeFilterChar_cases c with hs | ⟨hi, low, hes, hn, hnl⟩ | ⟨-, hhi⟩
    · rw [hs] at hm
      cases hm
    · rw [hes] at hm
      simp only [List.tail_cons, List.mem_cons, List.not_mem_nil, or_false] at hm
      rcases hm with he | he
      · exact hn he.symm
      · exact hnl he.symm
    · exact absurd (hhi _ (List.mem_of_mem_tail hm)) (by decide)
  ne_nil c := by
    rcases escapeFilterChar_cases c with hs | ⟨hi, low, hes, -⟩ | ⟨hne, -⟩
    · rw [hs]
      exact List.cons_ne_nil _ _
    · rw [hes]
      exact List.cons_ne_nil _ _
    · exact hne

theorem replace_escapeFilterValue (name dn) :
    replace userToken (escapeFilterValue name) (escapeFilterValue dn) = escapeFilterValue
    (replace userToken name dn) := by
  rw [escapeFilterValue_eq, escapeFilterValue_eq, escapeFilterValue_eq]
  exact replace_flatMap token_user.ne_nil code_escapeFilterChar dn

theorem prefix_of_prefix_escapeDnChars {p : Text} (hp : '\\' ∉ p) (h : p <+: escapeDnChars first s) : p <+: s := by
  induction p generalizing first s with
  | nil => exact List.nil_prefix
  | cons d p ih =>
    rw [List.mem_cons, not_or] at hp
    cases s with
    | nil => exact h
    | cons c rest =>
      rw [escapeDnChars] at h
      split_ifs at h
      · rw [List.cons_prefix_cons] at h
        exact absurd h.1.symm hp.1
      · rw [List.cons_prefix_cons] at h ⊢
        exact ⟨h.1, ih hp.2 h.2⟩

theorem userToken_of_escapeDnChars (h : userToken <:+: escapeDnChars first s) : userToken <:+: s := by
  induction s generalizing first with
  | nil => exact h
  | cons c rest ih =>
    by_cases hp : userToken <+: escapeDnChars first (c :: rest)
    · exact (prefix_of_prefix_escapeDnChars (by decide) hp).isInfix
    · suffices hr : userToken <:+: escapeDnChars false rest from (ih hr).trans (List.suffix_cons c rest).isInfix
      rw [escapeDnChars] at h hp
      split_ifs at h hp with he
      · have hb : ¬ userToken <+: c :: escapeDnChars false rest := by
          rw [userToken, List.cons_prefix_cons]
          rintro ⟨rfl, -⟩
          cases first <;> cases rest <;> cases he
        exact (List.infix_cons_iff.mp ((List.infix_cons_iff.mp h).resolve_left hp)).resolve_left hb
      · exact (List.infix_cons_iff.mp h).resolve_left hp

theorem userToken_of_userDn (hb : bind.Forall DnSlot.Valid)
    (hc : config.bindDnTemplate = bind.text DnSlot.spelling)
    (h : userToken <:+: userDn config name) : userToken <:+: name := by
  by_contra ha
  refine absurd h (absent_of_replace_nil token_user.ne_nil ?_)
  rw [userDn_eq hb hc, token_user.replace_dnText hb]
  refine text_congr (hb.imp fun slot hs => ?_)
  cases slot with
  | literal raw => exact replace_of_absent hs.2
  | user => exact replace_of_absent (mt userToken_of_escapeDnChars ha)

theorem length_utf8_append (s t : Text) : (utf8 (s ++ t)).length = (utf8 s).length + (utf8 t).length := by
  rw [utf8, List.flatMap_append, List.length_append]
  rfl

theorem eq_nil_of_length_utf8 (h : (utf8 s).length = 0) : s = [] := by
  cases s with
  | nil => rfl
  | cons c s =>
    rw [utf8, List.flatMap_cons, List.length_append, String.length_utf8EncodeChar] at h
    have hpos := Char.utf8Size_pos c
    omega

/-- **A DN is read as itself** where it has been put in before the username exactly if it is ASCII and does not hold
the placeholder, which the username `user` in braces may do. -/
theorem readInserted_replaced_iff (hbi : bind.Forall DnSlot.Valid)
    (hc : config.bindDnTemplate = bind.text DnSlot.spelling) :
    readInserted (replace userToken name (userDn config name)) = utf8 (userDn config name) ↔
      IsAscii (userDn config name) ∧ (¬ userToken <:+: userDn config name ∨ name = userToken) := by
  by_cases ho : userToken <:+: userDn config name
  · have hs : name = userToken → replace userToken name (userDn config name) = userDn config name := by
      rintro rfl
      exact replace_by_self token_user.ne_nil _
    constructor
    · intro heq
      have hname : name = userToken := by
        obtain ⟨before, after, rfl⟩ := userToken_of_userDn hbi hc ho
        generalize userDn config (before ++ userToken ++ after) = dn at heq ho
        obtain ⟨k, hk, hpos⟩ := @weight_replace Char _ userToken (before ++ userToken ++ after) token_user.ne_nil
          (fun s => (utf8 s).length) length_utf8_append dn
        have hle := (length_flatMap_readByte (utf8 (replace userToken (before ++ userToken ++ after) dn))).1
        rw [readInserted] at heq
        rw [heq] at hle
        simp only [length_utf8_append, Nat.mul_add] at hk
        have hb : k * (utf8 before).length = 0 := by omega
        have haf : k * (utf8 after).length = 0 := by omega
        have hk0 : k ≠ 0 := Nat.pos_iff_ne_zero.mp (hpos ho)
        rw [eq_nil_of_length_utf8 ((Nat.mul_eq_zero.mp hb).resolve_left hk0),
          eq_nil_of_length_utf8 ((Nat.mul_eq_zero.mp haf).resolve_left hk0)]
        rfl
      rw [hs hname] at heq
      exact ⟨readInserted_eq_iff.mp heq, .inr hname⟩
    · rintro ⟨has, ha | hname⟩
      · exact absurd ho ha
      · rw [hs hname]
        exact readInserted_eq_iff.mpr has
  · rw [replace_of_absent ho, readInserted_eq_iff]
    exact (and_iff_left (.inl ho)).symm

/-! ## The calls -/

namespace FilterSlot

/-- How a slot is written in the filter for a user with a DN. -/
def written (name dn : Text) : FilterSlot → Text
  | literal raw => raw
  | user => escapeFilterValue name
  | userdn => escapeFilterValue (replace userToken name dn)

def readAs (name dn : Text) : FilterSlot → Octets
  | literal raw => value name dn (literal raw)
  | user => readInserted name
  | userdn => readInserted (replace userToken name dn)

end FilterSlot

variable {filter : SearchFilter FilterSlot}

theorem groupFilter_eq (hf : filter.Forall FilterSlot.Valid)
    (hc : config.groupFilterTemplate = filter.text FilterSlot.spelling) :
    groupFilter config name = filter.text (FilterSlot.written name (userDn config name)) := by
  have hr : ∀ {pat : Text} (_ : Token pat) (sub : Text) (w : FilterSlot → Text),
      replace pat sub (filter.text w) = filter.text fun slot => replace pat sub (w slot) := fun ht sub w => by
    have hre : replace _ sub (filter.text w ++ []) = (filter.text fun slot => replace _ sub (w slot)) ++ replace _ sub [] :=
      ht.replace_filterText filter hf []
    rwa [List.append_nil, replace_nil, List.append_nil] at hre
  rw [groupFilter, hc, hr token_userDn, hr token_user]
  refine text_congr (hf.imp fun slot hs => ?_)
  cases slot with
  | literal raw =>
    obtain ⟨-, hus, hu⟩ := hs
    rw [FilterSlot.spelling, replace_of_absent hu, replace_of_absent hus]
    rfl
  | user =>
    have ho : ¬ userDnToken <:+: userToken := by decide
    rw [FilterSlot.spelling, replace_of_absent ho, replace_pattern token_user.ne_nil]
    rfl
  | userdn =>
    rw [FilterSlot.spelling, replace_pattern token_userDn.ne_nil, replace_escapeFilterValue]
    rfl

theorem read_groupFilter (hf : filter.Forall FilterSlot.Valid)
    (hc : config.groupFilterTemplate = filter.text FilterSlot.spelling) :
    SearchFilter.read (groupFilter config name) = some (filter.map (FilterSlot.readAs name (userDn config name))) := by
  rw [groupFilter_eq hf hc]
  refine read_text (hf.imp fun slot hs => ?_)
  cases slot with
  | literal raw =>
    obtain ⟨⟨o, ho⟩, -⟩ := hs
    simp [FilterSlot.written, FilterSlot.readAs, FilterSlot.value, ho]
  | user => exact readAssertion_escapeFilterValue name
  | userdn => exact readAssertion_escapeFilterValue _

/-- The texts that a filter puts in are read as themselves. -/
structure InsertsExactly (filter : SearchFilter FilterSlot) (name dn : Text) : Prop where
  user : .user ∈ filter.values → IsAscii name
  userdn : .userdn ∈ filter.values → IsAscii dn ∧ (¬ userToken <:+: dn ∨ name = userToken)

/-- What a call asks is the template with the username, and the bind DN, for its values. -/
def Exact (bind : Dn DnSlot) (filter : SearchFilter FilterSlot) (name dn : Text) : LdapCall → Prop
  | .simpleBind asked _ => Dn.read asked = some (bind.map (DnSlot.value name))
  | .searchGroupNames _ asked _ => SearchFilter.read asked = some (filter.map (FilterSlot.value name dn))

def isBind : LdapCall → Bool
  | .simpleBind .. => true
  | .searchGroupNames .. => false

theorem mem_calls {connection password call} (h : call ∈ (authenticate config connection name password).1) :
    call = .simpleBind (userDn config name) password ∨
      call = .searchGroupNames config.groupSearchBase (groupFilter config name) config.groupNameAttr := by
  unfold authenticate at h
  split_ifs at h
  · cases h
  · dsimp only at h
    split at h
    · simpa using h
    · exact .inl (by simpa using h)

/-- **Every call of a login asks exactly what its template says** for the user: binds always do, and searches exactly
if what they put in is ASCII and the placeholder is not in the DN that is put in. -/
theorem ldap_calls_exact_iff (connection : LdapConnection) (password : Text) (hbind : bind.Forall DnSlot.Valid)
    (hfilter : filter.Forall FilterSlot.Valid) (hbindText : config.bindDnTemplate = bind.text DnSlot.spelling)
    (hfilterText : config.groupFilterTemplate = filter.text FilterSlot.spelling) (hnul : '\x00' ∉ name) :
    ∀ call ∈ (authenticate config connection name password).1,
      Exact bind filter name (userDn config name) call ↔
        isBind call ∨ InsertsExactly filter name (userDn config name) := by
  intro call hc
  rcases mem_calls hc with rfl | rfl
  · simp [Exact, isBind, read_userDn hbind hbindText hnul]
  · have hs : (∀ slot ∈ filter.values, slot.readAs name (userDn config name) = slot.value name (userDn config name)) ↔
        InsertsExactly filter name (userDn config name) := by
      constructor
      · intro h
        exact ⟨fun hm => readInserted_eq_iff.mp (h _ hm),
          fun hm => (readInserted_replaced_iff hbind hbindText).mp (h _ hm)⟩
      · intro h slot hm
        cases slot with
        | literal raw => rfl
        | user => exact readInserted_eq_iff.mpr (h.user hm)
        | userdn => exact (readInserted_replaced_iff hbind hbindText).mpr (h.userdn hm)
    rw [Exact, read_groupFilter hfilter hfilterText, Option.some.injEq, map_eq_map_iff, hs]
    simp [isBind]

/-- `uid` is the username. -/
def uidTemplate : Dn DnSlot := .more ['u', 'i', 'd'] .user ',' (.last ['o'] (.literal ['p']))

/-- The groups that have the user, or the user's DN, for a member. -/
def memberTemplate : SearchFilter FilterSlot := .compound '|' [.item ['u', 'i', 'd'] [.user], .item ['m'] [.userdn]]

def memberConfig : LdapConfig :=
  ⟨uidTemplate.text DnSlot.spelling, ['b'], memberTemplate.text FilterSlot.spelling, ['c', 'n']⟩

theorem valid_uidTemplate : uidTemplate.Forall DnSlot.Valid :=
  ⟨⟨by decide, List.all_eq_true.mp rfl⟩, trivial, rfl, ⟨by decide, List.all_eq_true.mp rfl⟩, ⟨_, rfl⟩, by decide⟩

theorem valid_memberTemplate : memberTemplate.Forall FilterSlot.Valid :=
  ⟨rfl, ⟨⟨by decide, List.all_eq_true.mp rfl⟩, List.cons_ne_nil _ _, List.forall_mem_singleton.mpr trivial⟩,
    ⟨⟨by decide, List.all_eq_true.mp rfl⟩, List.cons_ne_nil _ _, List.forall_mem_singleton.mpr trivial⟩, trivial⟩

/-- A directory that lets everyone in. -/
def openDirectory : LdapConnection := ⟨fun _ _ => .ok true, fun _ _ _ => .ok []⟩

/-- A name with metacharacters of both grammars. -/
theorem ldap_calls_exact_metacharacters :
    let calls := (authenticate memberConfig openDirectory ['#', ',', '*', ' '] ['x']).1
    calls.length = 2 ∧
      ∀ call ∈ calls, Exact uidTemplate memberTemplate ['#', ',', '*', ' '] (userDn memberConfig ['#', ',', '*', ' ']) call :=
  ⟨rfl, fun call hcall =>
    (ldap_calls_exact_iff openDirectory ['x'] valid_uidTemplate valid_memberTemplate rfl rfl (by decide) call hcall).mpr
      (.inr ⟨fun _ => by decide, fun _ => ⟨by decide, .inl (by decide)⟩⟩)⟩

/-- The groups of `é` are looked up under the two characters of its bytes; those of a username that holds the
placeholder are looked up under a DN that it does not have. -/
theorem ldap_search_asks_for_another :
    (∃ call ∈ (authenticate memberConfig openDirectory ['é'] ['x']).1,
      ¬ Exact uidTemplate memberTemplate ['é'] (userDn memberConfig ['é']) call) ∧
    ∃ call ∈ (authenticate memberConfig openDirectory (userToken ++ ['!']) ['x']).1,
      ¬ Exact uidTemplate memberTemplate (userToken ++ ['!']) (userDn memberConfig (userToken ++ ['!'])) call := by
  refine ⟨⟨_, List.mem_of_getLast? rfl, ?_⟩, ⟨_, List.mem_of_getLast? rfl, ?_⟩⟩
  · intro he
    exact absurd (congrArg (Option.map values) he) (by decide)
  · intro he
    exact absurd (congrArg (Option.map values) he) (by decide)

end Ldap

end Dataglot
