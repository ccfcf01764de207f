/-
The string forms of LDAP: distinguished names (RFC 4514) and search filters (RFC 4515),
with readers for both. Values are octets; a character stands for its UTF-8 encoding, an
escape for what it escapes.

A name or a filter is a tree over its values, so that the same tree serves for a text
(each value as it is written) and for what the text means (each value as octets).
-/
import Mathlib

namespace LdapSyntax
open Option List

abbrev Octets := List UInt8

def utf8 (s : List Char) : Octets := s.flatMap String.utf8EncodeChar

def IsAscii (s : List Char) : Prop := ∀ c ∈ s, c.toNat < 128

instance (s : List Char) : Decidable (IsAscii s) := List.decidableBAll (fun c : Char => c.toNat < 128) s

theorem utf8EncodeChar_of_ascii {c} (h : c.toNat < 128) : String.utf8EncodeChar c = [UInt8.ofNat c.toNat] := by
  have hle : c.val.toNat ≤ 0x7f := Nat.le_of_lt_succ h
  unfold String.utf8EncodeChar
  exact if_pos hle

theorem high_of_mem_utf8EncodeChar {c} (h : 128 ≤ c.toNat) : ∀ b ∈ String.utf8EncodeChar c, 128 ≤ b.toNat := by
  have hv : ¬ c.val.toNat ≤ 0x7f := Nat.not_le.mpr h
  unfold String.utf8EncodeChar
  simp only [if_neg hv]
  split_ifs <;> simp <;> omega

def hexDigit (c : Char) : Option Nat :=
  if '0' ≤ c ∧ c ≤ '9' then some (c.toNat - '0'.toNat)
  else if 'a' ≤ c ∧ c ≤ 'f' then some (10 + c.toNat - 'a'.toNat)
  else if 'A' ≤ c ∧ c ≤ 'F' then some (10 + c.toNat - 'A'.toNat)
  else none

def hexPair (high low : Char) : Option UInt8 := do
  let high ← hexDigit high
  let low ← hexDigit low
  some (UInt8.ofNat (16 * high + low))

/-! ## Distinguished names -/

/-- Attribute types with their values; `,` begins a new RDN and `+` goes on with the same. -/
inductive Dn (V : Type)
  | last (type : List Char) (value : V)
  | more (type : List Char) (value : V) (sep : Char) (rest : Dn V)
  deriving DecidableEq, Repr

/-- What stands behind `=`: a string, or `#` and an encoded value. -/
inductive DnValue
  | string (octets : Octets)
  | hex (octets : Octets)
  deriving DecidableEq, Repr

namespace Dn

variable {V W : Type}

def map (f : V → W) : Dn V → Dn W
  | last type value => last type (f value)
  | more type value sep rest => more type (f value) sep (rest.map f)

def text (w : V → List Char) : Dn V → List Char
  | last type value => type ++ '=' :: w value
  | more type value sep rest => type ++ '=' :: (w value ++ sep :: rest.text w)

def isSep (c : Char) : Bool := c == ',' || c == '+'

/-- Of descriptors and dotted numbers. -/
def isTypeChar (c : Char) : Bool := c.isAlphanum || c == '-' || c == '.'

/-- `special`, which may stand behind a backslash. -/
def isSpecial (c : Char) : Bool := c ∈ ['"', '+', ',', ';', '<', '>', ' ', '#', '=', '\\']

/-- What no string has without a backslash. -/
def isForbidden (c : Char) : Bool := c ∈ ['"', ';', '<', '>', '\x00']

def endsHere (rest : List Char) : Bool := rest.head?.all isSep

/-- A character that is not to stand here without a backslash: no blank or `#` at the beginning, no blank at the end. -/
def isBlocked (first : Bool) (c : Char) (rest : List Char) : Bool :=
  isForbidden c || (first && (c == ' ' || c == '#')) || (c == ' ' && endsHere rest)

/-- `string`. -/
def readString (first : Bool) : List Char → Option (Octets × List Char)
  | [] => some ([], [])
  | c :: rest =>
    if c = '\\' then
      match rest with
      | [] => none
      | d :: rest =>
        if isSpecial d then (readString false rest).map fun (o, r) => (String.utf8EncodeChar d ++ o, r)
        else
          match rest with
          | [] => none
          | e :: rest => (hexPair d e).bind fun b => (readString false rest).map fun (o, r) => (b :: o, r)
    else if isSep c then some ([], c :: rest)
    else if isBlocked first c rest then none
    else (readString false rest).map fun (o, r) => (String.utf8EncodeChar c ++ o, r)

/-- `1*hexpair`. -/
def readHex : List Char → Option (Octets × List Char)
  | [] => some ([], [])
  | [c] => if isSep c then some ([], [c]) else none
  | c :: d :: rest =>
    if isSep c then some ([], c :: d :: rest)
    else (hexPair c d).bind fun b => (readHex rest).map fun (o, r) => (b :: o, r)

/-- `attributeValue`. -/
def readValue : List Char → Option (DnValue × List Char)
  | '#' :: rest => if endsHere rest then none else (readHex rest).map fun (o, r) => (.hex o, r)
  | s => (readString true s).map fun (o, r) => (.string o, r)

/-- The attributes of a name, one in each round. -/
def readFrom : Nat → List Char → Option (Dn DnValue)
  | 0, _ => none
  | fuel + 1, s =>
    let type := s.takeWhile isTypeChar
    match s.dropWhile isTypeChar with
    | '=' :: rest =>
      if type.isEmpty then none
      else
        match readValue rest with
        | some (value, []) => some (.last type value)
        | some (value, sep :: rest) => (readFrom fuel rest).map (.more type value sep)
        | none => none
    | _ => none

/-- `distinguishedName`, with an attribute in it. -/
def read (s : List Char) : Option (Dn DnValue) := readFrom (s.length + 1) s

/-- Types and separators are what they should be, and so are the values. -/
def Forall (good : V → Prop) : Dn V → Prop
  | last type value => (type ≠ [] ∧ ∀ c ∈ type, isTypeChar c = true) ∧ good value
  | more type value sep rest =>
    (type ≠ [] ∧ ∀ c ∈ type, isTypeChar c = true) ∧ good value ∧ isSep sep = true ∧ rest.Forall good

theorem Forall.imp {good good'} (h : ∀ v, good v → good' v) : ∀ {dn : Dn V}, dn.Forall good → dn.Forall good'
  | last _ value, hdn => ⟨hdn.1, h value hdn.2⟩
  | more _ value _ _, hdn => ⟨hdn.1, h value hdn.2.1, hdn.2.2.1, hdn.2.2.2.imp h⟩

variable {w : V → List Char} {first : Bool} {s : List Char} {sep : Char}

theorem text_congr {w'} : ∀ {dn : Dn V}, (dn.Forall fun v => w v = w' v) → dn.text w = dn.text w'
  | last _ _, h => by rw [text, text, h.2]
  | more _ _ _ _, h => by rw [text, text, h.2.1, text_congr h.2.2.2]

/-! ### Reading a name back -/

theorem readString_special {d} (hd : isSpecial d = true) (s) :
    readString first ('\\' :: d :: s) = (readString false s).map fun (o, r) => (String.utf8EncodeChar d ++ o, r) := by
  rw [readString.eq_def]
  simp only [if_true, if_pos hd]

theorem readString_hex {d e} (hd : ¬ isSpecial d = true) (s) : readString first ('\\' :: d :: e :: s) =
      (hexPair d e).bind fun b => (readString false s).map fun (o, r) => (b :: o, r) := by
  rw [readString.eq_def]
  simp only [if_true, if_neg hd]

theorem readString_sep {c} (hc : isSep c = true) (s) : readString first (c :: s) = some ([], c :: s) := by
  have he : c ≠ '\\' := by
    rintro rfl
    cases hc
  rw [readString.eq_def]
  simp only [if_neg he, if_pos hc]

theorem readString_plain {c} (he : c ≠ '\\') (hs : ¬ isSep c = true)
    (hb : ¬ isBlocked first c s = true) :
    readString first (c :: s) = (readString false s).map fun (o, r) => (String.utf8EncodeChar c ++ o, r) := by
  rw [readString.eq_def]
  simp only [if_neg he, if_neg hs, if_neg hb]

theorem endsHere_append (hs : isSep sep = true) (rest) : endsHere (s ++ sep :: rest) = endsHere s := by
  cases s with
  | nil => simp [endsHere, hs]
  | cons c s => rfl

theorem readString_append {o} (h : readString first s = some (o, []))
    (hse : isSep sep = true) (rest) : readString first (s ++ sep :: rest) = some (o, sep :: rest) := by
  fun_induction readString first s generalizing o with
  | case1 first =>
    cases h
    exact readString_sep hse rest
  | case2 first => cases h
  | case3 first d s hd ih =>
    obtain ⟨⟨o', r⟩, hs, he⟩ := map_eq_some_iff.mp h
    cases he
    rw [cons_append, cons_append, readString_special hd, ih hs]
    rfl
  | case4 first d hd => cases h
  | case5 first d hd e s ih =>
    obtain ⟨b, hb, h⟩ := bind_eq_some_iff.mp h
    obtain ⟨⟨o', r⟩, hs, he⟩ := map_eq_some_iff.mp h
    cases he
    rw [cons_append, cons_append, cons_append, readString_hex hd, hb, ih hs]
    rfl
  | case6 first c s hes hc => cases h
  | case7 first c s hes hc hbl => cases h
  | case8 first c s hes hc hbl ih =>
    obtain ⟨⟨o', r⟩, hs, he⟩ := map_eq_some_iff.mp h
    cases he
    have hf : ¬ isBlocked first c (s ++ sep :: rest) = true := by rwa [isBlocked, endsHere_append hse]
    rw [cons_append, readString_plain hes hc hf, ih hs]
    rfl

theorem readHex_append {o} (h : readHex s = some (o, [])) (hse : isSep sep = true)
    (rest) : readHex (s ++ sep :: rest) = some (o, sep :: rest) := by
  fun_induction readHex s generalizing o with
  | case1 =>
    cases h
    cases rest <;> simp [readHex, hse]
  | case2 c hc => cases h
  | case3 c hc => cases h
  | case4 c d s hc => cases h
  | case5 c d s hc ih =>
    obtain ⟨b, hb, h⟩ := bind_eq_some_iff.mp h
    obtain ⟨⟨o', r⟩, hs, he⟩ := map_eq_some_iff.mp h
    cases he
    rw [cons_append, cons_append, readHex, if_neg hc, hb, bind_some, ih hs]
    rfl

theorem readValue_string (h : s.head? ≠ some '#') :
    readValue s = (readString true s).map fun (o, r) => (.string o, r) := by
  unfold readValue
  split
  · exact absurd rfl h
  · rfl

theorem readValue_append {v} (h : readValue s = some (v, []))
    (hse : isSep sep = true) (rest) : readValue (s ++ sep :: rest) = some (v, sep :: rest) := by
  by_cases hh : s.head? = some '#'
  · obtain ⟨t, rfl⟩ := head?_eq_some_iff.mp hh
    rw [readValue] at h
    split_ifs at h with hen
    obtain ⟨⟨o, r⟩, hs, he⟩ := map_eq_some_iff.mp h
    cases he
    rw [cons_append, readValue, endsHere_append hse, if_neg hen, readHex_append hs hse]
    rfl
  · rw [readValue_string hh] at h
    obtain ⟨⟨o, r⟩, hs, he⟩ := map_eq_some_iff.mp h
    cases he
    have hhe : (s ++ sep :: rest).head? ≠ some '#' := by
      cases s with
      | nil =>
        rintro ⟨⟩
        cases hse
      | cons c s => exact hh
    rw [readValue_string hhe, readString_append hs hse]
    rfl

theorem takeWhile_type {type} (ht : ∀ c ∈ type, isTypeChar c = true) (s) :
    (type ++ '=' :: s).takeWhile isTypeChar = type ∧ (type ++ '=' :: s).dropWhile isTypeChar = '=' :: s := by
  have hs : isTypeChar '=' = false := by decide
  rw [takeWhile_append_of_pos ht, dropWhile_append_of_pos ht]
  simp [hs]

/-- **A name whose values are read by themselves is read as a name of what they mean.** -/
theorem readFrom_text {m} {dn : Dn V} {fuel} (hf : (dn.text w).length < fuel)
    (h : dn.Forall fun v => readValue (w v) = some (m v, [])) : readFrom fuel (dn.text w) = some (dn.map m) := by
  obtain ⟨fuel, rfl⟩ : ∃ k, fuel = k + 1 := ⟨fuel - 1, by omega⟩
  induction dn generalizing fuel with
  | last type value =>
    obtain ⟨⟨hne, ht⟩, hv⟩ := h
    have hs := takeWhile_type ht (w value)
    rw [text, readFrom]
    simp only [hs.1, hs.2, hv, map]
    exact if_neg (by simpa using hne)
  | more type value sep rest ih =>
    obtain ⟨⟨hne, ht⟩, hv, hse, hr⟩ := h
    have hs := takeWhile_type ht (w value ++ sep :: rest.text w)
    rw [text, length_append, length_cons, length_append, length_cons] at hf
    obtain ⟨fuel, rfl⟩ : ∃ k, fuel = k + 1 := ⟨fuel - 1, by omega⟩
    rw [text, readFrom]
    simp only [hs.1, hs.2, readValue_append hv hse, map]
    rw [if_neg (by simpa using hne), ih hr fuel (by omega)]
    rfl

theorem read_text {m} {dn : Dn V}
    (h : dn.Forall fun v => readValue (w v) = some (m v, [])) : read (dn.text w) = some (dn.map m) :=
  readFrom_text (Nat.lt_succ_self _) h

end Dn

/-! ## Filters -/

/-- `&`, `|` and `!` of filters, and items: an attribute with the operator up to its `=`, and the values between
the asterisks, one when there is none. -/
inductive SearchFilter (V : Type)
  | compound (op : Char) (filters : List (SearchFilter V))
  | item (attr : List Char) (values : List V)

namespace SearchFilter

variable {V W : Type}

mutual

def map (f : V → W) : SearchFilter V → SearchFilter W
  | compound op filters => compound op (mapList f filters)
  | item attr values => item attr (values.map f)

def mapList (f : V → W) : List (SearchFilter V) → List (SearchFilter W)
  | [] => []
  | filter :: filters => filter.map f :: mapList f filters

end

/-- Values with asterisks between them. -/
def starred : List (List Char) → List Char
  | [] => []
  | [value] => value
  | value :: next :: values => value ++ '*' :: starred (next :: values)

mutual

def text (w : V → List Char) : SearchFilter V → List Char
  | compound op filters => '(' :: op :: (textList w filters ++ [')'])
  | item attr values => '(' :: (attr ++ '=' :: (starred (values.map w) ++ [')']))

def textList (w : V → List Char) : List (SearchFilter V) → List Char
  | [] => []
  | filter :: filters => filter.text w ++ textList w filters

end

mutual

def values : SearchFilter V → List V
  | compound _ filters => valuesList filters
  | item _ values => values

def valuesList : List (SearchFilter V) → List V
  | [] => []
  | filter :: filters => filter.values ++ valuesList filters

end

/-- What an assertion value does not have without an escape. -/
def isStop (c : Char) : Bool := c ∈ ['(', ')', '*', '\x00']

/-- `assertionvalue`. -/
def readAssertion : List Char → Option (Octets × List Char)
  | [] => some ([], [])
  | c :: rest =>
    if c = '\\' then
      match rest with
      | high :: low :: rest => (hexPair high low).bind fun b => (readAssertion rest).map fun (o, r) => (b :: o, r)
      | _ => none
    else if isStop c then some ([], c :: rest)
    else (readAssertion rest).map fun (o, r) => (String.utf8EncodeChar c ++ o, r)

/-- The values of an item up to its end, one in each round. -/
def readValues : Nat → List Char → Option (List Octets × List Char)
  | 0, _ => none
  | fuel + 1, s =>
    match readAssertion s with
    | some (o, '*' :: rest) => (readValues fuel rest).map fun (os, r) => (o :: os, r)
    | some (o, ')' :: rest) => some ([o], rest)
    | _ => none

/-- Of attribute descriptions and matching rules, and of `~=`, `>=`, `<=` and `:=`. -/
def isAttrChar (c : Char) : Bool := c.isAlphanum || c ∈ ['-', '.', ';', ':', '~', '<', '>']

/-- How many filters an operator takes. -/
def takes (op : Char) (n : Nat) : Bool := ((op == '&' || op == '|') && 0 < n) || (op == '!' && n == 1)

mutual

/-- `filter`. -/
def readFilter : Nat → List Char → Option (SearchFilter Octets × List Char)
  | 0, _ => none
  | fuel + 1, s =>
    match s with
    | '(' :: op :: rest =>
      if op = '&' ∨ op = '|' ∨ op = '!' then
        (readList fuel rest).bind fun (filters, r) =>
          if takes op filters.length then some (.compound op filters, r) else none
      else
        let attr := (op :: rest).takeWhile isAttrChar
        match (op :: rest).dropWhile isAttrChar with
        | '=' :: rest =>
          if attr.isEmpty then none
          else (readValues (rest.length + 1) rest).map fun (values, r) => (.item attr values, r)
        | _ => none
    | _ => none

/-- Filters up to a closing parenthesis. -/
def readList : Nat → List Char → Option (List (SearchFilter Octets) × List Char)
  | 0, _ => none
  | fuel + 1, s =>
    match s with
    | ')' :: rest => some ([], rest)
    | s =>
      (readFilter fuel s).bind fun (filter, r) =>
        (readList fuel r).map fun (filters, r) => (filter :: filters, r)

end

def read (s : List Char) : Option (SearchFilter Octets) :=
  match readFilter s.length s with
  | some (filter, []) => some filter
  | _ => none

mutual

/-- Operators and attributes are what they should be, and so are the values. -/
def Forall (good : V → Prop) : SearchFilter V → Prop
  | compound op filters => takes op filters.length = true ∧ ForallList good filters
  | item attr values => (attr ≠ [] ∧ ∀ c ∈ attr, isAttrChar c = true) ∧ values ≠ [] ∧ ∀ v ∈ values, good v

def ForallList (good : V → Prop) : List (SearchFilter V) → Prop
  | [] => True
  | filter :: filters => filter.Forall good ∧ ForallList good filters

end

mutual

theorem Forall.imp {good good'} (h : ∀ v, good v → good' v) : ∀ {f : SearchFilter V}, f.Forall good → f.Forall good'
  | compound _ _, hf => ⟨hf.1, ForallList.imp h hf.2⟩
  | item _ _, hf => ⟨hf.1, hf.2.1, fun v hv => h v (hf.2.2 v hv)⟩

theorem ForallList.imp {good good'} (h : ∀ v, good v → good' v) : ∀ {fs : List (SearchFilter V)},
    ForallList good fs → ForallList good' fs
  | [], _ => trivial
  | _ :: _, hfs => ⟨Forall.imp h hfs.1, ForallList.imp h hfs.2⟩

end

mutual

theorem text_congr {w w'} : ∀ {f : SearchFilter V}, (f.Forall fun v => w v = w' v) → f.text w = f.text w'
  | compound _ _, h => by rw [text, text, textList_congr h.2]
  | item _ _, h => by rw [text, text, map_congr_left h.2.2]

theorem textList_congr {w w'} : ∀ {fs : List (SearchFilter V)}, ForallList (fun v => w v = w' v) fs →
    textList w fs = textList w' fs
  | [], _ => rfl
  | _ :: _, h => by rw [textList, textList, text_congr h.1, textList_congr h.2]

end

mutual

theorem map_eq_map_iff {m m' : V → W} : ∀ (f : SearchFilter V), f.map m = f.map m' ↔ ∀ v ∈ f.values, m v = m' v
  | compound op filters => by
    rw [map, map, values, ← mapList_eq_mapList_iff filters]
    simp
  | item attr vs => by
    rw [map, map, values, ← map_inj_left]
    simp

theorem mapList_eq_mapList_iff {m m' : V → W} : ∀ fs, mapList m fs = mapList m' fs ↔ ∀ v ∈ valuesList fs, m v = m' v
  | [] => by simp [mapList, valuesList]
  | f :: fs => by
    rw [mapList, mapList, valuesList, cons.injEq, map_eq_map_iff f, mapList_eq_mapList_iff fs]
    simp only [mem_append, or_imp, forall_and]

end

/-! ### Reading a filter back -/

theorem readAssertion_escape (hi low : Char) (s) : readAssertion ('\\' :: hi :: low :: s) =
      (hexPair hi low).bind fun b => (readAssertion s).map fun (o, r) => (b :: o, r) := by
  rw [readAssertion.eq_def]
  simp only [if_true]

theorem readAssertion_stop {c} (hc : isStop c = true) (s) :
    readAssertion (c :: s) = some ([], c :: s) := by
  have he : c ≠ '\\' := by
    rintro rfl
    cases hc
  rw [readAssertion.eq_def]
  simp only [if_neg he, if_pos hc]

theorem readAssertion_plain {c} (he : c ≠ '\\') (hs : ¬ isStop c = true) (s) :
    readAssertion (c :: s) = (readAssertion s).map fun (o, r) => (String.utf8EncodeChar c ++ o, r) := by
  rw [readAssertion.eq_def]
  simp only [if_neg he, if_neg hs]

theorem readAssertion_append {s t o} (h : readAssertion s = some (o, [])) :
    readAssertion (s ++ t) = (readAssertion t).map fun (o', r) => (o ++ o', r) := by
  fun_induction readAssertion s generalizing o with
  | case1 =>
    cases h
    simp
  | case2 high low s ih =>
    obtain ⟨b, hb, h⟩ := Option.bind_eq_some_iff.mp h
    obtain ⟨⟨o', r⟩, hs, he⟩ := Option.map_eq_some_iff.mp h
    cases he
    rw [List.cons_append, List.cons_append, List.cons_append, readAssertion_escape, hb, Option.bind_some, ih hs,
      Option.map_map]
    rfl
  | case3 s hs => cases h
  | case4 c s hes hst => cases h
  | case5 c s hes hst ih =>
    obtain ⟨⟨o', r⟩, hs, he⟩ := Option.map_eq_some_iff.mp h
    cases he
    rw [List.cons_append, readAssertion_plain hes hst, ih hs, Option.map_map]
    simp [Function.comp_def]

section Read

variable {w : V → List Char} {m : V → Octets}

theorem readValues_starred {fuel vs} (hne : vs ≠ []) (hf : (starred (vs.map w)).length < fuel)
    (h : ∀ v ∈ vs, readAssertion (w v) = some (m v, [])) (rest) :
    readValues fuel (starred (vs.map w) ++ ')' :: rest) = some (vs.map m, rest) := by
  obtain ⟨fuel, rfl⟩ : ∃ k, fuel = k + 1 := ⟨fuel - 1, by omega⟩
  induction vs generalizing fuel with
  | nil => exact absurd rfl hne
  | cons v vs ih =>
    rw [forall_mem_cons] at h
    cases vs with
    | nil =>
      have hr : readAssertion (w v ++ ')' :: rest) = some (m v, ')' :: rest) := by
        rw [readAssertion_append h.1, readAssertion_stop (by decide)]
        simp
      rw [map_cons, map_nil, starred, readValues, hr]
      rfl
    | cons next vs =>
      have hr : readAssertion (w v ++ '*' :: (starred ((next :: vs).map w) ++ ')' :: rest)) =
          some (m v, '*' :: (starred ((next :: vs).map w) ++ ')' :: rest)) := by
        rw [readAssertion_append h.1, readAssertion_stop (by decide)]
        simp
      rw [map_cons, map_cons, starred, ← map_cons, length_append, length_cons] at hf
      obtain ⟨fuel, rfl⟩ : ∃ k, fuel = k + 1 := ⟨fuel - 1, by omega⟩
      rw [map_cons, map_cons, starred, ← map_cons, append_assoc, cons_append, readValues, hr]
      simp only [ih (cons_ne_nil _ _) h.2 fuel (by omega)]
      rfl

theorem takeWhile_attr {attr} (ha : ∀ c ∈ attr, isAttrChar c = true) (s) :
    (attr ++ '=' :: s).takeWhile isAttrChar = attr ∧ (attr ++ '=' :: s).dropWhile isAttrChar = '=' :: s := by
  have hs : isAttrChar '=' = false := by decide
  rw [takeWhile_append_of_pos ha, dropWhile_append_of_pos ha]
  simp [hs]

theorem readFilter_item {attr vs fuel}
    (h : (item attr vs).Forall fun v => readAssertion (w v) = some (m v, [])) (rest) :
    readFilter (fuel + 1) ((item attr vs).text w ++ rest) = some ((item attr vs).map m, rest) := by
  obtain ⟨⟨hne, ha⟩, hvs, hv⟩ := h
  obtain ⟨c, cs, rfl⟩ := exists_cons_of_ne_nil hne
  have hop : ¬ (c = '&' ∨ c = '|' ∨ c = '!') := by
    have hc := ha c mem_cons_self
    rintro (rfl | rfl | rfl) <;> cases hc
  have hs : (c :: (cs ++ '=' :: (starred (vs.map w) ++ ')' :: rest))).takeWhile isAttrChar = c :: cs ∧
      (c :: (cs ++ '=' :: (starred (vs.map w) ++ ')' :: rest))).dropWhile isAttrChar =
        '=' :: (starred (vs.map w) ++ ')' :: rest) := takeWhile_attr ha _
  have ht : (item (c :: cs) vs).text w ++ rest = '(' :: c :: (cs ++ '=' :: (starred (vs.map w) ++ ')' :: rest)) := by
    simp [text]
  rw [ht, readFilter]
  simp only [if_neg hop, hs.1, hs.2]
  rw [readValues_starred hvs (by rw [length_append]; omega) hv]
  rfl

theorem exists_text_eq (filter : SearchFilter V) : ∃ t, filter.text w = '(' :: t := by
  cases filter with
  | compound op filters => exact ⟨_, rfl⟩
  | item attr values => exact ⟨_, rfl⟩

theorem length_mapList (f : V → W) (filters) : (mapList f filters).length = filters.length := by
  induction filters with
  | nil => rfl
  | cons filter filters ih => rw [mapList, length_cons, length_cons, ih]

mutual

/-- **A filter whose values are read by themselves is read as a filter of what they mean.** -/
theorem readFilter_text : ∀ (filter : SearchFilter V) {fuel}, (filter.text w).length ≤ fuel →
    (filter.Forall fun v => readAssertion (w v) = some (m v, [])) → ∀ rest,
    readFilter fuel (filter.text w ++ rest) = some (filter.map m, rest)
  | item attr values, fuel, hfu, h, rest => by
    obtain ⟨t, ht⟩ := exists_text_eq (w := w) (item attr values)
    rw [ht, length_cons] at hfu
    obtain ⟨fuel, rfl⟩ : ∃ k, fuel = k + 1 := ⟨fuel - 1, by omega⟩
    exact readFilter_item h rest
  | compound op filters, fuel, hfu, h, rest => by
    obtain ⟨hta, hf⟩ := h
    rw [text, length_cons, length_cons, length_append, length_singleton] at hfu
    obtain ⟨fuel, rfl⟩ : ∃ k, fuel = k + 1 := ⟨fuel - 1, by omega⟩
    have hop : op = '&' ∨ op = '|' ∨ op = '!' := by
      simp only [takes, Bool.or_eq_true, Bool.and_eq_true, beq_iff_eq] at hta
      rcases hta with ⟨hop | hop, -⟩ | ⟨hop, -⟩ <;> simp [hop]
    have hte : (compound op filters).text w ++ rest = '(' :: op :: (textList w filters ++ ')' :: rest) := by
      simp [text]
    have hl : readList fuel (textList w filters ++ ')' :: rest) = some (mapList m filters, rest) :=
      readList_textList filters (by omega) hf rest
    rw [hte, readFilter]
    simp only [if_pos hop, hl, bind_some, length_mapList, if_pos hta]
    rfl

theorem readList_textList : ∀ filters {fuel}, (textList w filters).length + 2 ≤ fuel →
    (ForallList (fun v => readAssertion (w v) = some (m v, [])) filters) → ∀ rest,
    readList fuel (textList w filters ++ ')' :: rest) = some (mapList m filters, rest)
  | [], fuel, hf, h, rest => by
    obtain ⟨fuel, rfl⟩ : ∃ k, fuel = k + 1 := ⟨fuel - 1, by omega⟩
    rfl
  | filter :: filters, fuel, hf, h, rest => by
    obtain ⟨fuel, rfl⟩ : ∃ k, fuel = k + 1 := ⟨fuel - 1, by omega⟩
    obtain ⟨t, ht⟩ := exists_text_eq (w := w) filter
    have hlen : 0 < (filter.text w).length := by
      rw [ht]
      exact Nat.succ_pos _
    rw [textList, length_append] at hf
    have hr : readFilter fuel (filter.text w ++ (textList w filters ++ ')' :: rest)) =
        some (filter.map m, textList w filters ++ ')' :: rest) := readFilter_text filter (by omega) h.1 _
    have hre : readList fuel (textList w filters ++ ')' :: rest) = some (mapList m filters, rest) :=
      readList_textList filters (by omega) h.2 rest
    rw [textList, append_assoc]
    rw [ht] at hr ⊢
    rw [cons_append] at hr ⊢
    rw [readList]
    · simp only [hr, hre, bind_some]
      rfl
    · rintro rest' ⟨⟩

end

theorem read_text {filter : SearchFilter V} (h : filter.Forall fun v => readAssertion (w v) = some (m v, [])) :
    read (filter.text w) = some (filter.map m) := by
  have hr := readFilter_text filter (Nat.le_refl _) h []
  rw [append_nil] at hr
  rw [read, hr]

end Read

end SearchFilter

end LdapSyntax
