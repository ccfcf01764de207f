/-
Scans of the REST and the OData connector (`RestScanExec::execute`, `OdataScanExec::execute`):
a page is requested, and the link in its body is the URL of the next request. The credential
is put on every request.

What bodies come back is up to the other side, so a scan is a function of the replies. A link
may be any text. `Stays` is about one link and the page it came with; that every link stays
is what it takes for the credential to stay (`credential_at_origin_iff`).
-/
import Mathlib
import Dataglot.Core.Json

namespace Dataglot
open Option List

structure UrlOrigin where
  scheme : String
  host : String
  port : Nat
  deriving DecidableEq, Repr

/-- The `url` crate, for URLs that `reqwest` sends requests to. -/
structure UrlLibrary where
  Url : Type
  parse : String → Option Url
  toText : Url → String
  origin : Url → UrlOrigin
  join : Url → String → Option Url
  queryPairs : Url → List (String × String)
  /-- `set_query(None)`, and the pairs behind it. -/
  setQueryPairs : Url → List (String × String) → Url
  /-- `RequestBuilder::query`. -/
  query : Url → List (String × String) → Url
  parse_toText : ∀ u, parse (toText u) = some u
  join_absolute : ∀ {u v link}, parse link = some v → join u link = some v
  origin_setQueryPairs : ∀ u pairs, origin (setQueryPairs u pairs) = origin u
  origin_query : ∀ u pairs, origin (query u pairs) = origin u
  origin_below : ∀ {root path u v}, parse root = some u → parse (root ++ "/" ++ path) = some v → origin v = origin u

/-- What a request shows who it is from with. -/
inductive Credential
  | basic (user password : String)
  | bearer (token : String)
  | header (name value : String)
  deriving DecidableEq, Repr

inductive RestAuth
  | none
  | basic (user password : String)
  | bearer (token : String)
  | header (name value : String)
  deriving DecidableEq, Repr

def RestAuth.apply : RestAuth → Option Credential
  | none => .none
  | basic user password => some (.basic user password)
  | bearer token => some (.bearer token)
  | header name value => some (.header name value)

inductive OdataAuth
  | basic (user password : String)
  | bearer (token : String)
  deriving DecidableEq, Repr

def OdataAuth.apply : OdataAuth → Credential
  | basic user password => .basic user password
  | bearer token => .bearer token

/-- What a scan meets, page by page: the token cache's answer, and the body that comes back, unless
the request fails or the body is not JSON. -/
structure Replies where
  bearer : Nat → Option String
  body : Nat → Option Json

structure Request (L : UrlLibrary) where
  url : L.Url
  credential : Option Credential

/-- A page that was requested: the URL its links are resolved against, and its next link. -/
structure Fetch (L : UrlLibrary) where
  request : Request L
  base : L.Url
  link : Option String

/-! ## REST -/

/-- `RestScanExec`, with the pushed query parameters as `scan` has found them; `fits` is whether
rows can be decoded into the declared schema. -/
structure RestScan where
  configured : String
  pushed : List (String × String)
  recordsPath : String
  auth : RestAuth
  oauth : Bool
  nextPath : Option String
  limit : Option Nat
  fits : List Json → Bool

namespace RestScan

def maxPages : Nat := 10000

variable (L : UrlLibrary) (x : RestScan) (replies : Replies)

def urlWithPushdown : Option String :=
  if x.pushed.isEmpty then some x.configured
  else do
    let url ← L.parse x.configured
    let kept := (L.queryPairs url).filter fun pair => !(x.pushed.map Prod.fst).contains pair.1
    some (L.toText (L.setQueryPairs url (kept ++ x.pushed)))

def locateRows (json : Json) (recordsPath : String) : Option (List Json) :=
  if recordsPath.isEmpty then json.asArray else (json.locate recordsPath).bind Json.asArray

/-- `decode_json_page`: how many rows, and the next link. -/
def decodeJsonPage (json : Json) : Option (Nat × Option String) := do
  let rows ← locateRows json x.recordsPath
  if x.fits rows then some (rows.length, x.nextPath.bind fun path => (json.locate path).bind Json.asStr) else none

def joinUrl (base next : String) : Option String := do
  let base ← L.parse base
  let url ← L.join base next
  some (L.toText url)

/-- The credential of a request; with OAuth 2.0 there may be no token to be had. -/
def credential (page : Nat) : Option (Option Credential) :=
  if x.oauth then (replies.bearer page).map fun token => some (.bearer token) else some x.auth.apply

/-- Where the loop goes on behind a page: nowhere with enough rows, without a link, or at the cap. -/
def nextUrl (url : String) (page total rows : Nat) (next : Option String) : Option String :=
  if x.limit.any fun limit => limit - total ≤ rows then none
  else
    match next with
    | some link => if page + 1 < maxPages then joinUrl L url link else none
    | none => none

/-- The loop of `execute`. -/
def fetchFrom : Nat → Nat → String → Nat → List (Fetch L)
  | 0, _, _, _ => []
  | fuel + 1, page, url, total =>
    match x.credential replies page, L.parse url with
    | some credential, some u =>
      match (replies.body page).bind x.decodeJsonPage with
      | none => [⟨⟨u, credential⟩, u, none⟩]
      | some (rows, next) =>
        ⟨⟨u, credential⟩, u, next⟩ ::
          match x.nextUrl L url page total rows next with
          | some url => fetchFrom fuel (page + 1) url (total + rows)
          | none => []
    | _, _ => []

def fetches : List (Fetch L) :=
  match x.urlWithPushdown L with
  | some url => x.fetchFrom L replies maxPages 0 url 0
  | none => []

end RestScan

/-! ## OData -/

/-- `OdataScanExec`, of a service whose URL is one. -/
structure OdataScan (L : UrlLibrary) where
  serviceUrl : String
  entitySet : String
  query : List (String × String)
  auth : OdataAuth
  fits : List Json → Bool
  valid : ∃ service, L.parse serviceUrl = some service

namespace OdataScan

def maxPages : Nat := 16

variable {L : UrlLibrary} (x : OdataScan L) (replies : Replies)

def url : String := x.serviceUrl ++ "/" ++ x.entitySet

def locateResults (json : Json) : Option (List Json) :=
  let candidate :=
    match json.get "d" with
    | some d => some ((d.get "results").getD d)
    | none => json.get "value"
  candidate.bind Json.asArray

/-- `next_link`: the first of the three places that has anything, if it is a string. -/
def nextLink (json : Json) : Option String :=
  ((((json.get "d").bind (·.get "__next")).or (json.get "__next")).or (json.get "@odata.nextLink")).bind Json.asStr

def decodeEntitySetPage (json : Json) : Option (Option String) := do
  let rows ← locateResults json
  if rows.all Json.isObject && x.fits rows then some (nextLink json) else none

/-- The loop of `execute`; `next` is the URL of the page, but for the first. -/
def fetchFrom : Nat → Nat → Option String → List (Fetch L)
  | 0, _, _ => []
  | fuel + 1, page, next =>
    match L.parse (next.getD x.url) with
    | none => []
    | some base =>
      let u := if next.isNone then L.query base x.query else base
      match (replies.body page).bind x.decodeEntitySetPage with
      | none => [⟨⟨u, some x.auth.apply⟩, base, none⟩]
      | some link =>
        ⟨⟨u, some x.auth.apply⟩, base, link⟩ ::
          match link.bind (L.join base) with
          | some resolved => fetchFrom fuel (page + 1) (some (L.toText resolved))
          | none => []

def fetches : List (Fetch L) := x.fetchFrom replies maxPages 0 none

end OdataScan

/-! ## A scan follows its links -/

namespace Fetch

variable {L : UrlLibrary}

/-- The link of a page leads to no other origin than the page's. -/
def Stays (f : Fetch L) : Prop :=
  ∀ link v, f.link = some link → L.join f.base link = some v → L.origin v = L.origin f.base

/-- Pages of a scan that begins at a URL: each is where the link of the one before it leads. -/
inductive Trail : L.Url → List (Fetch L) → Prop
  | nil (u : L.Url) : Trail u []
  | last (f : Fetch L) : Trail f.base [f]
  | more {f g : Fetch L} {fs : List (Fetch L)} {link : String} {v : L.Url} (hlink : f.link = some link)
      (hjoin : L.join f.base link = some v) (h : Trail v (g :: fs)) : Trail f.base (f :: g :: fs)

theorem Trail.cons {f fs link v} (hlink : f.link = some link)
    (hjoin : L.join f.base link = some v) (h : Trail v fs) : Trail f.base (f :: fs) := by
  cases fs with
  | nil => exact .last f
  | cons g fs => exact .more hlink hjoin h

theorem Trail.head {u f} {fs : List (Fetch L)} (h : Trail u (f :: fs)) : f.base = u := by
  cases h <;> rfl

/-- The links that were followed stay, each where it was found, iff all pages are where the first is. -/
theorem Trail.stays_iff {u} {fs : List (Fetch L)} (h : Trail u fs) :
    (∀ f ∈ fs, L.origin f.base = L.origin u) ↔ ∀ f ∈ fs.dropLast, f.Stays := by
  induction h with
  | nil u => simp
  | last f => simp
  | @more f g fs link v hlink hjoin h ih =>
    have hs : f.Stays ↔ L.origin v = L.origin f.base := by
      refine ⟨fun hf => hf link v hlink hjoin, fun hv link' v' hlink' hjoin' => ?_⟩
      obtain rfl : link = link' := some.inj (hlink.symm.trans hlink')
      obtain rfl : v = v' := some.inj (hjoin.symm.trans hjoin')
      exact hv
    rw [dropLast_cons_cons]
    constructor
    · intro ha
      have hv : L.origin v = L.origin f.base := h.head ▸ ha g (by simp)
      refine forall_mem_cons.mpr ⟨hs.mpr hv, ih.mp fun f' hf' => ?_⟩
      exact (ha f' (mem_cons_of_mem f hf')).trans hv.symm
    · intro ha
      obtain ⟨hf, hr⟩ := forall_mem_cons.mp ha
      refine forall_mem_cons.mpr ⟨rfl, fun f' hf' => ?_⟩
      exact (ih.mpr hr f' hf').trans (hs.mp hf)

end Fetch

namespace RestScan

variable {L : UrlLibrary} (x : RestScan) (replies : Replies)

theorem credential_isSome {page credential}
    (h : x.credential replies page = some credential) : credential.isSome = (x.oauth || x.auth.apply.isSome) := by
  unfold RestScan.credential at h
  split_ifs at h with ho
  · obtain ⟨token, -, rfl⟩ := map_eq_some_iff.mp h
    simp [ho]
  · obtain rfl := some.inj h
    simp [ho]

theorem joinUrl_eq_some {base next url} (h : joinUrl L base next = some url) :
    ∃ u v, L.parse base = some u ∧ L.join u next = some v ∧ L.parse url = some v := by
  simp only [joinUrl, bind_eq_bind, bind_eq_some_iff] at h
  obtain ⟨u, hu, v, hv, hur⟩ := h
  obtain rfl := some.inj hur
  exact ⟨u, v, hu, hv, L.parse_toText v⟩

theorem nextUrl_eq_some {url url' page total rows next} (h : x.nextUrl L url page total rows next = some url') :
    ∃ link, next = some link ∧ joinUrl L url link = some url' := by
  cases next with
  | none => simp [nextUrl] at h
  | some link =>
    simp only [nextUrl] at h
    split_ifs at h
    exact ⟨link, rfl, h⟩

theorem trail_fetchFrom (fuel page total) {url u} (hu : L.parse url = some u) :
    Fetch.Trail u (x.fetchFrom L replies fuel page url total) ∧ ∀ f ∈ x.fetchFrom L replies fuel page url total,
      L.origin f.request.url = L.origin f.base ∧ f.request.credential.isSome = (x.oauth || x.auth.apply.isSome) := by
  induction fuel generalizing page total url u with
  | zero => exact ⟨.nil u, nofun⟩
  | succ fuel ih =>
    rw [fetchFrom, hu]
    cases hc : x.credential replies page with
    | none => exact ⟨.nil u, nofun⟩
    | some credential =>
      have hh := credential_isSome x replies hc
      simp only
      cases hbody : (replies.body page).bind x.decodeJsonPage with
      | none => exact ⟨.last ⟨_, u, none⟩, by simp [hh]⟩
      | some decoded =>
        obtain ⟨rows, next⟩ := decoded
        simp only
        cases hn : x.nextUrl L url page total rows next with
        | none => exact ⟨.last ⟨_, u, next⟩, by simp [hh]⟩
        | some url' =>
          obtain ⟨link, rfl, hjoin⟩ := nextUrl_eq_some x hn
          obtain ⟨u', v, hu', hv, hur'⟩ := joinUrl_eq_some hjoin
          obtain rfl : u = u' := some.inj (hu.symm.trans hu')
          obtain ⟨ht, hr⟩ := ih (page + 1) (total + rows) hur'
          exact ⟨.cons (f := ⟨_, u, some link⟩) rfl hv ht, forall_mem_cons.mpr ⟨⟨rfl, hh⟩, hr⟩⟩

theorem origin_urlWithPushdown {url} (h : x.urlWithPushdown L = some url) :
    (L.parse url).map L.origin = (L.parse x.configured).map L.origin := by
  unfold urlWithPushdown at h
  split_ifs at h with hpushed
  · rw [some.inj h]
  · simp only [bind_eq_bind, bind_eq_some_iff] at h
    obtain ⟨u, hu, hur⟩ := h
    rw [← some.inj hur, L.parse_toText, hu, map_some, map_some, L.origin_setQueryPairs]

end RestScan

namespace OdataScan

variable {L : UrlLibrary} (x : OdataScan L) (replies : Replies)

theorem trail_fetchFrom (fuel page next) {u}
    (hu : L.parse (next.getD x.url) = some u) : Fetch.Trail u (x.fetchFrom replies fuel page next) ∧
      ∀ f ∈ x.fetchFrom replies fuel page next,
        L.origin f.request.url = L.origin f.base ∧ f.request.credential.isSome = true := by
  induction fuel generalizing page next u with
  | zero => exact ⟨.nil u, nofun⟩
  | succ fuel ih =>
    have hh : L.origin (if next.isNone then L.query u x.query else u) = L.origin u := by
      split_ifs
      · exact L.origin_query u x.query
      · rfl
    rw [fetchFrom, hu]
    simp only
    cases hbody : (replies.body page).bind x.decodeEntitySetPage with
    | none => exact ⟨.last ⟨_, u, none⟩, forall_mem_singleton.mpr ⟨hh, rfl⟩⟩
    | some link =>
      simp only
      cases hjoin : link.bind (L.join u) with
      | none => exact ⟨.last ⟨_, u, link⟩, forall_mem_singleton.mpr ⟨hh, rfl⟩⟩
      | some v =>
        obtain ⟨text, rfl, hv⟩ := bind_eq_some_iff.mp hjoin
        obtain ⟨ht, hr⟩ := ih (page + 1) (some (L.toText v)) (L.parse_toText v)
        exact ⟨.cons (f := ⟨_, u, some text⟩) rfl hv ht, forall_mem_cons.mpr ⟨⟨hh, rfl⟩, hr⟩⟩

end OdataScan

/-! ## Where the credential goes -/

inductive PagedSource (L : UrlLibrary)
  | rest (x : RestScan)
  | odata (x : OdataScan L)

namespace PagedSource

variable {L : UrlLibrary}

def configured : PagedSource L → String
  | rest x => x.configured
  | odata x => x.serviceUrl

/-- Static credentials, or OAuth 2.0. -/
def authenticates : PagedSource L → Bool
  | rest x => x.oauth || x.auth.apply.isSome
  | odata _ => true

def fetches : PagedSource L → Replies → List (Fetch L)
  | rest x => x.fetches L
  | odata x => x.fetches

variable (s : PagedSource L) (replies : Replies)

/-- A scan that requests anything begins at the configured origin. -/
theorem exists_trail : s.fetches replies = [] ∨ ∃ u, (Fetch.Trail u (s.fetches replies) ∧ ∀ f ∈ s.fetches replies,
      L.origin f.request.url = L.origin f.base ∧ f.request.credential.isSome = s.authenticates) ∧
      (L.parse s.configured).map L.origin = some (L.origin u) := by
  cases s with
  | rest x =>
    cases hur : x.urlWithPushdown L with
    | none => exact .inl (by simp [fetches, RestScan.fetches, hur])
    | some url =>
      have ho := x.origin_urlWithPushdown hur
      cases hu : L.parse url with
      | none => exact .inl (by simp [fetches, RestScan.fetches, hur, RestScan.maxPages, RestScan.fetchFrom, hu])
      | some u =>
        refine .inr ⟨u, ?_, ?_⟩
        · simpa only [fetches, RestScan.fetches, hur, authenticates] using x.trail_fetchFrom replies RestScan.maxPages 0 0 hu
        · rw [configured, ← ho, hu, map_some]
  | odata x =>
    cases hu : L.parse x.url with
    | none => exact .inl (by simp [fetches, OdataScan.fetches, OdataScan.maxPages, OdataScan.fetchFrom, hu])
    | some u =>
      obtain ⟨service, hs⟩ := x.valid
      refine .inr ⟨u, x.trail_fetchFrom replies OdataScan.maxPages 0 none hu, ?_⟩
      rw [configured, hs, map_some, L.origin_below hs hu]

/-- Credentials are sent to the configured origin only, iff no link that the scan follows leads to
another origin than that of the page it is on. -/
theorem credential_at_origin_iff (L : UrlLibrary) (s : PagedSource L) (replies : Replies) :
    (∀ f ∈ s.fetches replies, f.request.credential.isSome = true →
        (L.parse s.configured).map L.origin = some (L.origin f.request.url)) ↔
      s.authenticates = false ∨ ∀ f ∈ (s.fetches replies).dropLast, f.Stays := by
  rcases s.exists_trail replies with hn | ⟨u, ⟨ht, hfe⟩, hu⟩
  · simp [hn]
  · cases ha : s.authenticates with
    | false =>
      refine iff_of_true (fun f hf hc => ?_) (.inl rfl)
      rw [(hfe f hf).2, ha] at hc
      cases hc
    | true =>
      rw [← ht.stays_iff, hu]
      simp only [reduceCtorEq, false_or, Option.some.injEq]
      refine forall₂_congr fun f hf => ?_
      obtain ⟨hur, hc⟩ := hfe f hf
      rw [hc, ha, hur]
      simp only [forall_const, eq_comm]

/-! ## A link to somewhere else -/

/-- Up to the path or the query. -/
def isHostChar (c : Char) : Bool := c != '/' && c != '?'

theorem takeWhile_before {p c} (hc : p c = false) (s t : List Char) : (s ++ c :: t).takeWhile p = s.takeWhile p := by
  induction s with
  | nil => simp [hc]
  | cons d s ih => simp only [cons_append, takeWhile_cons, ih]

theorem takeWhile_path (s : List Char) : (s.takeWhile (· != '?')).takeWhile isHostChar = s.takeWhile isHostChar := by
  rw [takeWhile_takeWhile]
  congr 1
  funext c
  simp only [isHostChar, Bool.and_eq_true, bne_iff_ne]
  grind

/-- URLs `https://host/path?query`, known by what is behind the scheme. A link that is not one of
them is a path on the same host. -/
def httpsUrls : UrlLibrary where
  Url := List Char
  parse s := if "https://".toList.isPrefixOf s.toList then some (s.toList.drop 8) else none
  toText u := String.ofList ("https://".toList ++ u)
  origin u := ⟨"https", String.ofList (u.takeWhile isHostChar), 443⟩
  join u link :=
    if "https://".toList.isPrefixOf link.toList then some (link.toList.drop 8)
    else some (u.takeWhile isHostChar ++ '/' :: link.toList)
  queryPairs _ := []
  setQueryPairs u pairs := u.takeWhile (· != '?') ++ '?' :: pairs.flatMap fun p => (p.1 ++ "=" ++ p.2 ++ "&").toList
  query u pairs := u.takeWhile (· != '?') ++ '?' :: pairs.flatMap fun p => (p.1 ++ "=" ++ p.2 ++ "&").toList
  parse_toText u := by
    have h8 : "https://".toList.length = 8 := by decide
    simp only [String.toList_ofList]
    rw [if_pos (by simp), ← h8, List.drop_left]
  join_absolute h := by
    split_ifs at h with hs
    rw [if_pos hs]
    exact h
  origin_setQueryPairs u pairs := by rw [takeWhile_before (by decide), takeWhile_path]
  origin_query u pairs := by rw [takeWhile_before (by decide), takeWhile_path]
  origin_below := by
    intro root path u v hu hv
    split_ifs at hu hv with hroot hbelow
    obtain ⟨tail, htail⟩ := List.isPrefixOf_iff_prefix.mp hroot
    have h8 : "https://".toList.length = 8 := by decide
    have hv' : v = u ++ '/' :: path.toList := by
      rw [← Option.some.inj hv, ← Option.some.inj hu, ← h8]
      simp only [String.toList_append, ← htail, List.append_assoc, List.drop_left]
      rfl
    rw [hv', takeWhile_before (by decide)]

/-- A table at `api.example`, with a static token. -/
def items : PagedSource httpsUrls :=
  .rest
    { configured := "https://api.example/items"
      pushed := []
      recordsPath := "records"
      auth := .bearer "secret"
      oauth := false
      nextPath := some "next"
      limit := none
      fits := fun _ => true }

/-- The first page names a page on another host. -/
def elsewhere : Replies where
  bearer _ := none
  body page :=
    if page = 0 then some (.object [("records", .array []), ("next", .string "https://other.example/")]) else none

/-- The token goes along. -/
theorem token_sent_elsewhere :
    (items.fetches elsewhere).map (fun f => ((httpsUrls.origin f.request.url).host, f.request.credential)) =
        [("api.example", some (.bearer "secret")), ("other.example", some (.bearer "secret"))] ∧
      ¬∀ f ∈ items.fetches elsewhere, f.request.credential.isSome = true →
        (httpsUrls.parse items.configured).map httpsUrls.origin = some (httpsUrls.origin f.request.url) := by
  decide +kernel

end PagedSource

end Dataglot
