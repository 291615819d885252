import ProfiNotifications.AuthWorker.Token

/-! # Browser cookie exports

The format in which browsers export cookies, and its relation to the cookies of a jar.
Reading an entry drops it when it has no name and fills in the default domain and path;
an export lists the cookies of a jar in a sorted order.
-/

namespace ProfiNotifications.AuthWorker

def defaultURL : String := "https://profi.ru"

def defaultDomain : String := ".profi.ru"

def defaultPath : String := "/"

def defaultStore : String := "0"

def orDefault (value fallback : String) : String := if value = "" then fallback else value

structure BrowserCookie where
  domain : String
  hostOnly : Bool
  httpOnly : Bool
  name : String
  path : String
  sameSite : String
  secure : Bool
  session : Bool
  storeId : String
  value : String
  expirationDate : Option ℚ
  deriving DecidableEq, Repr

structure BrowserExport where
  url : String
  cookies : List BrowserCookie
  deriving DecidableEq, Repr

/-- The lower case of a letter; other letters beyond ASCII have no ASCII lower case. -/
def toLower (c : Char) : Char :=
  if c.toNat = 0x130 then 'i' else if c.toNat = 0x212A then 'k' else c.toLower

def sameSiteFromBrowser (value : String) : SameSite :=
  let lower := String.ofList (value.toList.map toLower)
  if lower = "no_restriction" ∨ lower = "none" then .none
  else if lower = "lax" then .lax
  else if lower = "strict" then .strict
  else .unspecified

def sameSiteToBrowser : SameSite → String
  | .none => "no_restriction"
  | .lax => "lax"
  | .strict => "strict"
  | .unspecified => "unspecified"

namespace BrowserCookie

/-- The cookie that an entry describes, unless it has no name. -/
def toDomain (b : BrowserCookie) : Option Cookie :=
  if b.name = "" then none
  else some
    { name := b.name
      value := b.value
      domain := orDefault b.domain defaultDomain
      path := orDefault b.path defaultPath
      secure := b.secure
      httpOnly := b.httpOnly
      hostOnly := b.hostOnly
      session := b.session
      sameSite := sameSiteFromBrowser b.sameSite
      expiresAt := if b.session then 0 else (b.expirationDate.map Unmarshal.toInt64).getD 0 }

def members (b : BrowserCookie) : List (String × Json) :=
  [("domain", .str b.domain), ("hostOnly", .bool b.hostOnly), ("httpOnly", .bool b.httpOnly),
    ("name", .str b.name), ("path", .str b.path), ("sameSite", .str b.sameSite),
    ("secure", .bool b.secure), ("session", .bool b.session), ("storeId", .str b.storeId),
    ("value", .str b.value)] ++ Json.present "expirationDate" Unmarshal.number b.expirationDate

def toJson (b : BrowserCookie) : Json := .obj b.members

open Unmarshal in
def read (ms : List (String × Json)) : Option BrowserCookie := do
  let domain ← field ms "domain" "" string
  let hostOnly ← field ms "hostOnly" false bool
  let httpOnly ← field ms "httpOnly" false bool
  let name ← field ms "name" "" string
  let path ← field ms "path" "" string
  let sameSite ← field ms "sameSite" "" string
  let secure ← field ms "secure" false bool
  let session ← field ms "session" false bool
  let storeId ← field ms "storeId" "" string
  let value ← field ms "value" "" string
  let expirationDate ← field ms "expirationDate" none float64Pointer
  return ⟨domain, hostOnly, httpOnly, name, path, sameSite, secure, session, storeId, value,
    expirationDate⟩

def lessByLocation (a b : BrowserCookie) : Bool :=
  if a.domain ≠ b.domain then a.domain < b.domain
  else if a.path ≠ b.path then a.path < b.path
  else a.name < b.name

theorem nodup_members (b : BrowserCookie) :
    (b.members.map fun m => Unmarshal.foldName m.1).Nodup := by
  have h : (["domain", "hostOnly", "httpOnly", "name", "path", "sameSite", "secure", "session",
      "storeId", "value", "expirationDate"].map Unmarshal.foldName).Nodup := by decide
  unfold members
  cases b.expirationDate with
  | none => exact h.sublist (List.sublist_append_left _ [Unmarshal.foldName "expirationDate"])
  | some x => exact h

theorem read_members (b : BrowserCookie) : read b.members = some b := by
  have hs : ∀ {name s : String}, (name, Json.str s) ∈ b.members →
      Unmarshal.field b.members name "" Unmarshal.string = some s :=
    fun h => Unmarshal.field_of_mem b.nodup_members h rfl
  have hb : ∀ {name : String} {x : Bool}, (name, Json.bool x) ∈ b.members →
      Unmarshal.field b.members name false Unmarshal.bool = some x :=
    fun h => Unmarshal.field_of_mem b.nodup_members h rfl
  have he : Unmarshal.field b.members "expirationDate" none Unmarshal.float64Pointer =
      some b.expirationDate := by
    cases h : b.expirationDate with
    | none =>
      have hn : Unmarshal.foldName "expirationDate" ∉ ["domain", "hostOnly", "httpOnly", "name",
          "path", "sameSite", "secure", "session", "storeId", "value"].map Unmarshal.foldName := by
        decide
      apply Unmarshal.field_of_not_mem
      rw [members, h]
      exact hn
    | some x =>
      refine Unmarshal.field_of_mem b.nodup_members (j := Unmarshal.number x) ?_
        (Unmarshal.float64Pointer_number none x)
      simp [members, h, Json.present]
  rw [read, hs (s := b.domain) (by simp [members]), hb (x := b.hostOnly) (by simp [members]),
    hb (x := b.httpOnly) (by simp [members]), hs (s := b.name) (by simp [members]),
    hs (s := b.path) (by simp [members]), hs (s := b.sameSite) (by simp [members]),
    hb (x := b.secure) (by simp [members]), hb (x := b.session) (by simp [members]),
    hs (s := b.storeId) (by simp [members]), hs (s := b.value) (by simp [members]), he]
  rfl

theorem decode_toJson (b : BrowserCookie) : Unmarshal.struct read b.toJson = some b :=
  b.read_members

end BrowserCookie

/-- What an export takes from the language: the sort of slices, and the conversion of an
integer to a floating-point number, which is whole again. -/
structure Exporter where
  sort : SortSlice
  float64 : Int64 → ℤ

namespace Exporter

variable (x : Exporter)

def browserCookieFrom (cookie : Cookie) : BrowserCookie :=
  let session := cookie.isSession
  { domain := cookie.domain
    hostOnly := cookie.hostOnly
    httpOnly := cookie.httpOnly
    name := cookie.name
    path := orDefault cookie.path defaultPath
    sameSite := sameSiteToBrowser cookie.sameSite
    secure := cookie.secure
    session := session
    storeId := defaultStore
    value := cookie.value
    expirationDate :=
      if !session ∧ cookie.expiresAt ≠ 0 then some (x.float64 cookie.expiresAt) else none }

def exportFrom (j : Jar) (url : String) : BrowserExport :=
  ⟨url, x.sort.run BrowserCookie.lessByLocation (j.cookies.map x.browserCookieFrom)⟩

end Exporter

namespace BrowserExport

def members (b : BrowserExport) : List (String × Json) :=
  [("url", .str b.url), ("cookies", .arr (b.cookies.map BrowserCookie.toJson))]

def toJson (b : BrowserExport) : Json := .obj b.members

end BrowserExport

def jarFromExport (b : BrowserExport) : Jar :=
  .newJar (b.cookies.filterMap BrowserCookie.toDomain)

/-- A cookie as it comes back from an export. -/
def Exporter.reloaded (x : Exporter) (cookie : Cookie) : Option Cookie :=
  (x.browserCookieFrom cookie).toDomain

def Exporter.reload (x : Exporter) (j : Jar) (url : String) : Jar :=
  jarFromExport (x.exportFrom j url)

/-- A cookie that an export can tell from every other cookie. -/
structure Cookie.Normal (c : Cookie) : Prop where
  name_ne : c.name ≠ ""
  domain_ne : c.domain ≠ ""
  path_ne : c.path ≠ ""

theorem orDefault_of_ne {value : String} (h : value ≠ "") (fallback : String) :
    orDefault value fallback = value := if_neg h

theorem orDefault_ne {fallback : String} (h : fallback ≠ "") (value : String) :
    orDefault value fallback ≠ "" := by
  unfold orDefault
  split
  exacts [h, ‹_›]

theorem normal_of_toDomain {b : BrowserCookie} {c : Cookie} (h : b.toDomain = some c) :
    c.Normal := by
  unfold BrowserCookie.toDomain at h
  split at h
  · cases h
  · rename_i hn
    obtain rfl := Option.some.inj h
    exact ⟨hn, orDefault_ne (by decide) _, orDefault_ne (by decide) _⟩

variable {x : Exporter} {c d : Cookie}

theorem reloaded_eq_some (h : x.reloaded c = some d) :
    d.name = c.name ∧ d.value = c.value ∧ d.domain = orDefault c.domain defaultDomain ∧
      d.path = orDefault (orDefault c.path defaultPath) defaultPath := by
  unfold Exporter.reloaded BrowserCookie.toDomain at h
  split at h
  · cases h
  · obtain rfl := Option.some.inj h
    exact ⟨rfl, rfl, rfl, rfl⟩

theorem exists_reloaded (h : c.name ≠ "") : ∃ d, x.reloaded c = some d :=
  ⟨_, if_neg h⟩

theorem identity_of_reloaded (hc : c.Normal) (h : x.reloaded c = some d) :
    d.identity = c.identity := by
  obtain ⟨hname, -, hdomain, hpath⟩ := reloaded_eq_some h
  rw [orDefault_of_ne hc.domain_ne] at hdomain
  rw [orDefault_of_ne hc.path_ne, orDefault_of_ne hc.path_ne] at hpath
  simp only [Cookie.identity, hname, hdomain, hpath]

theorem exists_toDomain_of_mem_jarFromExport {b : BrowserExport}
    (h : c ∈ (jarFromExport b).cookies) : ∃ item ∈ b.cookies, item.toDomain = some c := by
  rw [jarFromExport, Jar.cookies_newJar] at h
  rcases Keyed.mem_or_mem_of_mem_overlay h with h | h
  · exact absurd h List.not_mem_nil
  · exact List.mem_filterMap.mp h

section Reload

variable {j : Jar} {url : String} {name : String}

variable (x) in
theorem perm_reloaded (j : Jar) (url : String) :
    ((x.exportFrom j url).cookies.filterMap BrowserCookie.toDomain).Perm
      (j.cookies.filterMap x.reloaded) := by
  have h := (x.sort.perm BrowserCookie.lessByLocation
    (j.cookies.map x.browserCookieFrom)).filterMap BrowserCookie.toDomain
  rwa [List.filterMap_map] at h

theorem mem_of_mem_reload (h : d ∈ (x.reload j url).cookies) :
    ∃ c ∈ j.cookies, x.reloaded c = some d := by
  rw [Exporter.reload, jarFromExport, Jar.cookies_newJar] at h
  rcases Keyed.mem_or_mem_of_mem_overlay h with h | h
  · exact absurd h List.not_mem_nil
  · exact List.mem_filterMap.mp ((perm_reloaded x j url).mem_iff.mp h)

theorem exists_mem_reload (h : c ∈ j.cookies) (hd : x.reloaded c = some d) :
    ∃ d' ∈ (x.reload j url).cookies, d'.identity = d.identity := by
  have hm : d ∈ (x.exportFrom j url).cookies.filterMap BrowserCookie.toDomain :=
    (perm_reloaded x j url).mem_iff.mpr (List.mem_filterMap.mpr ⟨c, h, hd⟩)
  rw [Exporter.reload, jarFromExport, Jar.cookies_newJar]
  refine List.mem_map.mp (Keyed.mem_keys_overlay.mpr (Or.inr ?_))
  exact List.mem_map_of_mem hm

/-- The copies of a cookie name keep apart when they are reloaded. -/
def KeepApart (x : Exporter) (j : Jar) (name : String) : Prop :=
  ∀ c ∈ j.cookies, ∀ c' ∈ j.cookies, c.name = name → c'.name = name →
    ∀ d d', x.reloaded c = some d → x.reloaded c' = some d' →
      d.identity = d'.identity → c = c'

theorem keepApart_of_normal (h : ∀ c ∈ j.cookies, c.Normal) (name : String) :
    KeepApart x j name := by
  intro c hc c' hc' _ _ d d' hd hd' he
  rw [identity_of_reloaded (h c hc) hd, identity_of_reloaded (h c' hc') hd'] at he
  exact Keyed.eq_of_key_eq j.nodup hc hc' he

theorem keepApart_of_single (h : j.cookies.filter (fun d => d.name = name) = [c]) :
    KeepApart x j name := by
  have hm : ∀ d ∈ j.cookies, d.name = name → d = c := by
    intro d hd hn
    have : d ∈ j.cookies.filter (fun d => d.name = name) := by simp [hd, hn]
    rwa [h, List.mem_singleton] at this
  intro d hd d' hd' hn hn' _ _ _ _ _
  rw [hm d hd hn, hm d' hd' hn']

variable {codec : TokenCodec}

theorem expirations_reload_subset (name : String) :
    codec.expirations (x.reload j url) name ⊆ codec.expirations j name := by
  rintro e ⟨d, hd, hname, hn, he⟩
  obtain ⟨c, hc, hr⟩ := mem_of_mem_reload hd
  obtain ⟨hname', hvalue, -⟩ := reloaded_eq_some hr
  exact ⟨c, hc, hname'.symm.trans hname, hn, hvalue ▸ he⟩

/-- Copies that keep apart come back with all their expiries. -/
theorem expirations_reload (h : KeepApart x j name) :
    codec.expirations (x.reload j url) name = codec.expirations j name := by
  apply (expirations_reload_subset name).antisymm
  rintro e ⟨c, hc, rfl, hn, he⟩
  have hne : c.name ≠ "" := by
    rintro h0
    rw [h0] at hn
    revert hn
    decide
  obtain ⟨d, hd⟩ := exists_reloaded hne
  obtain ⟨d', hm, hid⟩ := exists_mem_reload hc hd
  obtain ⟨c', hc', hd'⟩ := mem_of_mem_reload hm
  have hname : d'.name = c.name := by
    have h1 : d'.name = d.name := congrArg Prod.fst hid
    exact h1.trans (reloaded_eq_some hd).1
  have hcc : c' = c :=
    h c' hc' c hc ((reloaded_eq_some hd').1.symm.trans hname) rfl d' d hd' hd hid
  subst hcc
  exact ⟨d', hm, hname, hn, (reloaded_eq_some hd').2.1 ▸ he⟩

theorem filter_reloaded (l : List Cookie) (name : String) :
    (l.filterMap x.reloaded).filter (fun d => d.name = name) =
      (l.filter fun d => d.name = name).filterMap x.reloaded := by
  induction l with
  | nil => rfl
  | cons c l ih =>
    cases h : x.reloaded c with
    | none =>
      rw [List.filterMap_cons_none h, ih]
      by_cases hc : c.name = name <;> simp [hc, h]
    | some d =>
      have hn := (reloaded_eq_some h).1
      rw [List.filterMap_cons_some h]
      by_cases hc : c.name = name <;> simp [hc, hn, h, ih]

theorem filter_reload (hne : name ≠ "")
    (h : j.cookies.filter (fun d => d.name = name) = [c]) :
    ∃ d, (x.reload j url).cookies.filter (fun d => d.name = name) = [d] := by
  have hc : c ∈ j.cookies.filter (fun d => d.name = name) := h ▸ List.mem_singleton_self c
  have hname : c.name = name := by simpa using (List.mem_filter.mp hc).2
  obtain ⟨d, hd⟩ : ∃ d, x.reloaded c = some d := exists_reloaded (hname ▸ hne)
  have hp := (perm_reloaded x j url).filter fun d => d.name = name
  rw [filter_reloaded, h, List.filterMap_cons_some hd, List.filterMap_nil,
    List.perm_singleton] at hp
  refine ⟨d, ?_⟩
  rw [Exporter.reload, jarFromExport, Jar.cookies_newJar, Keyed.filter_overlay, hp]
  · rfl
  · intro c c' hk
    have hk' : c.name = c'.name := congrArg Prod.fst hk
    rw [hk']

end Reload

end ProfiNotifications.AuthWorker
