import Mathlib.Data.Prod.Lex
import ProfiNotifications.Foundations.Transition
import ProfiNotifications.AuthWorker.Duplicates
import ProfiNotifications.AuthWorker.Served

/-! # The cookie file, written and read back

A jar that was loaded, and then only changed by the worker, goes through the cookie file
without loss: what is saved is loaded with the same address and the same cookies, and
saving that again writes the same contents.
-/

namespace ProfiNotifications.AuthWorker

variable {Bytes : Type} {codec : TokenCodec} {j j' : Jar} {url : String} {c d : Cookie}

/-- Cookies that agree in all fields and in whether they end with the session. -/
structure Cookie.Same (c d : Cookie) : Prop where
  name : d.name = c.name
  value : d.value = c.value
  domain : d.domain = c.domain
  path : d.path = c.path
  secure : d.secure = c.secure
  httpOnly : d.httpOnly = c.httpOnly
  hostOnly : d.hostOnly = c.hostOnly
  sameSite : d.sameSite = c.sameSite
  expiresAt : d.expiresAt = c.expiresAt
  isSession : d.isSession = c.isSession

/-- The cookie with a session flag that also covers a missing expiry. -/
def Cookie.settled (c : Cookie) : Cookie := { c with session := c.isSession }

@[simp] theorem Cookie.identity_settled (c : Cookie) : c.settled.identity = c.identity := rfl

@[simp] theorem Cookie.isSession_settled (c : Cookie) : c.settled.isSession = c.isSession := by
  unfold isSession settled isSession
  grind

theorem Cookie.same_settled (c : Cookie) : c.Same c.settled :=
  ⟨rfl, rfl, rfl, rfl, rfl, rfl, rfl, rfl, rfl, c.isSession_settled⟩

/-- A cookie that the cookie file can hold. -/
structure Cookie.Storable (c : Cookie) : Prop extends c.Normal where
  expiresAt_eq : c.session = true → c.expiresAt = 0

theorem sameSiteFromBrowser_toBrowser (s : SameSite) :
    sameSiteFromBrowser (sameSiteToBrowser s) = s := by
  cases s <;> decide

theorem storable_of_toDomain {b : BrowserCookie} (h : b.toDomain = some c) : c.Storable where
  toNormal := normal_of_toDomain h
  expiresAt_eq := by
    unfold BrowserCookie.toDomain at h
    split at h
    · cases h
    · obtain rfl := Option.some.inj h
      exact fun hs => if_pos hs

theorem storable_domainCookie {now : Int64} {c : HttpCookie} (h : c.name ≠ "") :
    (domainCookie now c).Storable where
  name_ne := h
  domain_ne := orDefault_ne (by decide) _
  path_ne := orDefault_ne (by decide) _
  expiresAt_eq := by
    intro hs
    obtain ⟨hage, hexpires⟩ := of_decide_eq_true hs
    simp [domainCookie, hage, hexpires]

section Entries

variable {x : Exporter}

theorem reloaded_of_storable (hx : ∀ n, x.float64 n = n.toInt) (h : c.Storable) :
    x.reloaded c = some c.settled := by
  have hexpires : (if c.isSession then 0 else ((if !c.isSession ∧ c.expiresAt ≠ 0 then
      some (x.float64 c.expiresAt : ℚ) else none).map Unmarshal.toInt64).getD 0) =
        c.expiresAt := by
    cases hs : c.isSession with
    | true =>
      have hzero : c.session = true ∨ c.expiresAt = 0 := by simpa [Cookie.isSession] using hs
      exact (hzero.elim h.expiresAt_eq id).symm
    | false =>
      have hne : c.expiresAt ≠ 0 := by
        intro h0
        simp [Cookie.isSession, h0] at hs
      simp [hne, hx, Unmarshal.toInt64_toInt]
  simp only [Exporter.reloaded, Exporter.browserCookieFrom, BrowserCookie.toDomain,
    if_neg h.name_ne, orDefault_of_ne h.domain_ne, orDefault_of_ne h.path_ne,
    sameSiteFromBrowser_toBrowser, Cookie.settled, Option.some.injEq, Cookie.mk.injEq, true_and]
  exact hexpires

@[simp] theorem browserCookieFrom_settled (x : Exporter) (c : Cookie) :
    x.browserCookieFrom c.settled = x.browserCookieFrom c := by
  simp only [Exporter.browserCookieFrom, Cookie.isSession_settled]
  rfl

def BrowserCookie.location (b : BrowserCookie) : String ×ₗ String ×ₗ String :=
  toLex (b.domain, toLex (b.path, b.name))

theorem lessByLocation_iff (a b : BrowserCookie) :
    a.lessByLocation b = true ↔ a.location < b.location := by
  simp only [BrowserCookie.location, Prod.Lex.toLex_lt_toLex, BrowserCookie.lessByLocation]
  grind

theorem location_browserCookieFrom (h : c.Storable) :
    (x.browserCookieFrom c).location = toLex (c.domain, toLex (c.path, c.name)) := by
  simp only [BrowserCookie.location, Exporter.browserCookieFrom, orDefault_of_ne h.path_ne]

theorem nodup_location (x : Exporter) (h : ∀ c ∈ j.cookies, c.Storable) :
    ((j.cookies.map x.browserCookieFrom).map BrowserCookie.location).Nodup := by
  rw [List.map_map]
  apply List.Nodup.map_on _ j.nodup.of_map
  intro c hc d hd he
  simp only [Function.comp_apply, location_browserCookieFrom (h c hc),
    location_browserCookieFrom (h d hd), toLex_inj, Prod.mk.injEq] at he
  obtain ⟨hdomain, hpath, hname⟩ := he
  apply Keyed.eq_of_key_eq j.nodup hc hd
  simp only [Cookie.identity, hdomain, hpath, hname]

/-- The export does not depend on the order of the jar or on settled session flags. -/
theorem exportFrom_of_perm (x : Exporter) (h : ∀ c ∈ j.cookies, c.Storable)
    (hp : j'.cookies.Perm (j.cookies.map Cookie.settled)) (url : String) :
    x.exportFrom j' url = x.exportFrom j url := by
  have hentries : (j.cookies.map x.browserCookieFrom).Perm
      (j'.cookies.map x.browserCookieFrom) := by
    have hm := (hp.map x.browserCookieFrom).symm
    rw [List.map_map] at hm
    simpa only [Function.comp_def, browserCookieFrom_settled] using hm
  rw [Exporter.exportFrom, Exporter.exportFrom]
  congr 1
  exact (x.sort.run_eq_of_perm lessByLocation_iff (nodup_location x h) hentries).symm

theorem perm_reload (hx : ∀ n, x.float64 n = n.toInt) (h : ∀ c ∈ j.cookies, c.Storable)
    (url : String) : (x.reload j url).cookies.Perm (j.cookies.map Cookie.settled) := by
  have hsettled : j.cookies.filterMap x.reloaded = j.cookies.map Cookie.settled := by
    rw [← List.filterMap_eq_map]
    exact List.filterMap_congr fun c hc => reloaded_of_storable hx (h c hc)
  have hp := perm_reloaded x j url
  rw [hsettled] at hp
  have hn : (((x.exportFrom j url).cookies.filterMap BrowserCookie.toDomain).map
      Cookie.identity).Nodup := by
    apply (hp.map Cookie.identity).nodup_iff.mpr
    rw [List.map_map]
    exact j.nodup
  rw [Exporter.reload, jarFromExport, Jar.cookies_newJar,
    Keyed.overlay_of_fresh hn fun k _ => List.not_mem_nil, List.nil_append]
  exact hp

end Entries

inductive SessionOp (Bytes : Type) where
  | mergeResponseCookies (clock : ℕ → Int64) (response : Response)
  | removeOldTokenDuplicates
  | saveAndLoad (outcome : WriteOutcome Bytes) (dir : Directory Bytes)

/-- The cookies of a response have names, as those that the HTTP library reads do. -/
def SessionOp.Admissible : SessionOp Bytes → Prop
  | mergeResponseCookies _ response => ∀ c ∈ response.cookies, c.name ≠ ""
  | _ => True

namespace Store

variable (store : Store Bytes) (codec : TokenCodec)

/-- One operation on a jar with its address; saving and loading may fail. -/
def perform (s : Jar × String) : SessionOp Bytes → Option (Jar × String)
  | .mergeResponseCookies clock response =>
    some (AuthWorker.mergeResponseCookies clock s.1 response, s.2)
  | .removeOldTokenDuplicates => some (codec.kept s.1, s.2)
  | .saveAndLoad outcome dir =>
    match store.save outcome s.1 s.2 dir with
    | (.ok (), dir') => (store.load dir'.file).toOption
    | (.error _, _) => none

def Reachable (file : FileState Bytes) (s : Jar × String) : Prop :=
  ∃ s₀, store.load file = .ok s₀ ∧
    Transition.Reach (store.perform codec) (fun _ op => op.Admissible) s₀ s

/-- What the cookie file keeps of a jar. -/
structure Restored (j : Jar) (url : String) (j' : Jar) : Prop where
  cookies : ∃ l, j'.cookies.Perm l ∧ List.Forall₂ Cookie.Same j.cookies l
  distinct : j'.cookies.Pairwise fun c d => ¬ c.SameIdentity d
  latest : ∀ name e, (∃ t ∈ codec.latestTokens j', t.name = name ∧ t.expiration = e) ↔
    ∃ t ∈ codec.latestTokens j, t.name = name ∧ t.expiration = e
  lifetime : ∀ now, codec.tokenTTL j' now = codec.tokenTTL j now
  saved : store.saved j' url = store.saved j url

/-- The invariant of reachable jars. -/
structure Sound (s : Jar × String) : Prop where
  storable : ∀ c ∈ s.1.cookies, c.Storable
  nonempty : s.1.cookies ≠ []
  url_ne : s.2 ≠ ""

variable {store codec} {file : FileState Bytes} {s s' : Jar × String}

theorem url_ne_of_parseExport {data : Bytes} {b : BrowserExport}
    (h : store.parseExport data = .ok b) : b.url ≠ "" := by
  unfold parseExport at h
  split at h
  · cases h
  · split at h
    · cases h
    · unfold parseCookieArray at h
      split at h
      · cases h
      · obtain rfl := Except.ok.inj h
        exact (by decide : defaultURL ≠ "")
    · unfold parseCookieObject at h
      split at h
      · cases h
      · cases h
      · split at h
        · cases h
        · obtain rfl := Except.ok.inj h
          exact orDefault_ne (by decide) _

theorem sound_of_load (h : store.load file = .ok s) : Sound s := by
  obtain ⟨data, b, hparse, hjar, hurl, hne⟩ := exists_export_of_load h
  refine ⟨?_, hne, hurl ▸ url_ne_of_parseExport hparse⟩
  rw [← hjar]
  intro c hc
  obtain ⟨item, -, hitem⟩ := exists_toDomain_of_mem_jarFromExport hc
  exact storable_of_toDomain hitem

theorem Sound.mergeResponseCookies (h : Sound s) {clock : ℕ → Int64} {response : Response}
    (hr : ∀ c ∈ response.cookies, c.name ≠ "") :
    Sound (AuthWorker.mergeResponseCookies clock s.1 response, s.2) where
  storable c hc := by
    rw [AuthWorker.mergeResponseCookies, Jar.cookies_setAll] at hc
    rcases Keyed.mem_or_mem_of_mem_overlay hc with hc | hc
    · exact h.storable c hc
    · obtain ⟨i, hi, rfl⟩ := List.mem_mapIdx.mp hc
      exact storable_domainCookie (hr _ (List.getElem_mem hi))
  nonempty := by
    obtain ⟨c, hc⟩ := List.exists_mem_of_ne_nil _ h.nonempty
    have hk : c.identity ∈ (AuthWorker.mergeResponseCookies clock s.1 response).cookies.map
        Cookie.identity := by
      rw [AuthWorker.mergeResponseCookies, Jar.cookies_setAll]
      exact Keyed.mem_keys_overlay.mpr (Or.inl (List.mem_map_of_mem hc))
    intro h0
    rw [h0] at hk
    exact List.not_mem_nil hk
  url_ne := h.url_ne

theorem Sound.kept (h : Sound s) : Sound (codec.kept s.1, s.2) where
  storable c hc := h.storable c (TokenCodec.mem_kept.mp hc).1
  nonempty := by
    obtain ⟨c, hc⟩ := List.exists_mem_of_ne_nil _ h.nonempty
    cases hs : TokenCodec.isStaleDuplicate c (codec.latestTokens s.1) with
    | false => exact List.ne_nil_of_mem (TokenCodec.mem_kept.mpr ⟨hc, hs⟩)
    | true =>
      cases hl : Keyed.lookup TokenInfo.name (codec.latestTokens s.1) c.name with
      | none => simp [TokenCodec.isStaleDuplicate, hl] at hs
      | some t => exact List.ne_nil_of_mem (TokenCodec.cookie_mem_kept hl)
  url_ne := h.url_ne

theorem Sound.perform {op : SessionOp Bytes} (h : Sound s) (ho : op.Admissible)
    (hs : store.perform codec s op = some s') : Sound s' := by
  cases op with
  | mergeResponseCookies clock response =>
    obtain rfl := Option.some.inj hs
    exact h.mergeResponseCookies ho
  | removeOldTokenDuplicates =>
    obtain rfl := Option.some.inj hs
    exact h.kept
  | saveAndLoad outcome dir =>
    simp only [Store.perform] at hs
    split at hs
    · rename_i dir' _
      cases hl : store.load dir'.file with
      | error e => rw [hl] at hs; cases hs
      | ok s₁ =>
        rw [hl] at hs
        obtain rfl := Option.some.inj hs
        exact sound_of_load hl
    · cases hs

theorem Reachable.sound (h : store.Reachable codec file s) : Sound s := by
  obtain ⟨s₀, hload, hreach⟩ := h
  exact hreach.invariant (sound_of_load hload) fun _ _ _ _ hs ho hp => hs.perform ho hp

theorem save_of_no_fault {outcome : WriteOutcome Bytes} (h : outcome.fault = none) (j : Jar)
    (url : String) (dir : Directory Bytes) :
    (store.save outcome j url dir).1 = .ok () ∧
      (store.save outcome j url dir).2.file = .holds (store.saved j url) := by
  rw [save, write, h]
  exact ⟨rfl, WriteOutcome.file_remove _ _⟩

/-- The cookie file keeps sound jars. -/
theorem Sound.restored (h : Sound (j, url)) (hx : ∀ n, store.text.float64 n = n.toInt) :
    store.load (.holds (store.saved j url)) = .ok (store.text.reload j url, url) ∧
      Restored store codec j url (store.text.reload j url) := by
  have hp := perm_reload hx h.storable url
  have hne : (store.text.reload j url).cookies ≠ [] := by
    intro h0
    rw [h0, List.nil_perm, List.map_eq_nil_iff] at hp
    exact h.nonempty hp
  have hexp : ∀ name, codec.expirations (store.text.reload j url) name =
      codec.expirations j name := fun name =>
    expirations_reload (keepApart_of_normal (fun c hc => (h.storable c hc).toNormal) name)
  constructor
  · rw [load_saved hne, orDefault_of_ne h.url_ne]
  · exact
      { cookies := ⟨_, hp, List.forall₂_map_right_iff.mpr
          (List.forall₂_same.mpr fun c _ => c.same_settled)⟩
        distinct := (store.text.reload j url).pairwise_not_sameIdentity
        latest := fun name e => by
          rw [TokenCodec.exists_mem_latestTokens_iff, TokenCodec.exists_mem_latestTokens_iff, hexp]
        lifetime := TokenCodec.tokenTTL_congr hexp
        saved := by
          rw [saved, saved, exportFrom_of_perm store.text.toExporter h.storable hp url] }

/-- A jar that follows a load goes through the cookie file without loss. -/
theorem save_load_restores (hx : ∀ n, store.text.float64 n = n.toInt)
    (h : store.Reachable codec file (j, url)) {outcome : WriteOutcome Bytes}
    (ho : outcome.fault = none) (dir : Directory Bytes) :
    (store.save outcome j url dir).1 = .ok () ∧
      ∃ j', store.load (store.save outcome j url dir).2.file = .ok (j', url) ∧
        Restored store codec j url j' := by
  obtain ⟨hok, hfile⟩ := store.save_of_no_fault ho j url dir
  refine ⟨hok, store.text.reload j url, ?_⟩
  rw [hfile]
  exact h.sound.restored hx

def visited : Response :=
  { statusCode := 200, cookies := [{ name := "sid", value := "1", maxAge := 60 }] }

def undisturbed : WriteOutcome Json := ⟨none, true⟩

def visitedJar : Jar :=
  AuthWorker.mergeResponseCookies (fun _ => 50)
    (.newJar [{ Renewer.tokenAt ".profi.ru" "h.new.s" with session := false }]) visited

theorem save_load_restores_visited :
    (exampleReader.store.save undisturbed visitedJar defaultURL singleCopy).1 = .ok () ∧
      ∃ j', exampleReader.store.load
          (exampleReader.store.save undisturbed visitedJar defaultURL singleCopy).2.file =
            .ok (j', defaultURL) ∧
        exampleReader.store.Restored exampleReader.codec visitedJar defaultURL j' := by
  have hload : exampleReader.store.load singleCopy.file = .ok (_, defaultURL) := rfl
  have hnamed : ∀ c ∈ visited.cookies, c.name ≠ "" := by decide
  have hreach : exampleReader.store.Reachable exampleReader.codec singleCopy.file
      (visitedJar, defaultURL) :=
    ⟨_, hload, .tail (a := .mergeResponseCookies (fun _ => 50) visited) .refl hnamed rfl⟩
  exact save_load_restores (fun _ => rfl) hreach rfl singleCopy

end Store

end ProfiNotifications.AuthWorker
