import ProfiNotifications.AuthWorker.Served

/-! # Cookies that a response deletes

A server deletes a cookie by setting it with an age or an expiry in the past. The worker
merges such a cookie like any other: it takes the slot of the deleted cookie, and both
headers go on sending it.
-/

namespace ProfiNotifications.AuthWorker

variable {clock : ℕ → Int64} {j : Jar} {response : Response} {before after : List HttpCookie}
  {c : HttpCookie} {d : Cookie}

namespace HttpCookie

def identity (c : HttpCookie) : String × String × String :=
  (c.name, orDefault c.domain defaultDomain, orDefault c.path defaultPath)

@[simp] theorem identity_domainCookie (now : Int64) (c : HttpCookie) :
    (domainCookie now c).identity = c.identity := rfl

/-- The cookie is set in order to delete it: with a negative age, as the HTTP library reports
an age of zero too, or without an age and with an expiry that has passed. -/
def Deletes (now : Int64) (c : HttpCookie) : Prop :=
  c.maxAge < 0 ∨ c.maxAge = 0 ∧ ∃ expires, c.expires = some expires ∧ expires ≤ now

end HttpCookie

/-- The cookie in a slot gives the request header the value of its name. -/
def Requested (j : Jar) (slot : String × String × String) : Prop :=
  ∃ d, d.identity = slot ∧ (j.cookies.filter fun e => e.name = d.name).getLast? = some d

/-- A save and a load of the jar let the cookie in a slot be served. -/
def ServedAfterLoad (j : Jar) (slot : String × String × String) : Prop :=
  ∃ (Bytes : Type) (uc : GetCookies Bytes) (lock : LockOutcome) (dir : Directory Bytes)
    (url : String) (snap : CookieSnapshot), dir.file = .holds (uc.store.saved j url) ∧
      (uc.execute lock dir).result = .ok snap ∧ ∃ d ∈ snap.cookies, d.identity = slot

/-- What a response deletes and does not set again is sent no more. -/
def DeletionHonoured (clock : ℕ → Int64) (j : Jar) (response : Response) : Prop :=
  ∀ before c after, response.cookies = before ++ c :: after →
    c.Deletes (clock before.length) → (∀ c' ∈ after, c'.identity ≠ c.identity) →
      ¬ Requested (mergeResponseCookies clock j response) c.identity ∧
        ¬ ServedAfterLoad (mergeResponseCookies clock j response) c.identity

/-- A jar holds a cookie, and both headers go on sending it. -/
structure StillSent (j : Jar) (d : Cookie) : Prop where
  held : ∀ e, e ∈ j.cookies ∧ e.identity = d.identity ↔ e = d
  requested : Carries (Renewer.cookieHeader j) (Renewer.cookiePairs j) d.name
    (Renewer.lastValue j d.name)
  requested_value : (∀ e ∈ j.cookies, e.name = d.name → e = d) →
    Renewer.lastValue j d.name = d.value
  served : ∀ (Bytes : Type) (uc : GetCookies Bytes) (lock : LockOutcome) (dir : Directory Bytes)
    (url : String), lock.acquire = .ok () → dir.file = .holds (uc.store.saved j url) →
      ∃ snap, (uc.execute lock dir).result = .ok snap ∧
        snap.cookieHeader = renderPairs (snap.cookies.map Cookie.pair) ∧
        ∃ e ∈ snap.cookies, e.identity = d.identity ∧
          ((∀ e ∈ j.cookies, e.Normal) → e.value = d.value)

theorem lastValue_of_single (h : d ∈ j.cookies) (hone : ∀ e ∈ j.cookies, e.name = d.name → e = d) :
    Renewer.lastValue j d.name = d.value := by
  have hmem : d ∈ j.cookies.filter fun e => e.name = d.name :=
    List.mem_filter.mpr ⟨h, decide_eq_true rfl⟩
  rw [Renewer.lastValue]
  cases hl : (j.cookies.filter fun e => e.name = d.name).getLast? with
  | none => exact absurd (List.getLast?_eq_none_iff.mp hl) (List.ne_nil_of_mem hmem)
  | some e =>
    obtain ⟨he, hname⟩ := List.mem_filter.mp (List.mem_of_getLast? hl)
    rw [hone e he (of_decide_eq_true hname)]
    rfl

theorem exists_served {Bytes : Type} {uc : GetCookies Bytes} {lock : LockOutcome}
    {dir : Directory Bytes} {url : String} (h : d ∈ j.cookies) (hname : d.name ≠ "")
    (hlock : lock.acquire = .ok ()) (hfile : dir.file = .holds (uc.store.saved j url)) :
    ∃ snap, (uc.execute lock dir).result = .ok snap ∧
      snap.cookies = (uc.store.text.reload j url).cookies ∧
      snap.cookieHeader = renderPairs (snap.cookies.map Cookie.pair) := by
  obtain ⟨k, hk⟩ : ∃ k, uc.store.text.reloaded d = some k := exists_reloaded hname
  obtain ⟨e, he, -⟩ : ∃ e ∈ (uc.store.text.reload j url).cookies, _ := exists_mem_reload h hk
  have hload := Store.load_saved (List.ne_nil_of_mem he)
  rw [← hfile] at hload
  cases hrun : (uc.execute lock dir).result with
  | error err =>
    unfold GetCookies.execute withLock at hrun
    simp only [hlock, hload] at hrun
    cases hrun
  | ok snap =>
    obtain ⟨hcookies, hheader, -, -⟩ := execute_ok hload hrun
    refine ⟨snap, rfl, hcookies, ?_⟩
    rw [hheader, hcookies, cookieHeader_eq]

theorem stillSent_of_mem (h : d ∈ j.cookies) (hname : d.name ≠ "") (hdomain : d.domain ≠ "")
    (hpath : d.path ≠ "") : StillSent j d where
  held e := by
    constructor
    · rintro ⟨he, hid⟩
      exact Keyed.eq_of_key_eq j.nodup he h hid
    · rintro rfl
      exact ⟨h, rfl⟩
  requested := ⟨rfl, Renewer.filter_cookiePairs h⟩
  requested_value := lastValue_of_single h
  served Bytes uc lock dir url hlock hfile := by
    have hd : d.Normal := ⟨hname, hdomain, hpath⟩
    obtain ⟨snap, hrun, hcookies, hheader⟩ := exists_served h hname hlock hfile
    obtain ⟨k, hk⟩ : ∃ k, uc.store.text.reloaded d = some k := exists_reloaded hname
    obtain ⟨e, he, hid⟩ : ∃ e ∈ (uc.store.text.reload j url).cookies, _ := exists_mem_reload h hk
    have hide : e.identity = d.identity := hid.trans (identity_of_reloaded hd hk)
    refine ⟨snap, hrun, hheader, e, hcookies ▸ he, hide, fun hj => ?_⟩
    obtain ⟨d', hd', hre⟩ := mem_of_mem_reload he
    have hsame : d' = d := by
      apply Keyed.eq_of_key_eq j.nodup hd' h
      rw [← identity_of_reloaded (hj d' hd') hre, hide]
    rw [(reloaded_eq_some hre).2.1, hsame]

theorem mem_mergeResponseCookies (hr : response.cookies = before ++ c :: after)
    (hlast : ∀ c' ∈ after, c'.identity ≠ c.identity) :
    domainCookie (clock before.length) c ∈ (mergeResponseCookies clock j response).cookies := by
  have hafter : (domainCookie (clock before.length) c).identity ∉
      (after.mapIdx fun i c => domainCookie (clock (i + 1 + before.length)) c).map
        Cookie.identity := by
    intro hk
    obtain ⟨e, he, hid⟩ := List.mem_map.mp hk
    obtain ⟨i, hi, rfl⟩ := List.mem_mapIdx.mp he
    exact hlast _ (List.getElem_mem hi) hid
  have hl : Keyed.lookup Cookie.identity (mergeResponseCookies clock j response).cookies
      (domainCookie (clock before.length) c).identity =
        some (domainCookie (clock before.length) c) := by
    rw [mergeResponseCookies, Jar.cookies_setAll, hr, List.mapIdx_append, List.mapIdx_cons]
    simp only [Nat.zero_add]
    exact Keyed.lookup_overlay_last hafter
  exact (Keyed.mem_of_lookup hl).1

/--
A cookie that a response deletes, and does not set again, keeps its slot in the jar, as a
session cookie or with the expiry that it came with, and is still sent.
-/
theorem stillSent_of_deletes {clock : ℕ → Int64} {j : Jar} {response : Response}
    {before after : List HttpCookie} {c : HttpCookie}
    (hr : response.cookies = before ++ c :: after) (hname : c.name ≠ "")
    (hd : c.Deletes (clock before.length)) (hlast : ∀ c' ∈ after, c'.identity ≠ c.identity) :
    StillSent (mergeResponseCookies clock j response) (domainCookie (clock before.length) c) ∧
      (domainCookie (clock before.length) c).identity = c.identity ∧
      (domainCookie (clock before.length) c).value = c.value ∧
      (domainCookie (clock before.length) c).expiresAt = c.expires.getD 0 := by
  have hage : ¬ 0 < c.maxAge := by
    rw [not_lt]
    rcases hd with hneg | ⟨hzero, -⟩
    · exact hneg.le
    · exact hzero.le
  refine ⟨?_, rfl, rfl, if_neg hage⟩
  exact stillSent_of_mem (mem_mergeResponseCookies hr hlast) hname (orDefault_ne (by decide) _)
    (orDefault_ne (by decide) _)

/-- A jar with one cookie, and a response that deletes it. -/
def heldJar : Jar :=
  .newJar [⟨"sid", "1", ".profi.ru", "/", false, false, false, true, .unspecified, 0⟩]

def expiredSid : HttpCookie := { name := "sid", value := "", maxAge := -1 }

def deletesSid : Response := { statusCode := 200, cookies := [expiredSid] }

theorem stillSent_expiredSid :
    StillSent (mergeResponseCookies (fun _ => 50) heldJar deletesSid)
      (domainCookie 50 expiredSid) := by
  have hr : deletesSid.cookies = [] ++ expiredSid :: [] := rfl
  exact (stillSent_of_deletes hr (by decide) (Or.inl (by decide)) (by simp)).1

/-- Both headers send the deleted cookie. -/
theorem not_deletionHonoured_sid :
    Requested (mergeResponseCookies (fun _ => 50) heldJar deletesSid) expiredSid.identity ∧
      ServedAfterLoad (mergeResponseCookies (fun _ => 50) heldJar deletesSid)
        expiredSid.identity ∧
      ¬ DeletionHonoured (fun _ => 50) heldJar deletesSid := by
  have hmem : domainCookie 50 expiredSid ∈
      (mergeResponseCookies (fun _ => 50) heldJar deletesSid).cookies := by decide
  have hsent := stillSent_of_mem hmem (by decide) (by decide) (by decide)
  have hrequested : Requested (mergeResponseCookies (fun _ => 50) heldJar deletesSid)
      expiredSid.identity := ⟨domainCookie 50 expiredSid, rfl, by decide⟩
  obtain ⟨snap, hrun, -, e, he, hid, -⟩ := hsent.served Json exampleReader unlocked
    ⟨.holds (exampleReader.store.saved _ defaultURL), none⟩ defaultURL rfl rfl
  refine ⟨hrequested, ⟨Json, exampleReader, unlocked, _, defaultURL, snap, rfl, hrun, e, he, hid⟩,
    fun h => ?_⟩
  exact (h [] expiredSid [] rfl (Or.inl (by decide)) (by simp)).1 hrequested

end ProfiNotifications.AuthWorker
