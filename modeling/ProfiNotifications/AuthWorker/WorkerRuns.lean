import ProfiNotifications.Foundations.Transition
import ProfiNotifications.AuthWorker.RoundTrip
import ProfiNotifications.AuthWorker.Worker

/-! # What holds over all runs of the worker

A cookie file that can be loaded can be loaded ever after, with the same address and with
every cookie that is no token, at the value that was set last, wherever a process dies.
From the first renewal on there is one copy of the token. And as long as a cycle succeeds
in time, the session is alive at every moment in between.
-/

namespace ProfiNotifications.AuthWorker

variable {Bytes : Type} {d : Deployment Bytes} {s s' : WorkerState Bytes} {m : Moment Bytes}
  {j j' k : Jar} {url : String} {codec : TokenCodec}

namespace RefreshAuth

variable {uc : RefreshAuth Bytes} {dir dir' : Directory Bytes} {r : RefreshResult}
  {before : TokenSnapshot}

theorem refreshIfNeeded_true (h : uc.refreshIfNeeded j before = (.ok true, k)) :
    k = uc.cleaned j ∧ ∃ names, (uc.renew j).outcome = .ok names := by
  unfold refreshIfNeeded at h
  split at h
  · simp only at h
    split at h
    · cases h
    · rename_i names hrenew
      split at h
      · cases h
      · obtain ⟨-, rfl⟩ := Prod.mk.inj h
        exact ⟨rfl, names, hrenew⟩
  · cases h

theorem Succeeded.load_url (h : Succeeded uc dir dir' r j k url) :
    uc.store.load dir'.file = .ok (uc.store.text.reload k url, url) := by
  have hurl : url ≠ "" := (Store.sound_of_load h.loaded).url_ne
  rw [h.load.1, orDefault_of_ne hurl]

end RefreshAuth

/-- The value of a cookie after others were set: the last one in its slot counts. -/
def valueAfter (applied : List Cookie) (c : Cookie) : String :=
  ((Keyed.lookup Cookie.identity applied.reverse c.identity).getD c).value

/-- Every cookie that is no token has a successor with its name, domain and path, and with the
value that was set there last. A cookie without one of the three is read back with defaults and
may take the place of another; those that `domainCookie` makes lack at most the name. -/
def KeepsLogin (j : Jar) (applied : List Cookie) (j' : Jar) : Prop :=
  ∀ c ∈ j.cookies, ¬ IsTokenCookie c.name → ∃ c' ∈ j'.cookies, c'.identity = c.identity ∧
    ((∀ w ∈ applied, w.Normal) → c'.value = valueAfter applied c)

theorem KeepsLogin.refl (j : Jar) : KeepsLogin j [] j := fun c hc _ => ⟨c, hc, rfl, fun _ => rfl⟩

theorem valueAfter_append {c c' : Cookie} {applied : List Cookie} (hid : c'.identity = c.identity)
    (hv : c'.value = valueAfter applied c) (sets : List Cookie) :
    valueAfter (applied ++ sets) c = valueAfter sets c' := by
  have hl : Keyed.lookup Cookie.identity (applied ++ sets).reverse c.identity =
      (Keyed.lookup Cookie.identity sets.reverse c.identity).or
        (Keyed.lookup Cookie.identity applied.reverse c.identity) := by
    simp only [Keyed.lookup, List.reverse_append, List.find?_append]
  rw [valueAfter, hl, valueAfter, hid]
  cases Keyed.lookup Cookie.identity sets.reverse c.identity with
  | none => exact hv.symm
  | some w => rfl

theorem KeepsLogin.trans {applied sets : List Cookie} (h : KeepsLogin j applied j')
    (h' : KeepsLogin j' sets k) : KeepsLogin j (applied ++ sets) k := by
  intro c hc hn
  obtain ⟨c', hc', hid, hv⟩ := h c hc hn
  have hname : c'.name = c.name := congrArg Prod.fst hid
  obtain ⟨c'', hc'', hid', hv'⟩ := h' c' hc' (hname ▸ hn)
  refine ⟨c'', hc'', hid'.trans hid, fun hnormal => ?_⟩
  have happlied := hv fun w hw => hnormal w (List.mem_append_left _ hw)
  rw [hv' fun w hw => hnormal w (List.mem_append_right _ hw), valueAfter_append hid happlied]

theorem keepsLogin_setAll (j : Jar) (sets : List Cookie) : KeepsLogin j sets (j.setAll sets) := by
  intro c hc _
  have hl : Keyed.lookup Cookie.identity (j.setAll sets).cookies c.identity =
      some ((Keyed.lookup Cookie.identity sets.reverse c.identity).getD c) := by
    rw [Jar.cookies_setAll, Keyed.lookup_overlay_reverse, Keyed.lookup_of_mem j.nodup hc]
    cases Keyed.lookup Cookie.identity sets.reverse c.identity <;> rfl
  obtain ⟨hmem, hid⟩ := Keyed.mem_of_lookup hl
  exact ⟨_, hmem, hid, fun _ => rfl⟩

theorem keepsLogin_kept (codec : TokenCodec) (j : Jar) : KeepsLogin j [] (codec.kept j) :=
  fun c hc hn => ⟨c, TokenCodec.mem_kept.mpr
    ⟨hc, TokenCodec.isStaleDuplicate_eq_false (Or.inl hn)⟩, rfl, fun _ => rfl⟩

theorem keepsLogin_reload (x : Exporter) {sets : List Cookie} (h : KeepsLogin j sets k)
    (hj : ∀ c ∈ j.cookies, c.Normal)
    (hk : ∀ c ∈ k.cookies, c ∈ j.cookies ∨ c ∈ sets) (url : String) :
    KeepsLogin j sets (x.reload k url) := by
  intro c hc hn
  obtain ⟨c', hc', hid, hv⟩ := h c hc hn
  have hnormal : c'.Normal := by
    obtain ⟨hname, hdomain, hpath⟩ := Cookie.sameIdentity_iff.mpr hid
    obtain ⟨hname', hdomain', hpath'⟩ := hj c hc
    exact ⟨hname ▸ hname', hdomain ▸ hdomain', hpath ▸ hpath'⟩
  obtain ⟨e, he⟩ := exists_reloaded (x := x) hnormal.name_ne
  obtain ⟨e', he', hid'⟩ : ∃ e' ∈ (x.reload k url).cookies, _ := exists_mem_reload hc' he
  rw [identity_of_reloaded hnormal he] at hid'
  refine ⟨e', he', hid'.trans hid, fun hsets => ?_⟩
  -- no other cookie is read back into this slot
  obtain ⟨d, hd, hde⟩ := mem_of_mem_reload he'
  have hdnormal : d.Normal := (hk d hd).elim (hj d) (hsets d)
  have hslot : d.identity = c'.identity := (identity_of_reloaded hdnormal hde).symm.trans hid'
  obtain rfl := Keyed.eq_of_key_eq k.nodup hd hc' hslot
  rw [(reloaded_eq_some hde).2.1, hv hsets]

/-- What a successful cycle saves keeps the login of what it loaded. -/
theorem RefreshAuth.Succeeded.keepsLogin {uc : RefreshAuth Bytes} {dir dir' : Directory Bytes}
    {r : RefreshResult} (h : Succeeded uc dir dir' r j k url) :
    KeepsLogin j (if r.refreshed then (uc.renew j).sets else [])
      (uc.store.text.reload k url) := by
  have hrenewed := h.renewed
  have hnormal := Store.normal_of_load h.loaded
  cases hr : r.refreshed with
  | false =>
    rw [hr] at hrenewed
    rcases refreshIfNeeded_cases hrenewed with ⟨-, rfl, -⟩ | ⟨htrue, -⟩
    · exact keepsLogin_reload _ (KeepsLogin.refl _) hnormal (fun _ => Or.inl) url
    · cases htrue
  | true =>
    rw [hr] at hrenewed
    obtain ⟨rfl, -⟩ := refreshIfNeeded_true hrenewed
    refine keepsLogin_reload _ ?_ hnormal ?_ url
    · have htrans := (keepsLogin_setAll j (uc.renew j).sets).trans (keepsLogin_kept uc.codec _)
      rwa [List.append_nil] at htrans
    · intro c hc
      have hset : c ∈ (j.setAll (uc.renew j).sets).cookies := (TokenCodec.mem_kept.mp hc).1
      rw [Jar.cookies_setAll] at hset
      exact Keyed.mem_or_mem_of_mem_overlay hset

/-- There is one copy of every token that can be read, and there is such a token. -/
structure HasToken (codec : TokenCodec) (j : Jar) : Prop where
  single : RefreshAuth.SingleTokens codec j
  readable : (codec.expirations j "prfr_bo_tkn").Nonempty

theorem HasToken.exists_token (h : HasToken codec j) :
    ∃ c e, j.cookies.filter (fun c => c.name = "prfr_bo_tkn") = [c] ∧
      codec.decodeJWTExp c.value = some e ∧ ∀ now, codec.tokenTTL j now = some (e - now) := by
  obtain ⟨e, hgreatest⟩ := TokenCodec.exists_isGreatest h.readable
  obtain ⟨c, hc⟩ := h.single _ h.readable
  obtain ⟨d, hd, hname, -, he⟩ := hgreatest.1
  have hdc : d ∈ j.cookies.filter fun c => c.name = "prfr_bo_tkn" :=
    List.mem_filter.mpr ⟨hd, decide_eq_true hname⟩
  rw [hc, List.mem_singleton] at hdc
  exact ⟨c, e, hc, hdc ▸ he, TokenCodec.tokenTTL_of_isGreatest hgreatest⟩

/-- What is saved has a token, the only one of its name after a renewal. -/
theorem RefreshAuth.Succeeded.hasToken {uc : RefreshAuth Bytes} {dir dir' : Directory Bytes}
    {r : RefreshResult} (h : Succeeded uc dir dir' r j k url)
    (hj : r.refreshed = false → SingleTokens uc.codec j) :
    HasToken uc.codec (uc.store.text.reload k url) where
  single := by
    cases hr : r.refreshed with
    | true => exact (h.single hr).2
    | false =>
      rcases refreshIfNeeded_cases h.renewed with ⟨-, rfl, -⟩ | ⟨htrue, -⟩
      · exact (hj hr).reload
      · rw [hr] at htrue
        cases htrue
  readable := by
    obtain ⟨name, e, hgreatest⟩ := TokenCodec.exists_isGreatest_of_tokenTTL h.load.2
    obtain rfl := TokenCodec.name_of_mem_expirations hgreatest.1
    exact ⟨e, hgreatest.1⟩

/-- The file is loaded with the first address and the first login, and from the first
renewal on with one token. -/
def Upheld (d : Deployment Bytes) (j₀ : Jar) (url : String) (s : WorkerState Bytes) : Prop :=
  ∃ j, d.store.load s.cookies.file = .ok (j, url) ∧ KeepsLogin j₀ s.applied j ∧
    (s.renewed = true → HasToken d.codec j)

theorem Upheld.step {j₀ : Jar} (h : Upheld d j₀ url s) (m : Moment Bytes) :
    Upheld d j₀ url (d.step s m) := by
  obtain ⟨j, hload, hlogin, htoken⟩ := h
  cases d.cookieStep s m with
  | kept hfile hrenewed happlied hchecked =>
    refine ⟨j, hfile ▸ hload, happlied ▸ hlogin, ?_⟩
    rw [hrenewed]
    exact htoken
  | @saved r j' k url' dir hs hdir hrenewed happlied hchecked =>
    obtain ⟨rfl, rfl⟩ : j = j' ∧ url = url' := by
      have heq := Except.ok.inj (hload.symm.trans hs.loaded)
      exact Prod.mk.inj heq
    refine ⟨d.store.text.reload k url, hdir ▸ hs.load_url, ?_, ?_⟩
    · rw [happlied]
      exact hlogin.trans hs.keepsLogin
    · rw [hrenewed, Bool.or_eq_true]
      rintro hr
      refine hs.hasToken fun hf => (htoken (hr.resolve_right ?_)).single
      rw [hf]
      exact Bool.false_ne_true

theorem Upheld.loop {j₀ : Jar} (h : Upheld d j₀ url s) (ms : List (Moment Bytes)) :
    Upheld d j₀ url (d.loop s ms) :=
  Transition.foldl_invariant (Upheld d j₀ url) (fun _ m hs => hs.step m) h ms

theorem upheld_start (hload : d.store.load s.cookies.file = .ok (j, url))
    (happlied : s.applied = []) (hrenewed : s.renewed = false) : Upheld d j url s := by
  refine ⟨j, hload, happlied ▸ KeepsLogin.refl j, fun htrue => ?_⟩
  rw [hrenewed] at htrue
  cases htrue

theorem execute_of_load (now : Int64) {lock : LockOutcome} {dir : Directory Bytes}
    (hlock : lock.acquire = .ok ()) (hload : d.store.load dir.file = .ok (j, url)) :
    ∃ snap, ((⟨d.store, d.codec, now⟩ : GetCookies Bytes).execute lock dir).result = .ok snap ∧
      snap.cookies = j.cookies ∧ snap.hasToken = (d.codec.tokenTTL j now).isSome ∧
      snap.tokenTTL = (d.codec.tokenTTL j now).getD 0 ∧
      snap.status = snapshotStatus snap.tokenTTL snap.hasToken := by
  rw [GetCookies.execute, (result_withLock hlock _ _).1]
  simp only [hload]
  exact ⟨_, rfl, rfl, rfl, rfl, rfl⟩

/--
From a cookie file that can be loaded, every run of cycles, with any renewals, failures of
the lock and of the writes, and processes that die anywhere, ends in a file that is served:
it has the first address and every cookie that is no token, each with the value that the
saved renewals have set last; and once tokens were renewed, there is a token, the only one,
and the reported lifetime is its own.
-/
theorem loop_serves {d : Deployment Bytes} {j : Jar} {url : String} (ms : List (Moment Bytes))
    (status : Directory Bytes) {cookies : Directory Bytes}
    (hload : d.store.load cookies.file = .ok (j, url)) (now : Int64) {lock : LockOutcome}
    (hlock : lock.acquire = .ok ()) :
    ∃ j' snap,
      d.store.load (d.loop { cookies, status } ms).cookies.file = .ok (j', url) ∧
      ((⟨d.store, d.codec, now⟩ : GetCookies Bytes).execute lock
        (d.loop { cookies, status } ms).cookies).result = .ok snap ∧
      snap.cookies = j'.cookies ∧ KeepsLogin j (d.loop { cookies, status } ms).applied j' ∧
      ((d.loop { cookies, status } ms).renewed = true →
        ∃ c e, snap.cookies.filter (fun c => c.name = "prfr_bo_tkn") = [c] ∧
          d.codec.decodeJWTExp c.value = some e ∧ snap.hasToken = true ∧
          snap.tokenTTL = e - now) := by
  have hinit : Upheld d j url { cookies, status } := upheld_start hload rfl rfl
  obtain ⟨j', hload', hlogin, htoken⟩ := hinit.loop ms
  obtain ⟨snap, hsnap, hcookies, hhas, httl, -⟩ := execute_of_load now hlock hload'
  refine ⟨j', snap, hload', hsnap, hcookies, hlogin, fun hrenewed => ?_⟩
  obtain ⟨c, e, hc, he, hlife⟩ := (htoken hrenewed).exists_token
  refine ⟨c, e, hcookies ▸ hc, he, ?_, ?_⟩
  · rw [hhas, hlife]
    rfl
  · rw [httl, hlife]
    rfl

def exampleDeployment : Deployment Json where
  store := ⟨⟨"cookies.json", ".", "cookies.json.tmp"⟩, exampleText .inserting⟩
  statusPaths := ⟨"auth-status.json", ".", "auth-status.json.tmp"⟩
  codec := Renewer.exampleCodec
  refreshBeforeSecs := 60
  worker := ⟨id, ⟨60, 300, 60⟩⟩

def newLogin : Response :=
  { statusCode := 200, cookies := [{ name := "sid", value := "2", domain := "profi.ru" }] }

def renewing : Moment Json where
  renew j := ((Renewer.exampleRenewer newLogin).renew j).toRenewal
  clock _ := 50
  reportedAt := 50
  lock := unlocked
  outcome := ⟨none, true⟩
  statusOutcome := ⟨none, true⟩

/-- A process that dies while it saves, one that renews, and one that cannot replace the file. -/
def dyingOnce : List (Moment Json) :=
  [{ renewing with crash := some (.saving (.str "\x7b")) }, renewing,
    { renewing with outcome := ⟨some (.rename "EIO"), true⟩ }]

def exportedLogin (name value : String) : Json :=
  .obj [("name", .str name), ("value", .str value), ("domain", .str "profi.ru")]

def loggedIn : Directory Json :=
  filesOf [exportedToken ".profi.ru" "h.old.s", exportedToken "profi.ru" "h.old.s",
    exportedLogin "sid" "1", exportedLogin "uid" "7"]

def diedOnce : WorkerState Json :=
  exampleDeployment.loop { cookies := loggedIn, status := ⟨.missing, none⟩ } dyingOnce

theorem loop_serves_diedOnce : ∃ (j' : Jar) (snap : CookieSnapshot) (c : Cookie) (e : Int64),
    exampleDeployment.store.load diedOnce.cookies.file = .ok (j', defaultURL) ∧
      snap.cookies = j'.cookies ∧ (∃ sid ∈ snap.cookies, sid.name = "sid" ∧ sid.value = "2") ∧
      (∃ uid ∈ snap.cookies, uid.name = "uid" ∧ uid.value = "7") ∧
      snap.cookies.filter (fun c => c.name = "prfr_bo_tkn") = [c] ∧
      exampleDeployment.codec.decodeJWTExp c.value = some e ∧ snap.hasToken = true ∧
      snap.tokenTTL = e - 50 := by
  have hload : exampleDeployment.store.load loggedIn.file = .ok (_, defaultURL) := rfl
  obtain ⟨j', snap, hload', -, hcookies, hlogin, htoken⟩ :=
    loop_serves dyingOnce ⟨.missing, none⟩ hload 50 (rfl : unlocked.acquire = .ok ())
  have hnormal : ∀ w ∈ diedOnce.applied, w.Normal := by
    have happlied : diedOnce.applied = [Renewer.tokenAt ".profi.ru" "h.new.s",
        { Renewer.tokenAt "profi.ru" "2" with name := "sid" }] := by decide +kernel
    rw [happlied]
    intro w hw
    simp only [List.mem_cons, List.not_mem_nil, or_false] at hw
    rcases hw with rfl | rfl <;> exact ⟨by decide, by decide, by decide⟩
  obtain ⟨c, e, hc, he, hhas, httl⟩ := htoken (by decide +kernel)
  refine ⟨j', snap, c, e, hload', hcookies, ?_, ?_, hc, he, hhas, httl⟩ <;> rw [hcookies]
  · obtain ⟨sid, hmem, hid, hvalue⟩ := hlogin
      { Renewer.tokenAt "profi.ru" "1" with name := "sid", session := false }
      (by decide) (by decide)
    exact ⟨sid, hmem, congrArg Prod.fst hid, (hvalue hnormal).trans (by decide +kernel)⟩
  · obtain ⟨uid, hmem, hid, hvalue⟩ := hlogin
      { Renewer.tokenAt "profi.ru" "7" with name := "uid", session := false }
      (by decide) (by decide)
    exact ⟨uid, hmem, congrArg Prod.fst hid, (hvalue hnormal).trans (by decide +kernel)⟩

/-- The cycle meets a clock past its epoch, no token that has expired more than `2 ^ 63` seconds
ago, and, if it renews, tokens that outlive the threshold. -/
structure Generous (d : Deployment Bytes) (s : WorkerState Bytes) (m : Moment Bytes) : Prop where
  epoch : 0 ≤ m.clock .snapshot
  recent : ∀ j url, d.store.load s.cookies.file = .ok (j, url) → ∀ name e,
    IsGreatest (d.codec.expirations j name) e → (m.clock .snapshot).toInt - 2 ^ 63 ≤ e.toInt
  outlives : ∀ j url, d.store.load s.cookies.file = .ok (j, url) → ∀ names,
    (m.renew j).outcome = .ok names → ∀ name e,
      IsGreatest (d.codec.expirations (j.setAll (m.renew j).sets) name) e →
        (m.clock .snapshot).toInt + d.refreshBeforeSecs.toInt < e.toInt

/-- Behind a cycle that has saved, the file has a token that outlives the threshold. -/
def Ahead (d : Deployment Bytes) (s : WorkerState Bytes) : Prop :=
  ∀ t, s.checkedAt = some t → ∃ j url name e, d.store.load s.cookies.file = .ok (j, url) ∧
    IsGreatest (d.codec.expirations j name) e ∧ t.toInt + d.refreshBeforeSecs.toInt < e.toInt

/-- Past the epoch, the distance to a time that is not too long ago does not wrap. -/
theorem toInt_sub_of_recent {a b : Int64} (hb : 0 ≤ b) (h : b.toInt - 2 ^ 63 ≤ a.toInt) :
    (a - b).toInt = a.toInt - b.toInt := by
  rw [Int64.le_iff_toInt_le, Int64.toInt_zero] at hb
  have ha' := a.toInt_lt
  exact Wrapping.toInt_sub (by omega) (by omega)

/-- A successful cycle saves a token that outlives the threshold. -/
theorem RefreshAuth.Succeeded.outlives {dir' : Directory Bytes} {r : RefreshResult}
    (hm : Generous d s m) (h : (d.refreshAuth m).Succeeded s.cookies dir' r j k url) :
    ∃ name e, IsGreatest (d.codec.expirations k name) e ∧
      (m.clock .snapshot).toInt + d.refreshBeforeSecs.toInt < e.toInt := by
  obtain ⟨name, e, hgreatest⟩ := TokenCodec.exists_isGreatest_of_tokenTTL h.alive
  refine ⟨name, e, hgreatest, ?_⟩
  cases hr : r.refreshed with
  | false =>
    rcases refreshIfNeeded_cases h.renewed with ⟨-, rfl, hneed⟩ | ⟨htrue, -⟩
    · have httl : ((d.refreshAuth m).snapshot k).ttl = some (e - m.clock .snapshot) :=
        TokenCodec.tokenTTL_of_isGreatest hgreatest _
      have hlt : d.refreshBeforeSecs < e - m.clock .snapshot := by
        rw [httl] at hneed
        exact not_le.mp (of_decide_eq_false hneed)
      have hsub := toInt_sub_of_recent hm.epoch (hm.recent k url h.loaded name e hgreatest)
      rw [Int64.lt_iff_toInt_lt, hsub] at hlt
      omega
    · rw [hr] at htrue
      cases htrue
  | true =>
    have hrenewed := h.renewed
    rw [hr] at hrenewed
    obtain ⟨rfl, names, hrenew⟩ := refreshIfNeeded_true hrenewed
    exact hm.outlives j url h.loaded names hrenew name e (TokenCodec.isGreatest_kept.mp hgreatest)

theorem Ahead.step (hm : Generous d s m) (h : Ahead d s) : Ahead d (d.step s m) := by
  cases d.cookieStep s m with
  | kept hfile hrenewed happlied hchecked =>
    intro t ht
    rw [hfile]
    exact h t (hchecked ▸ ht)
  | @saved r j k url dir hs hdir hrenewed happlied hchecked =>
    intro t ht
    obtain rfl : m.clock .snapshot = t := Option.some.inj (hchecked.symm.trans ht)
    obtain ⟨name, e, hgreatest, hlt⟩ := hs.outlives hm
    refine ⟨d.store.text.reload k url, url, name, e, hdir ▸ hs.load_url, ?_, hlt⟩
    have hexp := hs.expirations_reload name
    change d.codec.expirations (d.store.text.reload k url) name = d.codec.expirations k name at hexp
    rwa [hexp]

theorem Ahead.loop {ms : List (Moment Bytes)}
    (hms : ∀ before m after, ms = before ++ m :: after → Generous d (d.loop s before) m)
    (h : Ahead d s) : Ahead d (d.loop s ms) := by
  induction ms using List.reverseRecOn with
  | nil => exact h
  | append_singleton ms m ih =>
    have hprefix : Ahead d (d.loop s ms) := by
      apply ih
      intro before m' after hsplit
      exact hms before m' (after ++ [m]) (by rw [hsplit, List.append_assoc, List.cons_append])
    rw [Deployment.loop_append]
    exact hprefix.step (hms ms m [] rfl)

/--
In every run of generous cycles, and from the first cycle that has saved on, every read past
the epoch and within the threshold of the time at which the last such cycle has looked at
the clock reports a live session, and its lifetime reaches beyond. So the session never
lapses while cycles succeed at least that often.
-/
theorem session_never_lapses {ms : List (Moment Bytes)} {cookies status : Directory Bytes}
    (hms : ∀ before m after, ms = before ++ m :: after →
      Generous d (d.loop { cookies, status } before) m) {t now : Int64}
    (ht : (d.loop { cookies, status } ms).checkedAt = some t) (hnow : 0 ≤ now)
    (hsoon : now.toInt ≤ t.toInt + d.refreshBeforeSecs.toInt) {lock : LockOutcome}
    (hlock : lock.acquire = .ok ()) :
    ∃ snap, ((⟨d.store, d.codec, now⟩ : GetCookies Bytes).execute lock
        (d.loop { cookies, status } ms).cookies).result = .ok snap ∧
      snap.status = .ok ∧
      t.toInt + d.refreshBeforeSecs.toInt < now.toInt + snap.tokenTTL.toInt := by
  have hahead : Ahead d (d.loop { cookies, status } ms) := Ahead.loop hms nofun
  obtain ⟨j, url, name, e, hload, hgreatest, hlt⟩ := hahead t ht
  obtain ⟨snap, hsnap, -, htoken, httl, hstatus⟩ := execute_of_load now hlock hload
  rw [TokenCodec.tokenTTL_of_isGreatest hgreatest] at htoken httl
  have hsub := toInt_sub_of_recent hnow (by omega : now.toInt - 2 ^ 63 ≤ e.toInt)
  have hvalue : snap.tokenTTL = e - now := httl
  have hpos : 0 < snap.tokenTTL := by
    rw [hvalue, Wrapping.pos_iff, hsub]
    omega
  refine ⟨snap, hsnap, ?_, ?_⟩
  · rw [hstatus]
    exact if_pos ⟨htoken, hpos⟩
  · rw [hvalue, hsub]
    omega

theorem nonneg_of_exampleCodec {token : String} {e : Int64}
    (h : exampleDeployment.codec.decodeJWTExp token = some e) : 0 ≤ e := by
  simp only [TokenCodec.decodeJWTExp] at h
  split at h
  · simp only [exampleDeployment, Renewer.exampleCodec] at h
    split at h
    · obtain rfl := Option.some.inj h
      decide
    · split at h
      · obtain rfl := Option.some.inj h
        decide
      · cases h
  · cases h

theorem generous_renewing {s : WorkerState Json} {m : Moment Json}
    (hrenew : m.renew = renewing.renew) (hclock : m.clock = renewing.clock) :
    Generous exampleDeployment s m := by
  constructor <;> rw [hclock]
  · decide
  · rintro j url - name e ⟨⟨c, -, -, -, he⟩, -⟩
    have hnonneg := nonneg_of_exampleCodec he
    rw [Int64.le_iff_toInt_le, Int64.toInt_zero] at hnonneg
    exact le_trans (by decide) hnonneg
  · rw [hrenew]
    intro j url _ names _ name e hgreatest
    obtain rfl := TokenCodec.name_of_mem_expirations hgreatest.1
    have hset : Renewer.tokenAt ".profi.ru" "h.new.s" ∈
        (j.set (Renewer.tokenAt ".profi.ru" "h.new.s")).cookies :=
      (Keyed.mem_upsert j.nodup).mpr (Or.inl rfl)
    have hmem : Renewer.tokenAt ".profi.ru" "h.new.s" ∈
        (j.setAll (renewing.renew j).sets).cookies :=
      (Keyed.mem_upsert (j.set _).nodup).mpr (Or.inr ⟨hset, by decide⟩)
    have hle : 200 ≤ e := hgreatest.2 ⟨_, hmem, rfl, by decide, by decide⟩
    rw [Int64.le_iff_toInt_le] at hle
    exact lt_of_lt_of_le (by decide) hle

theorem session_never_lapses_diedOnce : ∃ snap : CookieSnapshot,
    ((⟨exampleDeployment.store, exampleDeployment.codec, 110⟩ : GetCookies Json).execute unlocked
      diedOnce.cookies).result = .ok snap ∧ snap.status = .ok ∧
    110 < 110 + snap.tokenTTL.toInt := by
  have hms : ∀ before m after, dyingOnce = before ++ m :: after → Generous exampleDeployment
      (exampleDeployment.loop { cookies := loggedIn, status := ⟨.missing, none⟩ } before) m := by
    intro before m after hsplit
    have hm : m ∈ dyingOnce := by simp [hsplit]
    simp only [dyingOnce, List.mem_cons, List.not_mem_nil, or_false] at hm
    rcases hm with rfl | rfl | rfl <;> exact generous_renewing rfl rfl
  exact session_never_lapses hms (show diedOnce.checkedAt = some 50 by decide +kernel)
    (by decide) (by decide) (rfl : unlocked.acquire = .ok ())

end ProfiNotifications.AuthWorker
