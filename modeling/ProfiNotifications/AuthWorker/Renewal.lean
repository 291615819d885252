import ProfiNotifications.Foundations.Wrapping
import ProfiNotifications.AuthWorker.Duplicates
import ProfiNotifications.AuthWorker.Refresh
import ProfiNotifications.AuthWorker.Served

/-! # A renewal takes effect

A renewal that leaves a fresher token than any the jar had passes every check of a cycle:
the lifetime is that of the fresh token, its expiry is a change, the removal of duplicates
keeps it alone, and what is saved is alive.
-/

namespace ProfiNotifications.AuthWorker

namespace RefreshAuth

variable {Bytes : Type} {uc : RefreshAuth Bytes} {j k : Jar} {c : Cookie} {now e : Int64}
  {name url : String} {names : RenewOutcome} {dir : Directory Bytes}
  {outcome : WriteOutcome Bytes} {refreshed : Bool} {final : FinalTokens}

abbrev renewed (uc : RefreshAuth Bytes) (j : Jar) : Jar := j.setAll (uc.renew j).sets

abbrev cleaned (uc : RefreshAuth Bytes) (j : Jar) : Jar := uc.codec.kept (uc.renewed j)

theorem changedTokens_ne_nil (h : IsGreatest (uc.codec.expirations (uc.renewed j) name) e)
    (hbefore : ∀ name, ∀ e' ∈ uc.codec.expirations j name, e' < e) :
    TokenCodec.changedTokens (uc.codec.latestTokens j)
      (uc.codec.latestTokens (uc.renewed j)) ≠ [] := by
  obtain ⟨t, ht⟩ := TokenCodec.exists_lookup_latestTokens ⟨e, h.1⟩
  have hexp : t.expiration = e := by
    obtain ⟨hm, hname⟩ := Keyed.mem_of_lookup ht
    exact TokenCodec.isGreatest_unique h
      (TokenCodec.exists_mem_latestTokens_iff.mp ⟨t, hm, hname, rfl⟩)
  obtain ⟨-, -, hn, -⟩ := TokenCodec.mem_of_lookup_latestTokens ht
  apply List.ne_nil_of_mem (a := name)
  refine List.mem_filter.mpr ⟨hn, ?_⟩
  rw [ht]
  cases hp : Keyed.lookup TokenInfo.name (uc.codec.latestTokens j) name with
  | none => rfl
  | some p =>
    obtain ⟨hd, hname, hn', he'⟩ := TokenCodec.mem_of_lookup_latestTokens hp
    have hlt : p.expiration < e := hbefore name _ ⟨p.cookie, hd, hname, hn', he'⟩
    simp [hexp, hlt.ne]

theorem verifyRenew_fresh (h : IsGreatest (uc.codec.expirations (uc.renewed j) name) e)
    (hpos : 0 < e - uc.clock .verifyRenew)
    (hbefore : ∀ name, ∀ e' ∈ uc.codec.expirations j name, e' < e) :
    uc.verifyRenew (uc.renewed j) (uc.snapshot j) names = .ok () := by
  simp only [verifyRenew, TokenCodec.tokenTTL_of_isGreatest h, not_le.mpr hpos, if_false]
  exact if_neg (changedTokens_ne_nil h hbefore)

/-- A renewal that leaves a fresh token is taken over, without old duplicates. -/
theorem refreshIfNeeded_fresh
    (hneed : TokenCodec.needsRefresh (uc.snapshot j).ttl uc.refreshBeforeSecs = true)
    (hrenew : (uc.renew j).outcome = .ok names)
    (h : IsGreatest (uc.codec.expirations (uc.renewed j) name) e)
    (hpos : 0 < e - uc.clock .verifyRenew)
    (hbefore : ∀ name, ∀ e' ∈ uc.codec.expirations j name, e' < e) :
    uc.refreshIfNeeded j (uc.snapshot j) = (.ok true, uc.cleaned j) := by
  simp only [refreshIfNeeded, hneed, if_true, hrenew]
  rw [verifyRenew_fresh h hpos hbefore]

theorem finalTokens_fresh (h : IsGreatest (uc.codec.expirations j name) e)
    (hpos : 0 < e - uc.clock .finalTokens) :
    ∃ details, uc.finalTokens j = .ok ⟨e - uc.clock .finalTokens, details⟩ := by
  simp only [finalTokens, TokenCodec.tokenTTL_of_isGreatest h, not_le.mpr hpos, if_false]
  exact ⟨_, rfl⟩

theorem filter_cleaned (h : IsGreatest (uc.codec.expirations (uc.renewed j) c.name) e)
    (hlater : ∀ d ∈ (uc.renewed j).cookies, d ≠ c → IsTokenCookie d.name →
      ∀ e', uc.codec.decodeJWTExp d.value = some e' → e' < e) :
    (uc.cleaned j).cookies.filter (fun d => d.name = c.name) = [c] := by
  obtain ⟨t, ht⟩ := TokenCodec.exists_lookup_latestTokens ⟨e, h.1⟩
  obtain ⟨hd, hname, hn, he⟩ := TokenCodec.mem_of_lookup_latestTokens ht
  obtain ⟨hm, -⟩ := Keyed.mem_of_lookup ht
  have hexp : t.expiration = e := TokenCodec.isGreatest_unique h
    (TokenCodec.exists_mem_latestTokens_iff.mp ⟨t, hm, (Keyed.mem_of_lookup ht).2, rfl⟩)
  have htc : t.cookie = c := by
    by_contra hne
    have hlt := hlater t.cookie hd hne (hname ▸ hn) t.expiration he
    exact absurd hexp hlt.ne
  rw [TokenCodec.filter_kept ht, htc]

theorem cycle_of_saved (hload : uc.store.load dir.file = .ok (j, url))
    (hrefresh : uc.refreshIfNeeded j (uc.snapshot j) = (.ok refreshed, k))
    (hfinal : uc.finalTokens k = .ok final)
    (hsave : (uc.store.save outcome k url dir).1 = .ok ()) :
    ∃ r, (uc.cycle outcome dir).1 = .ok r ∧ r.refreshed = refreshed ∧ r.ttlAfter = final.ttl ∧
      (uc.cycle outcome dir).2.file = .holds (uc.store.saved k url) := by
  have hfile : (uc.store.save outcome k url dir).2.file = .holds (uc.store.saved k url) := by
    rcases write_cases uc.store.paths outcome (uc.store.saved k url) dir with ⟨-, h⟩ | ⟨⟨e, h⟩, -⟩
    · exact h
    · rw [Store.save, h] at hsave
      cases hsave
  simp only [cycle, hload, hrefresh, hfinal]
  generalize uc.store.save outcome k url dir = saved at hsave hfile
  obtain ⟨result, dir'⟩ := saved
  obtain rfl : result = .ok () := hsave
  exact ⟨_, rfl, rfl, rfl, hfile⟩

/-- A renewal without error leaves a token that lives longer than every other readable token,
in the jar before the renewal and in the jar after it. -/
structure LeavesFresh (uc : RefreshAuth Bytes) (now : Int64) (j : Jar) (c : Cookie) (e : Int64) :
    Prop where
  succeeds : ∃ names, (uc.renew j).outcome = .ok names
  mem : c ∈ (uc.renewed j).cookies
  token : IsTokenCookie c.name
  expiry : uc.codec.decodeJWTExp c.value = some e
  ahead : now < e
  fits : e.toInt - now.toInt < 2 ^ 63
  before : ∀ d ∈ j.cookies, IsTokenCookie d.name →
    ∀ e', uc.codec.decodeJWTExp d.value = some e' → e' < e
  after : ∀ d ∈ (uc.renewed j).cookies, d ≠ c → IsTokenCookie d.name →
    ∀ e', uc.codec.decodeJWTExp d.value = some e' → e' < e

/-- A cycle reports and saves the fresh token, alone of its name, and every other cookie. -/
structure TakesEffect (uc : RefreshAuth Bytes) (now : Int64) (j : Jar) (c : Cookie) (e : Int64)
    (run : Run Bytes RefreshResult) : Prop where
  reported : ∃ r, run.result = .ok r ∧ r.refreshed = true ∧
    r.ttlAfter.toInt = e.toInt - now.toInt
  saved : ∃ saved url, run.directory.file = .holds (uc.store.saved saved url) ∧
    saved.cookies.filter (fun d => d.name = c.name) = [c] ∧
    ∀ d ∈ (uc.renewed j).cookies, ¬ IsTokenCookie d.name → d ∈ saved.cookies

/-- A cycle whose renewal leaves a fresh token takes it over whenever it can save. -/
theorem renewal_takes_effect {Bytes : Type} {uc : RefreshAuth Bytes} {now e : Int64}
    {lock : LockOutcome} {outcome : WriteOutcome Bytes} {dir : Directory Bytes} {j : Jar}
    {url : String} {c : Cookie} (hlock : lock.acquire = .ok ())
    (hload : uc.store.load dir.file = .ok (j, url))
    (hneed : TokenCodec.needsRefresh (uc.codec.tokenTTL j now) uc.refreshBeforeSecs = true)
    (hfresh : LeavesFresh uc now j c e)
    (hsave : (uc.store.save outcome (uc.cleaned j) url dir).1 = .ok ()) :
    TakesEffect uc now j c e ((uc.frozen now).execute lock outcome dir) := by
  obtain ⟨names, hrenew⟩ := hfresh.succeeds
  have hgreatest :=
    TokenCodec.isGreatest_of_later hfresh.mem hfresh.token hfresh.expiry hfresh.after
  have hahead := Int64.lt_iff_toInt_lt.mp hfresh.ahead
  have hsub : (e - now).toInt = e.toInt - now.toInt :=
    Wrapping.toInt_sub (by omega) hfresh.fits
  have hpos : 0 < e - now := by
    rw [Wrapping.pos_iff, hsub]
    omega
  have hbefore : ∀ name, ∀ e' ∈ uc.codec.expirations j name, e' < e := by
    rintro name e' ⟨d, hd, rfl, hn, he'⟩
    exact hfresh.before d hd hn e' he'
  have hrefresh : (uc.frozen now).refreshIfNeeded j ((uc.frozen now).snapshot j) =
      (.ok true, uc.cleaned j) :=
    refreshIfNeeded_fresh hneed hrenew hgreatest hpos hbefore
  have hkept := TokenCodec.isGreatest_kept.mpr hgreatest
  obtain ⟨details, hfinal⟩ :
      ∃ details, (uc.frozen now).finalTokens (uc.cleaned j) = .ok ⟨e - now, details⟩ :=
    finalTokens_fresh hkept hpos
  obtain ⟨hresult, hdir⟩ := result_withLock hlock dir ((uc.frozen now).cycle outcome)
  have hload : (uc.frozen now).store.load dir.file = .ok (j, url) := hload
  obtain ⟨r, hr, hrefreshed, httl, hfile⟩ := cycle_of_saved hload hrefresh hfinal hsave
  constructor
  · refine ⟨r, hresult.trans hr, hrefreshed, ?_⟩
    rw [httl, hsub]
  · refine ⟨uc.cleaned j, url, ?_, filter_cleaned hgreatest hfresh.after, ?_⟩
    · rw [execute, hdir]
      exact hfile
    · exact fun d hd hn => TokenCodec.mem_kept.mpr
        ⟨hd, TokenCodec.isStaleDuplicate_eq_false (Or.inl hn)⟩

def exampleCycle : RefreshAuth Json where
  store := exampleReader.store
  codec := Renewer.exampleCodec
  renew j := ((Renewer.exampleRenewer { statusCode := 200 }).renew j).toRenewal
  clock _ := 50
  refreshBeforeSecs := 60

def oldCopy : Directory Json := filesOf [exportedToken ".profi.ru" "h.old.s"]

def oldJar : Jar := Jar.newJar [{ Renewer.tokenAt ".profi.ru" "h.old.s" with session := false }]

def renewedToken : Cookie := Renewer.tokenAt ".profi.ru" "h.new.s"

theorem leavesFresh_oldJar : LeavesFresh exampleCycle 50 oldJar renewedToken 200 := by
  have hjar : (exampleCycle.renewed oldJar).cookies = [renewedToken] := by decide
  have hold : exampleCycle.codec.decodeJWTExp "h.old.s" = some 100 := by decide
  refine ⟨⟨⟨["prfr_bo_tkn"]⟩, rfl⟩, ?_, by decide, by decide, by decide, by decide, ?_, ?_⟩
  · rw [hjar]
    exact List.mem_cons_self
  · rintro d hd - e' he'
    obtain rfl := List.mem_singleton.mp hd
    obtain rfl := Option.some.inj (hold.symm.trans he')
    decide
  · intro d hd hne
    rw [hjar] at hd
    exact absurd (List.mem_singleton.mp hd) hne

theorem renewal_takes_effect_oldCopy :
    TakesEffect exampleCycle 50 oldJar renewedToken 200
      ((exampleCycle.frozen 50).execute unlocked ⟨none, true⟩ oldCopy) := by
  have hload : exampleCycle.store.load oldCopy.file = .ok (oldJar, defaultURL) := rfl
  exact renewal_takes_effect rfl hload (by decide) leavesFresh_oldJar rfl

end RefreshAuth

end ProfiNotifications.AuthWorker
