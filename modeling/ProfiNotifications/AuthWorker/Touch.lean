import ProfiNotifications.AuthWorker.Renewer

/-! # The touch request

Touch is sent from the jar that renew left, where the renewed cookie stays where the jar
had it. Its header carries the renewed token if and only if no other copy stands behind
it. The cookies of its response are merged also when it fails, so a failed touch leaves
the jar alone if and only if it sets nothing new.
-/

namespace ProfiNotifications.AuthWorker

namespace Renewer

variable {r : Renewer} {codec : TokenCodec} {j : Jar} {name : String} {names : List String}
  {sets : List Cookie} {c : Cookie}

theorem filter_cookiePairs (h : c ∈ j.cookies) :
    (cookiePairs j).filter (fun pair => pair.1 = c.name) = [(c.name, lastValue j c.name)] := by
  have hmem : c.name ∈ order j := List.mem_eraseDups.mpr (List.mem_map_of_mem h)
  have hone : (order j).count c.name = 1 :=
    List.count_eq_one_of_mem (Keyed.nodup_eraseDups _) hmem
  have hcomp : ((fun pair : String × String => decide (pair.1 = c.name)) ∘
      fun name => (name, lastValue j name)) = fun name => decide (name = c.name) := rfl
  rw [cookiePairs, List.filter_map, hcomp, List.filter_eq, hone]
  rfl

/-- The slots of the copies of a cookie, in the order in which the jar and then the
response first name them. -/
def slots (j : Jar) (sets : List Cookie) (name : String) : List (String × String × String) :=
  ((j.cookies ++ sets).map Cookie.identity).eraseDups.filter fun slot => slot.1 = name

theorem map_identity_filter_setAll (j : Jar) (sets : List Cookie) (name : String) :
    ((j.setAll sets).cookies.filter fun c => c.name = name).map Cookie.identity =
      slots j sets name := by
  have hcomp : (fun c : Cookie => decide (c.name = name)) =
      (fun slot : String × String × String => decide (slot.1 = name)) ∘ Cookie.identity := rfl
  rw [slots, ← Keyed.map_key_overlay j.nodup, ← Jar.cookies_setAll, hcomp, List.filter_map]

/-- The last copy of a cookie is the one in the last slot. -/
theorem lastValue_eq_iff (hc : c ∈ (j.setAll sets).cookies)
    (hv : ∀ d ∈ (j.setAll sets).cookies, d.name = c.name → d.value = c.value → d = c) :
    lastValue (j.setAll sets) c.name = c.value ↔
      (slots j sets c.name).getLast? = some c.identity := by
  have hmem : c ∈ (j.setAll sets).cookies.filter fun d => d.name = c.name :=
    List.mem_filter.mpr ⟨hc, decide_eq_true rfl⟩
  rw [lastValue, ← map_identity_filter_setAll, List.getLast?_map]
  cases hl : ((j.setAll sets).cookies.filter fun d => d.name = c.name).getLast? with
  | none => exact absurd (List.getLast?_eq_none_iff.mp hl) (List.ne_nil_of_mem hmem)
  | some d =>
    obtain ⟨hd, hname⟩ := List.mem_filter.mp (List.mem_of_getLast? hl)
    simp only [Option.elim_some, Option.map_some, Option.some.injEq]
    constructor
    · intro h
      rw [hv d hd (of_decide_eq_true hname) h]
    · intro h
      rw [Keyed.eq_of_key_eq (j.setAll sets).nodup hd hc h]

/-- The copy expires after every other readable copy in the jar. -/
def Freshest (codec : TokenCodec) (j : Jar) (c : Cookie) : Prop :=
  c ∈ j.cookies ∧ ∃ e, codec.decodeJWTExp c.value = some e ∧
    ∀ d ∈ j.cookies, d.name = c.name → d ≠ c →
      ∀ e', codec.decodeJWTExp d.value = some e' → e' < e

theorem Freshest.eq_of_value (h : Freshest codec j c) {d : Cookie} (hd : d ∈ j.cookies)
    (hn : d.name = c.name) (hv : d.value = c.value) : d = c := by
  obtain ⟨-, e, he, hlt⟩ := h
  by_contra hne
  exact absurd (hlt d hd hn hne e (hv ▸ he)) (lt_irrefl e)

/--
The touch request after a successful renew carries the freshest copy of a cookie, such as
the renewed one, if and only if that copy is in the last slot of its name.
-/
theorem touch_carries_freshest_iff {r : Renewer} {codec : TokenCodec} {j : Jar}
    {names : List String} {c : Cookie} {q : Request}
    (hrenew : (r.step j r.renewURL .renew).result = .ok names)
    (hc : Freshest codec (r.renewed j) c) (hq : (r.renew j).touchRequest = some q) :
    Carries q.cookie (cookiePairs (r.renewed j)) c.name c.value ↔
      (slots j (r.step j r.renewURL .renew).sets c.name).getLast? = some c.identity := by
  rw [(renew_of_ok hrenew).1] at hq
  obtain rfl := step_request hq
  have hlast := lastValue_eq_iff hc.1 fun d hd => hc.eq_of_value hd
  rw [← hlast, Carries, filter_cookiePairs hc.1]
  simp [cookieHeader, renewed]

/-- Tokens that expire at 100 and at 200. -/
def exampleCodec : TokenCodec where
  decodeJWTClaims claims :=
    if claims = "old" then some ⟨some 100, "touched"⟩
    else if claims = "new" then some ⟨some 200, "renew"⟩
    else none
  fingerprint := id
  sort := .stable

def tokenAt (domain value : String) : Cookie :=
  ⟨"prfr_bo_tkn", value, domain, "/", false, false, false, true, .unspecified, 0⟩

def exampleRenewer (touch : Response) : Renewer where
  renewURL := "renew"
  touchURL := "touch"
  exchange
    | .renew, _ => .ok
      { statusCode := 200, cookies := [{ name := "prfr_bo_tkn", value := "h.new.s" }] }
    | .touch, _ => .ok touch
  clock _ _ := 0

def oneCopy : Jar := Jar.newJar [tokenAt ".profi.ru" "h.old.s"]

/-- The renewed copy comes first, and a copy of another domain stands behind it. -/
def twoCopies : Jar := Jar.newJar [tokenAt ".profi.ru" "h.old.s", tokenAt "profi.ru" "h.old.s"]

def lastRenewed : Jar := Jar.newJar [tokenAt "profi.ru" "h.old.s", tokenAt ".profi.ru" "h.old.s"]

theorem freshest_of_perm {j : Jar}
    (hj : j.cookies.Perm [tokenAt ".profi.ru" "h.new.s", tokenAt "profi.ru" "h.old.s"]) :
    Freshest exampleCodec j (tokenAt ".profi.ru" "h.new.s") := by
  refine ⟨hj.mem_iff.mpr List.mem_cons_self, 200, by decide, ?_⟩
  rintro d hd - hne e' he'
  obtain rfl : d = tokenAt "profi.ru" "h.old.s" := by simpa [hne] using hj.mem_iff.mp hd
  have h100 : exampleCodec.decodeJWTExp (tokenAt "profi.ru" "h.old.s").value = some 100 := by decide
  obtain rfl := Option.some.inj (h100.symm.trans he')
  decide

theorem touch_carries_freshest_lastRenewed :
    Carries "prfr_bo_tkn=h.new.s" (cookiePairs ((exampleRenewer { statusCode := 200 }).renewed
      lastRenewed)) "prfr_bo_tkn" "h.new.s" := by
  have hrenew : ((exampleRenewer { statusCode := 200 }).step lastRenewed
      (exampleRenewer { statusCode := 200 }).renewURL .renew).result = .ok ["prfr_bo_tkn"] := by
    decide
  have hfresh : Freshest exampleCodec ((exampleRenewer { statusCode := 200 }).renewed lastRenewed)
      (tokenAt ".profi.ru" "h.new.s") := freshest_of_perm (by decide)
  have hq : ((exampleRenewer { statusCode := 200 }).renew lastRenewed).touchRequest =
      some ⟨"touch", "prfr_bo_tkn=h.new.s"⟩ := by decide
  exact (touch_carries_freshest_iff hrenew hfresh hq).mpr (by decide)

/-- The renewed token is the freshest copy, and touch sends the old one. -/
theorem touch_sends_old_twoCopies :
    Freshest exampleCodec ((exampleRenewer { statusCode := 200 }).renewed twoCopies)
        (tokenAt ".profi.ru" "h.new.s") ∧
      ((exampleRenewer { statusCode := 200 }).renew twoCopies).touchRequest =
        some ⟨"touch", "prfr_bo_tkn=h.old.s"⟩ := by
  exact ⟨freshest_of_perm (by decide), by decide⟩

/--
A touch, failed or not, leaves the jar as renew left it if and only if its response sets
no cookie but such as are in the jar already; without a response nothing is set.
-/
theorem touch_keeps_jar_iff {r : Renewer} {j : Jar} {names : List String}
    (hrenew : (r.step j r.renewURL .renew).result = .ok names) :
    r.jarAfter j = r.renewed j ↔
      ∀ response, r.exchange .touch ⟨r.touchURL, cookieHeader (r.renewed j)⟩ = .ok response →
        ∀ c ∈ (Jar.newJar (r.responseCookies .touch response)).cookies,
          c ∈ (r.renewed j).cookies := by
  rw [(renew_of_ok hrenew).2, Jar.ext_iff, Jar.cookies_setAll,
    Keyed.overlay_eq_self_iff (r.renewed j).nodup, step_sets]
  cases r.exchange .touch ⟨r.touchURL, cookieHeader (r.renewed j)⟩ with
  | error fault => simp
  | ok response =>
    rw [← Jar.cookies_newJar]
    constructor
    · rintro h _ ⟨⟩
      exact h
    · exact fun h => h response rfl

def plainRedirect : Response := { statusCode := 302, location := "/login" }

/-- A logout: a redirect that resets the token. -/
def logout : Response :=
  { plainRedirect with cookies := [{ name := "prfr_bo_tkn", value := "" }] }

/-- A redirect that sets the token once more. -/
def tokenAgain : Response :=
  { plainRedirect with cookies := [{ name := "prfr_bo_tkn", value := "h.new.s" }] }

theorem touch_keeps_jar_tokenAgain :
    ((exampleRenewer tokenAgain).step ((exampleRenewer tokenAgain).renewed twoCopies) "touch"
        .touch).result = .error (.authExpired "renew returned a redirect: /login") ∧
      (exampleRenewer tokenAgain).jarAfter twoCopies =
        (exampleRenewer tokenAgain).renewed twoCopies := by
  have hrenew : ((exampleRenewer tokenAgain).step twoCopies
      (exampleRenewer tokenAgain).renewURL .renew).result = .ok ["prfr_bo_tkn"] := by decide
  refine ⟨by decide, (touch_keeps_jar_iff hrenew).mpr ?_⟩
  rintro _ ⟨⟩
  decide

/-- The failed touch throws the renewed token away. -/
theorem touch_resets_token_logout :
    ((exampleRenewer logout).step ((exampleRenewer logout).renewed oneCopy) "touch" .touch).result =
        .error (.authExpired "renew returned a redirect: /login") ∧
      ((exampleRenewer logout).renewed oneCopy).cookies = [tokenAt ".profi.ru" "h.new.s"] ∧
      ((exampleRenewer logout).jarAfter oneCopy).cookies = [tokenAt ".profi.ru" ""] := by
  refine ⟨by decide, by decide, by decide⟩

end Renewer

end ProfiNotifications.AuthWorker
