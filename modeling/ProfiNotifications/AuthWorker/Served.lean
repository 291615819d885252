import ProfiNotifications.Foundations.Wrapping
import ProfiNotifications.AuthWorker.Touch

/-! # The served cookies

A read reports the lifetime of the freshest tokens and serves every cookie of the jar.
What it serves agrees with what it reports if and only if the jar has one copy of every
token cookie, which had not expired before the lifetime was computed: the subtraction of
the clock wraps around.
-/

namespace ProfiNotifications.AuthWorker

variable {Bytes : Type} {codec : TokenCodec} {j : Jar} {now ttl : Int64} {name url : String}
  {c : Cookie}

def Cookie.pair (c : Cookie) : String × String := (c.name, c.value)

theorem cookieHeader_eq (cookies : List Cookie) :
    cookieHeader cookies = renderPairs (cookies.map Cookie.pair) := by
  rw [cookieHeader, renderPairs, List.map_map]
  rfl

/-- Every token name occurs in one pair, with a token that lives at least as long as reported.
The pairs are the names and values of the cookies, also where a value holds a `; `. -/
def Matches (codec : TokenCodec) (now ttl : Int64) (header : String)
    (pairs : List (String × String)) : Prop :=
  ∀ name ∈ tokenCookieNames, ∃ value e, Carries header pairs name value ∧
    codec.decodeJWTExp value = some e ∧ ttl.toInt ≤ e.toInt - now.toInt

/-- The jar has one copy of every token cookie, and it has not expired before `now`. -/
def OneCopy (codec : TokenCodec) (now : Int64) (j : Jar) : Prop :=
  ∀ name ∈ tokenCookieNames, ∃ c, j.cookies.filter (fun d => d.name = name) = [c] ∧
    ∀ e, codec.decodeJWTExp c.value = some e → now ≤ e

theorem tokenTTL_single (h : codec.tokenTTL j now = some ttl)
    (hc : j.cookies.filter (fun d => d.name = "prfr_bo_tkn") = [c]) :
    ∃ e, codec.decodeJWTExp c.value = some e ∧ ttl = e - now := by
  obtain ⟨name, e, hgreatest⟩ := TokenCodec.exists_isGreatest_of_tokenTTL h
  rw [TokenCodec.tokenTTL_of_isGreatest hgreatest, Option.some.injEq] at h
  obtain ⟨d, hd, hn, htok, he⟩ := hgreatest.1
  have hmem : d ∈ j.cookies.filter fun d => d.name = "prfr_bo_tkn" :=
    List.mem_filter.mpr ⟨hd, decide_eq_true (hn.trans (TokenCodec.token_name htok))⟩
  rw [hc] at hmem
  exact ⟨e, List.mem_singleton.mp hmem ▸ he, h.symm⟩

theorem execute_ok {uc : GetCookies Bytes} {lock : LockOutcome} {dir : Directory Bytes}
    {snap : CookieSnapshot} (hload : uc.store.load dir.file = .ok (j, url))
    (hrun : (uc.execute lock dir).result = .ok snap) :
    snap.cookies = j.cookies ∧ snap.cookieHeader = cookieHeader j.cookies ∧
      snap.tokenTTL = (uc.codec.tokenTTL j uc.now).getD 0 ∧
      snap.status = snapshotStatus snap.tokenTTL (uc.codec.tokenTTL j uc.now).isSome := by
  unfold GetCookies.execute withLock at hrun
  split at hrun
  · cases hrun
  · simp only [hload] at hrun
    obtain rfl := Except.ok.inj hrun
    exact ⟨rfl, rfl, rfl, rfl⟩

theorem live {uc : GetCookies Bytes} {lock : LockOutcome} {dir : Directory Bytes}
    {snap : CookieSnapshot} (hload : uc.store.load dir.file = .ok (j, url))
    (hrun : (uc.execute lock dir).result = .ok snap) (hok : snap.status = .ok) :
    uc.codec.tokenTTL j uc.now = some snap.tokenTTL ∧ 0 < snap.tokenTTL := by
  obtain ⟨-, -, httl, hstatus⟩ := execute_ok hload hrun
  rw [hok, snapshotStatus] at hstatus
  split at hstatus
  · rename_i h
    obtain ⟨t, ht⟩ := Option.isSome_iff_exists.mp h.1
    refine ⟨?_, h.2⟩
    rw [httl, ht]
    rfl
  · cases hstatus

/--
When a read reports a live session, its header has exactly the reported copy of every
token cookie if and only if the jar has one copy of each, not expired before `now`.
-/
theorem served_header_matches_iff {uc : GetCookies Bytes} {lock : LockOutcome}
    {dir : Directory Bytes} {j : Jar} {url : String} {snap : CookieSnapshot}
    (hload : uc.store.load dir.file = .ok (j, url))
    (hrun : (uc.execute lock dir).result = .ok snap) (hok : snap.status = .ok) :
    Matches uc.codec uc.now snap.tokenTTL snap.cookieHeader (snap.cookies.map Cookie.pair) ↔
      OneCopy uc.codec uc.now j := by
  obtain ⟨hcookies, hheader, -, -⟩ := execute_ok hload hrun
  obtain ⟨httl, hpos⟩ := live hload hrun hok
  have hfilter : ∀ name, (j.cookies.map Cookie.pair).filter (fun pair => pair.1 = name) =
      (j.cookies.filter fun d => d.name = name).map Cookie.pair := by
    intro name
    rw [List.filter_map]
    rfl
  rw [hcookies, hheader, cookieHeader_eq]
  constructor
  · intro h name hname
    obtain ⟨value, e, ⟨-, hone⟩, he, hle⟩ := h name hname
    rw [hfilter, List.map_eq_singleton_iff] at hone
    obtain ⟨c, hc, hpair⟩ := hone
    obtain rfl : c.value = value := congrArg Prod.snd hpair
    refine ⟨c, hc, fun e' he' => ?_⟩
    obtain rfl := Option.some.inj (he.symm.trans he')
    have hpos' := Int64.lt_iff_toInt_lt.mp hpos
    rw [Int64.toInt_zero] at hpos'
    rw [Int64.le_iff_toInt_le]
    omega
  · intro h name hname
    obtain rfl := TokenCodec.token_name hname
    obtain ⟨c, hc, hexp⟩ := h _ hname
    obtain ⟨e, he, hsub⟩ := tokenTTL_single httl hc
    have hcname : c.name = "prfr_bo_tkn" := by
      have hmem : c ∈ j.cookies.filter fun d => d.name = "prfr_bo_tkn" :=
        hc ▸ List.mem_singleton_self c
      exact of_decide_eq_true (List.mem_filter.mp hmem).2
    refine ⟨c.value, e, ⟨rfl, ?_⟩, he, ?_⟩
    · rw [hfilter, hc, List.map_singleton, Cookie.pair, hcname]
    · rw [hsub] at hpos ⊢
      exact (Wrapping.sub_le_iff_of_pos hpos).mpr (hexp e he)

def exampleText (sort : SortSlice) : JsonText Json where
  sort := sort
  float64 := Int64.toInt
  blank _ := false
  parse := some
  syntaxError _ := ""
  typeError _ := ""
  encode := id
  blank_encode _ _ := rfl
  parse_encode _ _ := rfl

def exampleReader : GetCookies Json where
  store := ⟨⟨"cookies.json", ".", "cookies.json.tmp"⟩, exampleText .stable⟩
  codec := Renewer.exampleCodec
  now := 50

def exportedToken (domain value : String) : Json :=
  .obj [("name", .str "prfr_bo_tkn"), ("value", .str value), ("domain", .str domain)]

def filesOf (cookies : List Json) : Directory Json := ⟨.holds (.arr cookies), none⟩

def unlocked : LockOutcome := ⟨.ok (), .ok ()⟩

def singleCopy : Directory Json := filesOf [exportedToken ".profi.ru" "h.new.s"]

def oldAndNew : Directory Json :=
  filesOf [exportedToken ".profi.ru" "h.old.s", exportedToken "profi.ru" "h.new.s"]

theorem served_header_matches_singleCopy :
    ∃ snap, (exampleReader.execute unlocked singleCopy).result = .ok snap ∧
      Matches exampleReader.codec 50 150 snap.cookieHeader (snap.cookies.map Cookie.pair) := by
  have hload : exampleReader.store.load singleCopy.file = .ok _ := rfl
  have hrun : (exampleReader.execute unlocked singleCopy).result = .ok _ := rfl
  refine ⟨_, hrun, (served_header_matches_iff hload hrun (by decide)).mpr ?_⟩
  rintro name hname
  obtain rfl := TokenCodec.token_name hname
  refine ⟨{ Renewer.tokenAt ".profi.ru" "h.new.s" with session := false }, by decide, ?_⟩
  intro e he
  have h200 : exampleReader.codec.decodeJWTExp "h.new.s" = some 200 := by decide
  obtain rfl := Option.some.inj (h200.symm.trans he)
  decide

/-- Two copies are served, the old one first, and the lifetime is that of the new one. -/
theorem served_header_oldAndNew :
    ∃ snap, (exampleReader.execute unlocked oldAndNew).result = .ok snap ∧
      snap.status = .ok ∧ snap.tokenTTL = 150 ∧
      snap.cookieHeader = "prfr_bo_tkn=h.old.s; prfr_bo_tkn=h.new.s" ∧
      ¬ Matches exampleReader.codec 50 snap.tokenTTL snap.cookieHeader
        (snap.cookies.map Cookie.pair) := by
  refine ⟨_, rfl, by decide, by decide, by decide, fun h => ?_⟩
  obtain ⟨value, e, ⟨-, hone⟩, -⟩ := h "prfr_bo_tkn" (by decide)
  have hlen : _ = 1 := congrArg List.length hone
  exact absurd hlen (by decide)

end ProfiNotifications.AuthWorker
