import Mathlib.Data.String.Basic
import ProfiNotifications.Foundations.Latest
import ProfiNotifications.Foundations.Sorting
import ProfiNotifications.Foundations.Unmarshal
import ProfiNotifications.AuthWorker.Jar

/-! # Session tokens

The value of a token cookie is a JWT whose claims carry the expiry of the session. A jar
may hold several copies of a token cookie. The copy with the furthest expiry counts, and
the shortest remaining lifetime over the token names is the lifetime of the session.
-/

instance instLinearOrderInt64 : LinearOrder Int64 where
  le_refl _ := Int64.le_refl _
  le_trans _ _ _ := Int64.le_trans
  lt_iff_le_not_ge a b := by
    rw [Int64.not_le]
    exact ⟨fun h => ⟨Int64.le_of_lt h, h⟩, And.right⟩
  le_antisymm _ _ := Int64.le_antisymm
  le_total := Int64.le_total
  toDecidableLE := inferInstance
  toDecidableLT := inferInstance
  toDecidableEq := inferInstance

namespace ProfiNotifications.AuthWorker

def tokenCookieNames : List String := ["prfr_bo_tkn"]

def IsTokenCookie (name : String) : Prop := name ∈ tokenCookieNames

instance (name : String) : Decidable (IsTokenCookie name) :=
  inferInstanceAs (Decidable (_ ∈ _))

structure JwtClaims where
  exp : Option ℚ
  status : String

/-- The decoding of a JWT segment from base64 and JSON, a short hash of a value, and the sort
of slices. -/
structure TokenCodec where
  decodeJWTClaims : String → Option JwtClaims
  fingerprint : String → String
  sort : SortSlice

/-- The freshest token cookie of a name. -/
structure TokenInfo where
  name : String
  expiration : Int64
  fingerprint : String
  status : String
  cookie : Cookie
  deriving DecidableEq, Repr

structure TokenDetail where
  name : String
  domain : String
  path : String
  jwtExp : Option Int64
  jwtTTL : Option Int64
  cookieExpires : Option Int64
  fingerprint : String
  deriving DecidableEq, Repr

/-- The errors that the auth worker reports. A wrapped error belongs to an operation on a
path. -/
inductive AuthError where
  | cookieFile (message : String)
  | authExpired (message : String)
  | renewFailed (message : String) (tokenTTL : Option Int64) (tokens : List TokenDetail)
  | renewNetwork (cause : String) (timeout : Bool)
  | wrapped (action path cause : String)
  | other (message : String)
  deriving DecidableEq, Repr

def tokenStatusTouched : String := "touched"

namespace TokenCodec

variable (codec : TokenCodec)

def segments (token : String) : List String :=
  (token.toList.splitOn '.').map String.ofList

def decodeJWTExp (token : String) : Option Int64 :=
  match segments token with
  | [_, claims, _] => ((codec.decodeJWTClaims claims).bind JwtClaims.exp).map Unmarshal.toInt64
  | _ => none

def tokenStatus (token : String) : Option String :=
  match segments token with
  | [_, claims, _] => (codec.decodeJWTClaims claims).map JwtClaims.status
  | _ => none

/-- What a cookie says about the session, if it is a token cookie with a readable token. -/
def tokenInfo (cookie : Cookie) : Option TokenInfo :=
  if IsTokenCookie cookie.name then
    (codec.decodeJWTExp cookie.value).map fun expiration =>
      { name := cookie.name
        expiration := expiration
        fingerprint := codec.fingerprint cookie.value
        status := (codec.tokenStatus cookie.value).getD ""
        cookie := cookie }
  else none

/-- The freshest readable copy of every token cookie. -/
def latestTokens (j : Jar) : List TokenInfo :=
  Latest.latest TokenInfo.name TokenInfo.expiration (j.cookies.filterMap codec.tokenInfo)

def allTouched (j : Jar) : Bool :=
  let latest := codec.latestTokens j
  !latest.isEmpty && latest.all fun token => token.status = tokenStatusTouched

/-- The smallest remaining lifetime over the freshest tokens, if there is a readable one. -/
def tokenTTL (j : Jar) (now : Int64) : Option Int64 :=
  match codec.latestTokens j with
  | [] => none
  | latest => some (Latest.least Int64.maxValue (latest.map fun token => token.expiration - now))

def tokenDetail (cookie : Cookie) (now : Int64) : TokenDetail :=
  let expiration := codec.decodeJWTExp cookie.value
  { name := cookie.name
    domain := cookie.domain
    path := cookie.path
    jwtExp := expiration
    jwtTTL := expiration.map (· - now)
    cookieExpires := if cookie.expiresAt = 0 then none else some cookie.expiresAt
    fingerprint := codec.fingerprint cookie.value }

def lessDetail (a b : TokenDetail) : Bool :=
  if a.name ≠ b.name then a.name < b.name
  else if a.domain ≠ b.domain then a.domain < b.domain
  else a.path < b.path

def tokenDetails (j : Jar) (now : Int64) : List TokenDetail :=
  codec.sort.run lessDetail
    ((j.cookies.filter fun cookie => IsTokenCookie cookie.name).map (codec.tokenDetail · now))

/-- A renew is needed when there is no token, or when its lifetime has come down to the
threshold. -/
def needsRefresh (ttl : Option Int64) (thresholdSeconds : Int64) : Bool :=
  match ttl with
  | none => true
  | some remaining => remaining ≤ thresholdSeconds

/-- The token names, in order, whose freshest copy is new or differs in value or expiry. -/
def changedTokens (before after : List TokenInfo) : List String :=
  tokenCookieNames.filter fun name =>
    match Keyed.lookup TokenInfo.name after name, Keyed.lookup TokenInfo.name before name with
    | none, _ => false
    | some _, none => true
    | some next, some previous =>
      previous.fingerprint ≠ next.fingerprint ∨ previous.expiration ≠ next.expiration

/-- A token cookie that is not the copy that counts for its name. -/
def isStaleDuplicate (cookie : Cookie) (latest : List TokenInfo) : Bool :=
  IsTokenCookie cookie.name &&
    match Keyed.lookup TokenInfo.name latest cookie.name with
    | none => false
    | some newest => ¬ newest.cookie.SameValue cookie

/-- Drop the stale copies of token cookies; they are returned. -/
def removeOldTokenDuplicates (j : Jar) : Jar × List Cookie :=
  let latest := codec.latestTokens j
  (j.filter fun cookie => !isStaleDuplicate cookie latest,
    j.cookies.filter fun cookie => isStaleDuplicate cookie latest)

/-- The expiries of the readable copies of a token cookie. -/
def expirations (j : Jar) (name : String) : Set Int64 :=
  {e | ∃ c ∈ j.cookies, c.name = name ∧ IsTokenCookie name ∧ codec.decodeJWTExp c.value = some e}

variable {codec} {j j' : Jar} {name : String} {e now : Int64} {c : Cookie} {t : TokenInfo}

theorem tokenInfo_eq_some (h : codec.tokenInfo c = some t) :
    IsTokenCookie c.name ∧ t.name = c.name ∧ t.cookie = c ∧
      codec.decodeJWTExp c.value = some t.expiration := by
  unfold tokenInfo at h
  split at h
  · rename_i hn
    obtain ⟨x, hx, rfl⟩ := Option.map_eq_some_iff.mp h
    exact ⟨hn, rfl, rfl, hx⟩
  · cases h

theorem exists_tokenInfo (hn : IsTokenCookie c.name)
    (he : codec.decodeJWTExp c.value = some e) :
    ∃ t, codec.tokenInfo c = some t ∧ t.name = c.name ∧ t.expiration = e := by
  unfold tokenInfo
  rw [if_pos hn, he, Option.map_some]
  exact ⟨_, rfl, rfl, rfl⟩

theorem ranks_tokenInfo (j : Jar) (name : String) :
    Latest.ranks TokenInfo.name TokenInfo.expiration (j.cookies.filterMap codec.tokenInfo) name =
      codec.expirations j name := by
  ext x
  constructor
  · rintro ⟨t, ht, rfl, rfl⟩
    obtain ⟨c, hc, hi⟩ := List.mem_filterMap.mp ht
    obtain ⟨hn, hname, -, he⟩ := tokenInfo_eq_some hi
    exact ⟨c, hc, hname.symm, hname ▸ hn, he⟩
  · rintro ⟨c, hc, rfl, hn, he⟩
    obtain ⟨t, hi, hname, hexp⟩ := exists_tokenInfo hn he
    exact ⟨t, List.mem_filterMap.mpr ⟨c, hc, hi⟩, hname, hexp⟩

/-- The freshest tokens carry the greatest expiry of every name. -/
theorem exists_mem_latestTokens_iff :
    (∃ t ∈ codec.latestTokens j, t.name = name ∧ t.expiration = e) ↔
      IsGreatest (codec.expirations j name) e := by
  rw [← ranks_tokenInfo]
  exact Latest.exists_mem_latest_iff

theorem mem_of_lookup_latestTokens
    (h : Keyed.lookup TokenInfo.name (codec.latestTokens j) name = some t) :
    t.cookie ∈ j.cookies ∧ t.cookie.name = name ∧ IsTokenCookie name ∧
      codec.decodeJWTExp t.cookie.value = some t.expiration := by
  obtain ⟨⟨hm, rfl⟩, -⟩ := Latest.holds_of_lookup h
  obtain ⟨c, hc, hi⟩ := List.mem_filterMap.mp hm
  obtain ⟨hn, hname, rfl, he⟩ := tokenInfo_eq_some hi
  exact ⟨hc, hname.symm, hname ▸ hn, he⟩

theorem exists_lookup_latestTokens (h : (codec.expirations j name).Nonempty) :
    ∃ t, Keyed.lookup TokenInfo.name (codec.latestTokens j) name = some t := by
  rw [← ranks_tokenInfo] at h
  obtain ⟨-, t, ht, hname, -⟩ := h
  have hk : name ∈ (j.cookies.filterMap codec.tokenInfo).map TokenInfo.name :=
    hname ▸ List.mem_map_of_mem ht
  exact Latest.exists_lookup TokenInfo.expiration hk

def remaining (codec : TokenCodec) (j : Jar) (now : Int64) : List Int64 :=
  (codec.latestTokens j).map fun token => token.expiration - now

theorem mem_remaining_iff {r : Int64} : r ∈ codec.remaining j now ↔
    ∃ name e, IsGreatest (codec.expirations j name) e ∧ e - now = r := by
  simp only [remaining, List.mem_map, ← exists_mem_latestTokens_iff]
  constructor
  · rintro ⟨t, ht, rfl⟩
    exact ⟨t.name, t.expiration, ⟨t, ht, rfl, rfl⟩, rfl⟩
  · rintro ⟨name, e, ⟨t, ht, rfl, rfl⟩, rfl⟩
    exact ⟨t, ht, rfl⟩

theorem tokenTTL_eq (j : Jar) (now : Int64) : codec.tokenTTL j now =
    if codec.remaining j now = [] then none
    else some (Latest.least Int64.maxValue (codec.remaining j now)) := by
  unfold tokenTTL remaining
  cases codec.latestTokens j <;> rfl

theorem tokenTTL_congr_remaining
    (hm : ∀ r, r ∈ codec.remaining j now ↔ r ∈ codec.remaining j' now) :
    codec.tokenTTL j now = codec.tokenTTL j' now := by
  have hn : codec.remaining j now = [] ↔ codec.remaining j' now = [] := by
    simp only [List.eq_nil_iff_forall_not_mem, hm]
  rw [tokenTTL_eq, tokenTTL_eq]
  exact if_congr hn rfl (congrArg some (Latest.least_congr hm))

theorem tokenTTL_congr (h : ∀ name, codec.expirations j name = codec.expirations j' name)
    (now : Int64) : codec.tokenTTL j now = codec.tokenTTL j' now := by
  apply tokenTTL_congr_remaining
  intro r
  simp only [mem_remaining_iff, h]

theorem token_name (h : IsTokenCookie name) : name = "prfr_bo_tkn" := List.mem_singleton.mp h

theorem name_of_mem_expirations (h : e ∈ codec.expirations j name) : name = "prfr_bo_tkn" := by
  obtain ⟨-, -, -, hn, -⟩ := h
  exact token_name hn

theorem isGreatest_unique {name' : String} {e' : Int64}
    (h : IsGreatest (codec.expirations j name) e)
    (h' : IsGreatest (codec.expirations j name') e') : e' = e := by
  obtain rfl := name_of_mem_expirations h.1
  obtain rfl := name_of_mem_expirations h'.1
  exact h'.unique h

/-- The furthest expiry decides the lifetime. -/
theorem tokenTTL_of_isGreatest (h : IsGreatest (codec.expirations j name) e) (now : Int64) :
    codec.tokenTTL j now = some (e - now) := by
  have hmem : e - now ∈ codec.remaining j now := mem_remaining_iff.mpr ⟨_, e, h, rfl⟩
  have hall : ∀ r ∈ codec.remaining j now, r = e - now := by
    intro r hr
    obtain ⟨name', e', h', rfl⟩ := mem_remaining_iff.mp hr
    rw [isGreatest_unique h h']
  rw [tokenTTL_eq, if_neg (List.ne_nil_of_mem hmem)]
  obtain ⟨hleast, hle⟩ := Latest.isLeast_least Int64.maxValue (codec.remaining j now)
  rcases hleast with hmax | hleast
  · congr 1
    apply le_antisymm (hle (Or.inr hmem))
    rw [hmax]
    exact Int64.le_maxValue _
  · rw [hall _ hleast]

theorem exists_isGreatest (h : (codec.expirations j name).Nonempty) :
    ∃ e, IsGreatest (codec.expirations j name) e := by
  obtain ⟨t, ht⟩ := exists_lookup_latestTokens h
  obtain ⟨hm, hname⟩ := Keyed.mem_of_lookup ht
  exact ⟨t.expiration, exists_mem_latestTokens_iff.mp ⟨t, hm, hname, rfl⟩⟩

theorem isGreatest_of_later {c : Cookie} (hc : c ∈ j.cookies) (hn : IsTokenCookie c.name)
    (he : codec.decodeJWTExp c.value = some e)
    (hlater : ∀ d ∈ j.cookies, d ≠ c → IsTokenCookie d.name →
      ∀ e', codec.decodeJWTExp d.value = some e' → e' < e) :
    IsGreatest (codec.expirations j c.name) e := by
  refine ⟨⟨c, hc, rfl, hn, he⟩, ?_⟩
  rintro e' ⟨d, hd, hname, hn', he'⟩
  by_cases hdc : d = c
  · rw [hdc, he] at he'
    exact (Option.some.inj he').ge
  · exact (hlater d hd hdc (hname ▸ hn') e' he').le

theorem exists_isGreatest_of_tokenTTL {ttl : Int64} (h : codec.tokenTTL j now = some ttl) :
    ∃ name e, IsGreatest (codec.expirations j name) e := by
  rw [tokenTTL_eq] at h
  split at h
  · cases h
  · rename_i hn
    obtain ⟨r, hr⟩ := List.exists_mem_of_ne_nil _ hn
    obtain ⟨name, e, he, -⟩ := mem_remaining_iff.mp hr
    exact ⟨name, e, he⟩

theorem filter_removeOldTokenDuplicates (h : (codec.expirations j name).Nonempty) :
    ∃ c ∈ j.cookies,
      (codec.removeOldTokenDuplicates j).1.cookies.filter (fun d => d.name = name) = [c] := by
  obtain ⟨t, ht⟩ := exists_lookup_latestTokens h
  obtain ⟨hm, hname, hn, -⟩ := mem_of_lookup_latestTokens ht
  refine ⟨t.cookie, hm, List.perm_singleton.mp ?_⟩
  have hnd := (codec.removeOldTokenDuplicates j).1.nodup.of_map
  refine (List.perm_ext_iff_of_nodup (hnd.filter _) (List.nodup_singleton _)).mpr fun d => ?_
  simp only [removeOldTokenDuplicates, Jar.filter, List.mem_filter, List.mem_singleton,
    decide_eq_true_eq]
  constructor
  · rintro ⟨⟨hd, hs⟩, rfl⟩
    simp only [isStaleDuplicate, ht, hn, decide_true, Bool.true_and, decide_not, Bool.not_not,
      decide_eq_true_eq] at hs
    exact (Keyed.eq_of_key_eq j.nodup hm hd (Cookie.sameIdentity_iff.mp hs.1)).symm
  · rintro rfl
    refine ⟨⟨hm, ?_⟩, hname⟩
    simp only [isStaleDuplicate, hname, ht, hn, decide_true, Bool.true_and, decide_not,
      Bool.not_not, decide_eq_true_eq]
    exact ⟨⟨rfl, rfl, rfl⟩, rfl⟩

end TokenCodec

end ProfiNotifications.AuthWorker
