import ProfiNotifications.AuthWorker.CookieStore

/-! # The use cases of the auth worker

Both use cases run under the cookie lock. A refresh loads the jar, renews the session
when its lifetime has come down to the threshold, checks that the renewal brought usable
tokens, and saves the jar. A read loads the jar and reports its cookies and lifetime.
-/

namespace ProfiNotifications.AuthWorker

variable {Bytes : Type}

inductive LockCall where
  | acquire (outcome : Except AuthError Unit)
  | release (outcome : Except String Unit)

namespace LockCall

def isAcquired : LockCall → Bool
  | acquire (.ok ()) => true
  | _ => false

def isRelease : LockCall → Bool
  | release _ => true
  | _ => false

end LockCall

structure LockOutcome where
  acquire : Except AuthError Unit
  release : Except String Unit

/-- What a use case did: its result, the files afterwards and its calls on the lock. -/
structure Run (Bytes α : Type) where
  result : Except AuthError α
  directory : Directory Bytes
  calls : List LockCall

/-- Run a body under the lock; the release is deferred to the end of the body and an error of
it is only logged. -/
def withLock {α : Type} (lock : LockOutcome) (dir : Directory Bytes)
    (body : Directory Bytes → Except AuthError α × Directory Bytes) : Run Bytes α :=
  match lock.acquire with
  | .error e => ⟨.error e, dir, [.acquire lock.acquire]⟩
  | .ok () =>
    let (result, dir) := body dir
    ⟨result, dir, [.acquire lock.acquire, .release lock.release]⟩

structure RenewOutcome where
  responseCookieNames : List String

structure Renewal where
  sets : List Cookie
  outcome : Except AuthError RenewOutcome

inductive ClockRead where
  | snapshot | verifyRenew | finalTokens

structure RefreshAuth (Bytes : Type) where
  store : Store Bytes
  codec : TokenCodec
  renew : Jar → Renewal
  clock : ClockRead → Int64
  refreshBeforeSecs : Int64

structure TokenSnapshot where
  ttl : Option Int64
  touched : Bool
  tokens : List TokenInfo
  details : List TokenDetail

structure FinalTokens where
  ttl : Int64
  details : List TokenDetail

structure RefreshResult where
  ttlBefore : Option Int64
  ttlAfter : Int64
  refreshed : Bool
  tokensBefore : List TokenDetail
  tokensAfter : List TokenDetail

namespace RefreshAuth

variable (uc : RefreshAuth Bytes)

def snapshot (j : Jar) : TokenSnapshot :=
  let now := uc.clock .snapshot
  { ttl := uc.codec.tokenTTL j now
    touched := uc.codec.allTouched j
    tokens := uc.codec.latestTokens j
    details := uc.codec.tokenDetails j now }

def expiredMessage (ttl : Int64) (names : List String) : String :=
  "renew returned success but tokens remain expired: ttl=" ++ toString ttl ++
    ", response cookies: [" ++ " ".intercalate names ++ "]"

def verifyRenew (j : Jar) (before : TokenSnapshot) (outcome : RenewOutcome) :
    Except AuthError Unit :=
  let now := uc.clock .verifyRenew
  let details := uc.codec.tokenDetails j now
  match uc.codec.tokenTTL j now with
  | none =>
    .error (.renewFailed "renew returned success but no JWT token cookies were found" none details)
  | some ttl =>
    if ttl ≤ 0 then
      .error (.renewFailed (expiredMessage ttl outcome.responseCookieNames) (some ttl) details)
    else if TokenCodec.changedTokens before.tokens (uc.codec.latestTokens j) = [] then
      .error (.renewFailed "renew returned success but token values and expiry did not change"
        (some ttl) details)
    else .ok ()

/-- Renew when needed. The renewal changes the jar in place, also when it fails. -/
def refreshIfNeeded (j : Jar) (before : TokenSnapshot) : Except AuthError Bool × Jar :=
  if TokenCodec.needsRefresh before.ttl uc.refreshBeforeSecs then
    let renewal := uc.renew j
    let j := j.setAll renewal.sets
    match renewal.outcome with
    | .error e => (.error e, j)
    | .ok outcome =>
      match uc.verifyRenew j before outcome with
      | .error e => (.error e, j)
      | .ok () => (.ok true, (uc.codec.removeOldTokenDuplicates j).1)
  else (.ok false, j)

def finalTokens (j : Jar) : Except AuthError FinalTokens :=
  let now := uc.clock .finalTokens
  match uc.codec.tokenTTL j now with
  | none => .error (.authExpired "no JWT tokens present in cookie jar")
  | some ttl =>
    if ttl ≤ 0 then .error (.authExpired ("JWT tokens expired: ttl=" ++ toString ttl))
    else .ok ⟨ttl, uc.codec.tokenDetails j now⟩

/-- The part of a cycle that runs under the lock. -/
def cycle (outcome : WriteOutcome Bytes) (dir : Directory Bytes) :
    Except AuthError RefreshResult × Directory Bytes :=
  match uc.store.load dir.file with
  | .error e => (.error e, dir)
  | .ok (j, url) =>
    let before := uc.snapshot j
    match uc.refreshIfNeeded j before with
    | (.error e, _) => (.error e, dir)
    | (.ok refreshed, j) =>
      match uc.finalTokens j with
      | .error e => (.error e, dir)
      | .ok final =>
        match uc.store.save outcome j url dir with
        | (.error e, dir) => (.error e, dir)
        | (.ok (), dir) =>
          (.ok ⟨before.ttl, final.ttl, refreshed, before.details, final.details⟩, dir)

def execute (lock : LockOutcome) (outcome : WriteOutcome Bytes) (dir : Directory Bytes) :
    Run Bytes RefreshResult :=
  withLock lock dir (uc.cycle outcome)

end RefreshAuth

inductive Status where
  | ok | renewFailed | requiresLogin | missingCookies | networkTimeout | networkError | error
  deriving DecidableEq, Repr

structure CookieSnapshot where
  cookies : List Cookie
  cookieHeader : String
  status : Status
  tokenTTL : Int64
  hasToken : Bool

def snapshotStatus (ttl : Int64) (hasToken : Bool) : Status :=
  if hasToken ∧ 0 < ttl then .ok else .requiresLogin

def cookieHeader (cookies : List Cookie) : String :=
  "; ".intercalate (cookies.map fun cookie => cookie.name ++ "=" ++ cookie.value)

structure GetCookies (Bytes : Type) where
  store : Store Bytes
  codec : TokenCodec
  now : Int64

def GetCookies.execute (uc : GetCookies Bytes) (lock : LockOutcome) (dir : Directory Bytes) :
    Run Bytes CookieSnapshot :=
  withLock lock dir fun dir =>
    match uc.store.load dir.file with
    | .error e => (.error e, dir)
    | .ok (j, _) =>
      let ttl := uc.codec.tokenTTL j uc.now
      (.ok
        { cookies := j.cookies
          cookieHeader := cookieHeader j.cookies
          status := snapshotStatus (ttl.getD 0) ttl.isSome
          tokenTTL := ttl.getD 0
          hasToken := ttl.isSome }, dir)

end ProfiNotifications.AuthWorker
