import ProfiNotifications.AuthWorker.Worker

/-! # The gRPC server

The cookies are served over gRPC. An error of the cookie file is told to the caller, any
other one is not. The service is healthy while it can serve a live session.
-/

namespace ProfiNotifications.AuthWorker

def SameSite.text : SameSite → String
  | unspecified => "unspecified"
  | none => "None"
  | lax => "Lax"
  | strict => "Strict"

structure ProtoCookie where
  name : String
  value : String
  domain : String
  path : String
  secure : Bool
  httpOnly : Bool
  hostOnly : Bool
  session : Bool
  sameSite : String
  expiresAt : Int64
  deriving DecidableEq, Repr

structure GetCookiesResponse where
  cookies : List ProtoCookie
  cookieHeader : String
  status : String
  tokenTtl : Int64
  hasToken : Bool
  deriving DecidableEq, Repr

inductive Code where
  | failedPrecondition | internal
  deriving DecidableEq, Repr

structure StatusError where
  code : Code
  message : String
  deriving DecidableEq, Repr

def toProtoCookie (cookie : Cookie) : ProtoCookie where
  name := cookie.name
  value := cookie.value
  domain := cookie.domain
  path := cookie.path
  secure := cookie.secure
  httpOnly := cookie.httpOnly
  hostOnly := cookie.hostOnly
  session := cookie.session
  sameSite := cookie.sameSite.text
  expiresAt := cookie.expiresAt

def toResponse (snapshot : CookieSnapshot) : GetCookiesResponse where
  cookies := snapshot.cookies.map toProtoCookie
  cookieHeader := snapshot.cookieHeader
  status := snapshot.status.text
  tokenTtl := snapshot.tokenTTL
  hasToken := snapshot.hasToken

def toStatusError : AuthError → StatusError
  | .cookieFile message => ⟨.failedPrecondition, message⟩
  | _ => ⟨.internal, "could not read cookies"⟩

def Server.getCookies : Except AuthError CookieSnapshot → Except StatusError GetCookiesResponse
  | .error err => .error (toStatusError err)
  | .ok snapshot => .ok (toResponse snapshot)

inductive ServingStatus where
  | serving | notServing
  deriving DecidableEq, Repr

def HealthServer.servingStatus : Except AuthError CookieSnapshot → ServingStatus
  | .error _ => .notServing
  | .ok snapshot => if snapshot.status ≠ .ok then .notServing else .serving

theorem serving_of_ok {result : Except AuthError CookieSnapshot} {snapshot : CookieSnapshot}
    (h : result = .ok snapshot) :
    HealthServer.servingStatus result = .serving ↔ snapshot.status = .ok := by
  rw [h, HealthServer.servingStatus]
  by_cases hok : snapshot.status = .ok <;> simp [hok]

theorem snapshotStatus_eq_ok {ttl : Int64} {hasToken : Bool} :
    snapshotStatus ttl hasToken = .ok ↔ hasToken = true ∧ 0 < ttl := by
  unfold snapshotStatus
  by_cases h : hasToken = true ∧ 0 < ttl <;> simp [h]

end ProfiNotifications.AuthWorker
