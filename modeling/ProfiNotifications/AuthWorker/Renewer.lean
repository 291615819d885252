import ProfiNotifications.AuthWorker.Usecase

/-! # Renewing the session over HTTP

A renewal is two requests: renew issues a fresh token, touch upgrades it. A request
carries one cookie per name, with the value of the last cookie of that name in the jar.
The cookies of a response are merged into the jar before its status is looked at.
-/

namespace ProfiNotifications.AuthWorker

inductive HttpSameSite where
  | unset | default | lax | strict | none
  deriving DecidableEq, Repr

/-- A cookie of a response; `maxAge` is zero when it is not given. -/
structure HttpCookie where
  name : String
  value : String
  domain : String := ""
  path : String := ""
  maxAge : Int64 := 0
  expires : Option Int64 := none
  secure : Bool := false
  httpOnly : Bool := false
  sameSite : HttpSameSite := .unset
  deriving DecidableEq, Repr

structure Response where
  statusCode : ℕ
  location : String := ""
  retryAfter : String := ""
  cookies : List HttpCookie := []

structure Request where
  url : String
  cookie : String
  deriving DecidableEq, Repr

/-- A request that could not be made, or got no response. -/
inductive SendFault where
  | request (cause : String)
  | transport (cause : String) (timeout : Bool)

inductive Label where
  | renew | touch

def sameSiteFromHTTP : HttpSameSite → SameSite
  | .lax => .lax
  | .strict => .strict
  | .none => .none
  | _ => .unspecified

def domainCookie (now : Int64) (c : HttpCookie) : Cookie where
  name := c.name
  value := c.value
  domain := orDefault c.domain defaultDomain
  path := orDefault c.path defaultPath
  secure := c.secure
  httpOnly := c.httpOnly
  hostOnly := false
  session := ¬ 0 < c.maxAge ∧ c.expires = none
  sameSite := sameSiteFromHTTP c.sameSite
  expiresAt := if 0 < c.maxAge then now + c.maxAge else c.expires.getD 0

/-- Set the cookies of a response in a jar; the clock is read at each of them. -/
def mergeResponseCookies (clock : ℕ → Int64) (j : Jar) (response : Response) : Jar :=
  j.setAll (response.cookies.mapIdx fun i c => domainCookie (clock i) c)

def sortedNames (names : List String) : List String :=
  names.eraseDups.insertionSort fun a b => a ≤ b

def authRejectedCodes : List ℕ := [401, 403]

def redirectCodes : List ℕ := [301, 302, 303, 307, 308]

/-- The error that a completed response stands for. -/
def classify (response : Response) : Option AuthError :=
  let code := response.statusCode
  if code ∈ authRejectedCodes then
    some (.authExpired ("profi.ru rejected the renew request: HTTP " ++ toString code))
  else if code ∈ redirectCodes then
    some (.authExpired
      ("renew returned a redirect: " ++ orDefault response.location "no Location header"))
  else if code = 429 then
    some (.other ("profi.ru rate limited the renew request: Retry-After=" ++
      orDefault response.retryAfter "unspecified"))
  else if 400 ≤ code then
    some (.renewNetwork ("renew returned HTTP " ++ toString code) false)
  else none

namespace Renewer

def order (j : Jar) : List String := (j.cookies.map Cookie.name).eraseDups

def lastValue (j : Jar) (name : String) : String :=
  ((j.cookies.filter fun cookie => cookie.name = name).getLast?).elim "" Cookie.value

/-- One pair per name; the last value wins. -/
def cookiePairs (j : Jar) : List (String × String) :=
  (order j).map fun name => (name, lastValue j name)

end Renewer

def renderPairs (pairs : List (String × String)) : String :=
  "; ".intercalate (pairs.map fun pair => pair.1 ++ "=" ++ pair.2)

/-- A header renders these pairs, and one of them has this name: it has this value. The pairs
are those that the code puts together; how a reader splits the header at `; ` is not asked. -/
def Carries (header : String) (pairs : List (String × String)) (name value : String) : Prop :=
  header = renderPairs pairs ∧ pairs.filter (fun pair => pair.1 = name) = [(name, value)]

/-- The endpoints, the answers to the two requests, and the clock at each response cookie. -/
structure Renewer where
  renewURL : String
  touchURL : String
  exchange : Label → Request → Except SendFault Response
  clock : Label → ℕ → Int64

structure StepRun where
  request : Option Request
  sets : List Cookie
  result : Except AuthError (List String)

structure RenewRun extends Renewal where
  renewRequest : Option Request
  touchRequest : Option Request

namespace Renewer

variable (r : Renewer)

def cookieHeader (j : Jar) : String := renderPairs (cookiePairs j)

/-- What `mergeResponseCookies` sets, in order. -/
def responseCookies (label : Label) (response : Response) : List Cookie :=
  response.cookies.mapIdx fun i c => domainCookie (r.clock label i) c

def responseNames (response : Response) : List String :=
  sortedNames (response.cookies.map HttpCookie.name)

/-- Send the jar's cookies, merge the cookies of the response, and classify it. -/
def step (j : Jar) (url : String) (label : Label) : StepRun :=
  let request := ⟨url, cookieHeader j⟩
  match r.exchange label request with
  | .error (.request cause) => ⟨none, [], .error (.other cause)⟩
  | .error (.transport cause timeout) => ⟨some request, [], .error (.renewNetwork cause timeout)⟩
  | .ok response =>
    { request := some request
      sets := r.responseCookies label response
      result := match classify response with
        | some e => .error e
        | none => .ok (responseNames response) }

/-- Touch the renewed token; a failure is logged and swallowed. -/
def tryTouch (j : Jar) : StepRun × List String :=
  let touched := r.step j r.touchURL .touch
  match touched.result with
  | .error _ => (touched, [])
  | .ok names => (touched, names)

def mergeNames (first second : List String) : List String := sortedNames (first ++ second)

def renew (j : Jar) : RenewRun :=
  let renewed := r.step j r.renewURL .renew
  match renewed.result with
  | .error e =>
    { sets := renewed.sets, outcome := .error e
      renewRequest := renewed.request, touchRequest := none }
  | .ok renewNames =>
    let (touched, touchNames) := r.tryTouch (j.setAll renewed.sets)
    { sets := renewed.sets ++ touched.sets, outcome := .ok ⟨mergeNames renewNames touchNames⟩
      renewRequest := renewed.request, touchRequest := touched.request }

def renewed (j : Jar) : Jar := j.setAll (r.step j r.renewURL .renew).sets

def jarAfter (j : Jar) : Jar := j.setAll (r.renew j).sets

variable {r} {j : Jar} {names : List String}

theorem renew_of_ok (h : (r.step j r.renewURL .renew).result = .ok names) :
    (r.renew j).touchRequest = (r.step (r.renewed j) r.touchURL .touch).request ∧
      r.jarAfter j = (r.renewed j).setAll (r.step (r.renewed j) r.touchURL .touch).sets := by
  have hsets : (r.renew j).sets = (r.step j r.renewURL .renew).sets ++
      (r.step (r.renewed j) r.touchURL .touch).sets := by
    simp only [renew, h, tryTouch]
    split <;> rfl
  constructor
  · simp only [renew, h, tryTouch]
    split <;> rfl
  · rw [jarAfter, hsets, Jar.setAll, List.foldl_append]
    rfl

theorem step_request {url : String} {label : Label} {q : Request}
    (h : (r.step j url label).request = some q) : q = ⟨url, cookieHeader j⟩ := by
  simp only [step] at h
  split at h
  · cases h
  · exact (Option.some.inj h).symm
  · exact (Option.some.inj h).symm

theorem step_sets (r : Renewer) (j : Jar) (url : String) (label : Label) :
    (r.step j url label).sets = match r.exchange label ⟨url, cookieHeader j⟩ with
      | .ok response => r.responseCookies label response
      | .error _ => [] := by
  simp only [step]
  cases r.exchange label ⟨url, cookieHeader j⟩ with
  | ok response => rfl
  | error fault => cases fault <;> rfl

end Renewer

end ProfiNotifications.AuthWorker
