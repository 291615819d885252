import ProfiNotifications.Foundations.Keyed

/-! # The cookie jar

The jar of the auth worker is an ordered collection of cookies in which no two cookies
share their name, domain and path. Setting a cookie replaces the cookie with the same
identity in place, or appends it.
-/

namespace ProfiNotifications.AuthWorker

inductive SameSite where
  | unspecified | none | lax | strict
  deriving DecidableEq, Repr

structure Cookie where
  name : String
  value : String
  domain : String
  path : String
  secure : Bool
  httpOnly : Bool
  hostOnly : Bool
  session : Bool
  sameSite : SameSite
  /-- Unix seconds; zero means that there is no persistent expiry. -/
  expiresAt : Int64
  deriving DecidableEq, Repr

namespace Cookie

variable (c d : Cookie)

def isSession : Bool := c.session || c.expiresAt = 0

def identity : String × String × String := (c.name, c.domain, c.path)

def SameIdentity : Prop := c.name = d.name ∧ c.domain = d.domain ∧ c.path = d.path

instance : Decidable (SameIdentity c d) := inferInstanceAs (Decidable (_ ∧ _))

def SameValue : Prop := SameIdentity c d ∧ c.value = d.value

instance : Decidable (SameValue c d) := inferInstanceAs (Decidable (_ ∧ _))

variable {c d}

theorem sameIdentity_iff : SameIdentity c d ↔ c.identity = d.identity := by
  simp [SameIdentity, identity]

end Cookie

/-- An ordered collection of cookies with pairwise different identities. -/
@[ext]
structure Jar where
  cookies : List Cookie
  nodup : (cookies.map Cookie.identity).Nodup

namespace Jar

def empty : Jar := ⟨[], List.nodup_nil⟩

def len (j : Jar) : ℕ := j.cookies.length

/-- Replace the cookie with the same identity, or append the cookie. -/
def set (j : Jar) (cookie : Cookie) : Jar :=
  ⟨Keyed.upsert Cookie.identity j.cookies cookie, Keyed.nodup_upsert j.nodup cookie⟩

def setAll (j : Jar) (cookies : List Cookie) : Jar := cookies.foldl set j

def newJar (cookies : List Cookie) : Jar := empty.setAll cookies

def filter (p : Cookie → Bool) (j : Jar) : Jar :=
  ⟨j.cookies.filter p, j.nodup.sublist ((List.filter_sublist).map _)⟩

theorem pairwise_not_sameIdentity (j : Jar) :
    j.cookies.Pairwise fun c d => ¬ c.SameIdentity d := by
  apply (List.pairwise_map.mp j.nodup).imp
  intro c d hne hsame
  exact hne (Cookie.sameIdentity_iff.mp hsame)

theorem cookies_setAll (j : Jar) (cookies : List Cookie) :
    (j.setAll cookies).cookies = Keyed.overlay Cookie.identity j.cookies cookies := by
  induction cookies generalizing j with
  | nil => rfl
  | cons c cookies ih => exact ih (j.set c)

theorem cookies_newJar (cookies : List Cookie) :
    (newJar cookies).cookies = Keyed.overlay Cookie.identity [] cookies :=
  cookies_setAll empty cookies

end Jar

end ProfiNotifications.AuthWorker
