import ProfiNotifications.Foundations.History
import ProfiNotifications.Foundations.Transition
import ProfiNotifications.AuthWorker.Duplicates
import ProfiNotifications.AuthWorker.Renewer

/-! # The jar as a map

Under every order of calls the jar holds at an identity the cookie that was set there
last, unless the removal of old duplicates took it away since.
-/

namespace ProfiNotifications.AuthWorker

inductive JarOp where
  | newJar (cookies : List Cookie)
  | set (cookie : Cookie)
  | mergeResponseCookies (clock : ℕ → Int64) (response : Response)
  | removeOldTokenDuplicates

abbrev JarEvent := Keyed.Event (String × String × String) Cookie

/-- A jar and the cookies that were set in it and removed from it. -/
structure JarHistory where
  jar : Jar
  events : List JarEvent

namespace JarHistory

variable (codec : TokenCodec)

def start : JarHistory := ⟨Jar.empty, []⟩

/-- Perform one call. A new jar has a new history. -/
def perform (s : JarHistory) : JarOp → JarHistory
  | .newJar cookies => ⟨Jar.newJar cookies, cookies.map .write⟩
  | .set cookie => ⟨s.jar.set cookie, s.events ++ [.write cookie]⟩
  | .mergeResponseCookies clock response =>
    { jar := AuthWorker.mergeResponseCookies clock s.jar response
      events := s.events ++
        (response.cookies.mapIdx fun i c => domainCookie (clock i) c).map .write }
  | .removeOldTokenDuplicates =>
    { jar := codec.kept s.jar
      events := s.events ++ ((codec.removed s.jar).map Cookie.identity).map .erase }

def run (ops : List JarOp) : JarHistory := ops.foldl (perform codec) start

def lastTouch (s : JarHistory) (id : String × String × String) : Option JarEvent :=
  Keyed.lastEvent Cookie.identity s.events id

/-- A jar is the map of its last writes, and it keeps its order. -/
structure LastWriteWins (s : JarHistory) : Prop where
  distinct : s.jar.cookies.Pairwise fun c d => ¬ c.SameIdentity d
  held : ∀ id, (∃ c ∈ s.jar.cookies, c.identity = id) ↔ ∃ c, s.lastTouch id = some (.write c)
  last : ∀ c, c ∈ s.jar.cookies ↔ s.lastTouch c.identity = some (.write c)
  replace : ∀ before c after cookie, s.jar.cookies = before ++ c :: after →
    c.SameIdentity cookie → (s.jar.set cookie).cookies = before ++ cookie :: after

variable {codec} {s : JarHistory}

/-- Every call keeps what the history says. -/
theorem records_perform (h : Keyed.Records Cookie.identity s.jar.cookies s.events) (op : JarOp) :
    Keyed.Records Cookie.identity (perform codec s op).jar.cookies
      (perform codec s op).events := by
  cases op with
  | newJar cookies =>
    simpa [perform, Jar.cookies_newJar] using Keyed.Records.nil.overlay cookies
  | set cookie => exact h.upsert cookie
  | mergeResponseCookies clock response =>
    simpa [perform, mergeResponseCookies, Jar.cookies_setAll] using h.overlay _
  | removeOldTokenDuplicates =>
    simpa [perform, TokenCodec.kept, TokenCodec.removed, TokenCodec.removeOldTokenDuplicates,
      Jar.filter] using h.filter fun c => !TokenCodec.isStaleDuplicate c (codec.latestTokens s.jar)

theorem records_run (codec : TokenCodec) (ops : List JarOp) :
    Keyed.Records Cookie.identity (run codec ops).jar.cookies (run codec ops).events :=
  Transition.foldl_invariant
    (fun s : JarHistory => Keyed.Records Cookie.identity s.jar.cookies s.events)
    (fun _ op h => records_perform h op) Keyed.Records.nil ops

theorem LastWriteWins.of_records (h : Keyed.Records Cookie.identity s.jar.cookies s.events) :
    LastWriteWins s where
  distinct := s.jar.pairwise_not_sameIdentity
  held id := by
    rw [lastTouch, ← h.mem_keys_iff, List.mem_map]
  last _ := h.mem_iff
  replace before c after cookie hc hsame := by
    have hset : (s.jar.set cookie).cookies =
        Keyed.upsert Cookie.identity s.jar.cookies cookie := rfl
    have hn := h.nodup
    rw [hset, hc]
    rw [hc] at hn
    exact Keyed.upsert_replace hn (Cookie.sameIdentity_iff.mp hsame)

/-- After any calls the jar is the map of its last writes. -/
theorem lastWriteWins_run (codec : TokenCodec) (ops : List JarOp) :
    LastWriteWins (run codec ops) :=
  .of_records (records_run codec ops)

end JarHistory

end ProfiNotifications.AuthWorker
