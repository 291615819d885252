import ProfiNotifications.AuthWorker.Renewal

/-! # The worker loop

The worker runs one auth cycle after another. It turns the outcome of a cycle into a
status report, which replaces the status file, and into the delay before the next cycle.
Its process may die in a cycle; the lock is then free again, and the next process starts
from the files as they are.
-/

namespace ProfiNotifications.AuthWorker

variable {Bytes : Type}

namespace Status

def text : Status → String
  | ok => "ok"
  | renewFailed => "renew_failed"
  | requiresLogin => "requires_login"
  | missingCookies => "missing_or_invalid_cookies"
  | networkTimeout => "network_timeout"
  | networkError => "network_error"
  | error => "error"

end Status

/-- The text of an error; paths are quoted. -/
def AuthError.text (quote : String → String) : AuthError → String
  | .cookieFile message => message
  | .authExpired message => message
  | .renewFailed message _ _ => message
  | .renewNetwork cause _ => cause
  | .wrapped action path cause => action ++ " " ++ quote path ++ ": " ++ cause
  | .other message => message

/-- The outcome of a cycle; an empty error text stands for none. -/
structure StatusReport where
  status : Status
  updatedAt : Int64
  tokenTTL : Option Int64 := none
  refreshed : Bool := false
  error : String := ""
  tokens : List TokenDetail := []
  deriving DecidableEq, Repr

structure Intervals where
  check : Int64
  authExpired : Int64
  error : Int64

structure Worker where
  quote : String → String
  intervals : Intervals

namespace Worker

variable (w : Worker) (now : Int64)

def reportSuccess (result : RefreshResult) : StatusReport × Int64 :=
  ({ status := .ok
     updatedAt := now
     tokenTTL := some result.ttlAfter
     refreshed := result.refreshed
     tokens := result.tokensAfter }, w.intervals.check)

def reportFailure (err : AuthError) : StatusReport × Int64 :=
  let report (status : Status) : StatusReport :=
    { status := status, updatedAt := now, error := err.text w.quote }
  match err with
  | .renewFailed _ tokenTTL tokens =>
    ({ report .renewFailed with tokenTTL := tokenTTL, refreshed := true, tokens := tokens },
      w.intervals.authExpired)
  | .authExpired _ => (report .requiresLogin, w.intervals.authExpired)
  | .cookieFile _ => (report .missingCookies, w.intervals.error)
  | .renewNetwork _ timeout =>
    (report (if timeout then .networkTimeout else .networkError), w.intervals.error)
  | .wrapped _ _ _ | .other _ => (report .error, w.intervals.error)

def runOnce : Except AuthError RefreshResult → StatusReport × Int64
  | .ok result => w.reportSuccess now result
  | .error err => w.reportFailure now err

end Worker

def TokenDetail.toJson (d : TokenDetail) : Json :=
  .obj [("name", .str d.name), ("domain", .str d.domain), ("path", .str d.path),
    ("jwt_exp", .ofOption (fun n : Int64 => .int n.toInt) d.jwtExp),
    ("jwt_ttl", .ofOption (fun n : Int64 => .int n.toInt) d.jwtTTL),
    ("cookie_expires", .ofOption (fun n : Int64 => .int n.toInt) d.cookieExpires),
    ("fingerprint", .str d.fingerprint)]

/-- `dtoFromReport`, serialised; there is always a list of tokens. -/
def StatusReport.toJson (r : StatusReport) : Json :=
  .obj [("status", .str r.status.text), ("updated_at", .int r.updatedAt.toInt),
    ("token_ttl", .ofOption (fun n : Int64 => .int n.toInt) r.tokenTTL),
    ("refreshed", .bool r.refreshed),
    ("error", if r.error = "" then .null else .str r.error),
    ("tokens", .arr (r.tokens.map TokenDetail.toJson))]

/-- Where a process dies: before it saves, while it writes the temporary file, or after the
cookie file was replaced. -/
inductive CrashPoint (Bytes : Type) where
  | beforeSave
  | saving (torn : Bytes)
  | replaced

/-- What a cycle meets: the renewals, the clock, the lock and the writes, and perhaps its end. -/
structure Moment (Bytes : Type) where
  renew : Jar → Renewal
  clock : ClockRead → Int64
  reportedAt : Int64
  lock : LockOutcome
  outcome : WriteOutcome Bytes
  statusOutcome : WriteOutcome Bytes
  crash : Option (CrashPoint Bytes) := none

structure Deployment (Bytes : Type) where
  store : Store Bytes
  statusPaths : StorePaths
  codec : TokenCodec
  refreshBeforeSecs : Int64
  worker : Worker

/-- The files, and what happened: the reports, whether a cycle has saved renewed tokens, the
cookies that were set in what cycles have saved, and when the last cycle that saved has looked
at the clock first. -/
structure WorkerState (Bytes : Type) where
  cookies : Directory Bytes
  status : Directory Bytes
  reports : List StatusReport := []
  renewed : Bool := false
  applied : List Cookie := []
  checkedAt : Option Int64 := none

namespace Deployment

variable (d : Deployment Bytes)

def refreshAuth (m : Moment Bytes) : RefreshAuth Bytes where
  store := d.store
  codec := d.codec
  renew := m.renew
  clock := m.clock
  refreshBeforeSecs := d.refreshBeforeSecs

/-- The cycle of a process that dies: what it has saved, and the files that it leaves. -/
def crash (m : Moment Bytes) (point : CrashPoint Bytes) (dir : Directory Bytes) :
    Option RefreshResult × Directory Bytes :=
  match m.lock.acquire with
  | .error _ => (none, dir)
  | .ok () =>
    let cycle := (d.refreshAuth m).cycle ⟨none, false⟩ dir
    match point, cycle.1 with
    | .saving torn, .ok _ => (none, { dir with temporary := some torn })
    | .replaced, .ok result => (some result, cycle.2)
    | _, _ => (none, dir)

/-- The cookies that a cycle has set before it saved. -/
def appliedBy (s : WorkerState Bytes) (m : Moment Bytes) (result : RefreshResult) :
    List Cookie :=
  match result.refreshed, d.store.load s.cookies.file with
  | true, .ok (j, _) => (m.renew j).sets
  | _, _ => []

def record (s : WorkerState Bytes) (m : Moment Bytes) (saved : Option RefreshResult)
    (cookies : Directory Bytes) : WorkerState Bytes :=
  match saved with
  | none => { s with cookies := cookies }
  | some result =>
    { s with
      cookies := cookies
      renewed := s.renewed || result.refreshed
      applied := s.applied ++ d.appliedBy s m result
      checkedAt := some (m.clock .snapshot) }

/-- One cycle of the loop. An error of the report is only logged. -/
def step (s : WorkerState Bytes) (m : Moment Bytes) : WorkerState Bytes :=
  match m.crash with
  | some point =>
    let (saved, cookies) := d.crash m point s.cookies
    d.record s m saved cookies
  | none =>
    let run := (d.refreshAuth m).execute m.lock m.outcome s.cookies
    let (report, _) := d.worker.runOnce m.reportedAt run.result
    let data := d.store.text.encode report.toJson
    { d.record s m run.result.toOption run.directory with
      status := (write d.statusPaths m.statusOutcome data s.status).2
      reports := s.reports ++ [report] }

def loop (s : WorkerState Bytes) (ms : List (Moment Bytes)) : WorkerState Bytes :=
  ms.foldl d.step s

/-- A step leaves the cookie file alone, or replaces it by what a cycle has saved. -/
inductive CookieStep (s s' : WorkerState Bytes) (m : Moment Bytes) : Prop
  | kept (hfile : s'.cookies.file = s.cookies.file) (hrenewed : s'.renewed = s.renewed)
      (happlied : s'.applied = s.applied) (hchecked : s'.checkedAt = s.checkedAt)
  | saved {r : RefreshResult} {j k : Jar} {url : String} {dir : Directory Bytes}
      (hs : (d.refreshAuth m).Succeeded s.cookies dir r j k url) (hdir : s'.cookies = dir)
      (hrenewed : s'.renewed = (s.renewed || r.refreshed))
      (happlied : s'.applied = s.applied ++ if r.refreshed then (m.renew j).sets else [])
      (hchecked : s'.checkedAt = some (m.clock .snapshot))

variable {d} {s : WorkerState Bytes} {m : Moment Bytes}

theorem cookieStep_record {saved : Option RefreshResult} {cookies : Directory Bytes}
    (h : (saved = none ∧ cookies.file = s.cookies.file) ∨ ∃ r j k url,
      saved = some r ∧ (d.refreshAuth m).Succeeded s.cookies cookies r j k url) :
    d.CookieStep s (d.record s m saved cookies) m := by
  rcases h with ⟨rfl, hfile⟩ | ⟨r, j, k, url, rfl, hs⟩
  · exact .kept hfile rfl rfl rfl
  · refine .saved hs rfl rfl ?_ rfl
    have hloaded : d.store.load s.cookies.file = .ok (j, url) := hs.loaded
    simp only [record, appliedBy, hloaded]
    cases r.refreshed <;> rfl

/-- A run of the use case fails and leaves the file alone, or saves. -/
theorem execute_cases (uc : RefreshAuth Bytes) (lock : LockOutcome) (outcome : WriteOutcome Bytes)
    (dir : Directory Bytes) :
    ((∃ e, (uc.execute lock outcome dir).result = .error e) ∧
        (uc.execute lock outcome dir).directory.file = dir.file) ∨
      ∃ r j k url, (uc.execute lock outcome dir).result = .ok r ∧
        uc.Succeeded dir (uc.execute lock outcome dir).directory r j k url := by
  rw [RefreshAuth.execute]
  cases hl : lock.acquire with
  | error e =>
    have hrun : withLock lock dir (uc.cycle outcome) =
        ⟨.error e, dir, [.acquire (.error e)]⟩ := by
      unfold withLock; rw [hl]
    rw [hrun]
    exact Or.inl ⟨⟨e, rfl⟩, rfl⟩
  | ok u =>
    obtain ⟨hresult, hdir⟩ := result_withLock hl dir (uc.cycle outcome)
    rw [hresult, hdir]
    exact uc.cycle_cases outcome dir

theorem cookieStep (d : Deployment Bytes) (s : WorkerState Bytes) (m : Moment Bytes) :
    d.CookieStep s (d.step s m) m := by
  unfold step
  cases hcrash : m.crash with
  | some point =>
    apply cookieStep_record
    cases hl : m.lock.acquire with
    | error e => exact Or.inl ⟨rfl, rfl⟩
    | ok u =>
      rcases RefreshAuth.cycle_cases (d.refreshAuth m) ⟨none, false⟩ s.cookies with
        ⟨⟨e, he⟩, -⟩ | ⟨r, j, k, url, hok, hs⟩
      · simp only [he]
        cases point <;> exact Or.inl ⟨trivial, trivial⟩
      · simp only [hok]
        cases point with
        | beforeSave | saving torn => exact Or.inl ⟨rfl, rfl⟩
        | replaced => exact Or.inr ⟨r, j, k, url, rfl, hs⟩
  | none =>
    have hrecord : d.CookieStep s (d.record s m
        ((d.refreshAuth m).execute m.lock m.outcome s.cookies).result.toOption
        ((d.refreshAuth m).execute m.lock m.outcome s.cookies).directory) m := by
      apply cookieStep_record
      rcases execute_cases (d.refreshAuth m) m.lock m.outcome s.cookies with
        ⟨⟨e, he⟩, hfile⟩ | ⟨r, j, k, url, hok, hs⟩
      · rw [he]
        exact Or.inl ⟨rfl, hfile⟩
      · rw [hok]
        exact Or.inr ⟨r, j, k, url, rfl, hs⟩
    cases hrecord with
    | kept hfile hrenewed happlied hchecked => exact .kept hfile hrenewed happlied hchecked
    | saved hs hdir hrenewed happlied hchecked =>
      exact .saved hs hdir hrenewed happlied hchecked

theorem loop_append (s : WorkerState Bytes) (ms : List (Moment Bytes)) (m : Moment Bytes) :
    d.loop s (ms ++ [m]) = d.step (d.loop s ms) m := by
  simp [loop]

end Deployment

end ProfiNotifications.AuthWorker
