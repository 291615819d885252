import ProfiNotifications.AuthWorker.Server
import ProfiNotifications.AuthWorker.WorkerRuns
import ProfiNotifications.ParserWorker.Board
import ProfiNotifications.ParserWorker.Consumer
import ProfiNotifications.ParserWorker.SparseBoard

/-! # From the cookie file to the board

The parser worker asks the auth worker for its cookies once for each parse request, and
sends their header with every page that it asks the board for.
-/

namespace ProfiNotifications

open AuthWorker
open ParserWorker (ProcessParseRequest ProfiBoardSource ParseRequest ParseResult ParserError)

variable {Bytes : Type}

/-- `GrpcCookieProvider.cookies`: of a failed call, the message is kept. -/
def ParserWorker.GrpcCookieProvider.cookies :
    Except AuthWorker.StatusError AuthWorker.GetCookiesResponse →
      Except ParserError ParserWorker.AuthCookies
  | .error status => .error (.auth status.message)
  | .ok response => .ok { header := response.cookieHeader, status := response.status }

/-- The parser worker, wired to the auth worker and to the board. -/
def wired (served : Except AuthError CookieSnapshot) (source : ProfiBoardSource)
    (publisher : ParseResult → Except ParserError Unit) : ProcessParseRequest where
  cookies := ParserWorker.GrpcCookieProvider.cookies (Server.getCookies served)
  board := source.fetch
  publisher := publisher

variable {served : Except AuthError CookieSnapshot} {source : ProfiBoardSource}
  {publisher : ParseResult → Except ParserError Unit} {request : ParseRequest}

theorem execute_of_error {e : AuthError} (h : served = .error e) :
    (wired served source publisher).execute request =
      ⟨[.cookies], .error (.auth (toStatusError e).message)⟩ := by
  subst h
  rfl

theorem fetch_of_mem_log {snapshot : CookieSnapshot} (h : served = .ok snapshot)
    {filter : ParserWorker.BoardFilter} {cursor : Option String}
    {cookies : ParserWorker.AuthCookies}
    (hcall : .fetch filter cursor cookies ∈
      ((wired served source publisher).execute request).log) :
    filter = request.filter ∧ cookies = ⟨snapshot.cookieHeader, snapshot.status.text⟩ := by
  have hcookies : (wired served source publisher).cookies =
      .ok ⟨snapshot.cookieHeader, snapshot.status.text⟩ := by
    rw [h]
    rfl
  have hfetch : ∀ {cookies' cursors}, .fetch filter cursor cookies ∈
      ProcessParseRequest.fetches request cookies' cursors →
        filter = request.filter ∧ cookies = cookies' := by
    intro cookies' cursors hmem
    obtain ⟨_, -, heq⟩ := List.mem_map.mp hmem
    obtain ⟨hfilter, -, hcookies⟩ := ParserWorker.Call.fetch.inj heq
    exact ⟨hfilter.symm, hcookies.symm⟩
  rcases (wired served source publisher).execute_cases request with ⟨e, he, -⟩ |
    ⟨cookies', cursors, hcookies', ⟨e, hrun⟩ | ⟨pages, -, hrun⟩⟩
  · cases hcookies.symm.trans he
  · obtain rfl := Except.ok.inj (hcookies.symm.trans hcookies')
    rw [hrun] at hcall
    exact hfetch ((List.mem_cons.mp hcall).resolve_left nofun)
  · obtain rfl := Except.ok.inj (hcookies.symm.trans hcookies')
    rw [hrun] at hcall
    rcases List.mem_append.mp hcall with hcall | hcall
    · exact hfetch ((List.mem_cons.mp hcall).resolve_left nofun)
    · cases List.mem_singleton.mp hcall

/--
After every run of the auth worker, with any renewals, failures and dying processes: a
request that finds no cookies does not get to the board, and its error is the one of the
cookie file or tells nothing. If the first cookie file could be loaded, every page is asked
for with the cookies of the file as it is now, among them one for each that was no token at
the start, with the value that was set last; once tokens were renewed, there is one token
in the header, and it can be read. The service is healthy exactly if the lifetime of the
tokens is positive; that of a token which expired more than `2 ^ 63` seconds ago is, too.
-/
theorem board_sees_login (d : Deployment Bytes) (ms : List (Moment Bytes))
    (cookies status : Directory Bytes) (now : Int64) (lock : LockOutcome)
    (source : ProfiBoardSource) (publisher : ParseResult → Except ParserError Unit)
    (request : ParseRequest) :
    let after := d.loop { cookies, status } ms
    let served := ((⟨d.store, d.codec, now⟩ : GetCookies Bytes).execute lock after.cookies).result
    let run := (wired served source publisher).execute request
    (∀ e, served = .error e → HealthServer.servingStatus served = .notServing ∧
      run = ⟨[.cookies], .error (.auth (toStatusError e).message)⟩) ∧
    ∀ j url, d.store.load cookies.file = .ok (j, url) → lock.acquire = .ok () →
      ∃ j', d.store.load after.cookies.file = .ok (j', url) ∧ KeepsLogin j after.applied j' ∧
        (HealthServer.servingStatus served = .serving ↔
          ∃ ttl, d.codec.tokenTTL j' now = some ttl ∧ 0 < ttl) ∧
        (∀ filter cursor k, .fetch filter cursor k ∈ run.log →
          filter = request.filter ∧ k.header = renderPairs (j'.cookies.map Cookie.pair)) ∧
        (after.renewed = true →
          ∃ c ∈ j'.cookies, Carries (renderPairs (j'.cookies.map Cookie.pair))
            (j'.cookies.map Cookie.pair) "prfr_bo_tkn" c.value ∧
            (d.codec.decodeJWTExp c.value).isSome) := by
  intro after served run
  constructor
  · intro e he
    refine ⟨?_, execute_of_error he⟩
    rw [he]
    rfl
  · intro j url hload hlock
    have hstart : Upheld d j url { cookies, status } := upheld_start hload rfl rfl
    obtain ⟨j', hload', hlogin, htoken⟩ := hstart.loop ms
    obtain ⟨snap, hsnap, -, hhas, httl, hstatus⟩ := execute_of_load now hlock hload'
    obtain ⟨-, hheader, -, -⟩ := execute_ok hload' hsnap
    refine ⟨j', hload', hlogin, ?_, ?_, fun hrenewed => ?_⟩
    · rw [serving_of_ok hsnap, hstatus, snapshotStatus_eq_ok, hhas, httl]
      cases d.codec.tokenTTL j' now <;> simp
    · intro filter cursor k hcall
      obtain ⟨hfilter, rfl⟩ := fetch_of_mem_log hsnap hcall
      exact ⟨hfilter, hheader.trans (cookieHeader_eq _)⟩
    · obtain ⟨c, e, hc, he, -⟩ := (htoken hrenewed).exists_token
      obtain ⟨hmem, hname⟩ := List.mem_filter.mp (hc ▸ List.mem_singleton_self c)
      refine ⟨c, hmem, ⟨rfl, ?_⟩, Option.isSome_of_eq_some he⟩
      have hfilter : (j'.cookies.map Cookie.pair).filter (fun pair => pair.1 = "prfr_bo_tkn") =
          (j'.cookies.filter fun c => c.name = "prfr_bo_tkn").map Cookie.pair := List.filter_map
      rw [hfilter, hc, List.map_singleton, Cookie.pair, of_decide_eq_true hname]

theorem board_sees_login_diedOnce : ∃ (pairs : List (String × String)) (c : Cookie),
    Carries "prfr_bo_tkn=h.new.s; sid=2; uid=7" pairs "prfr_bo_tkn" c.value ∧
      (exampleDeployment.codec.decodeJWTExp c.value).isSome := by
  have hload : exampleDeployment.store.load loggedIn.file = .ok (_, defaultURL) := rfl
  have hcall : ParserWorker.Call.fetch {} none ⟨"prfr_bo_tkn=h.new.s; sid=2; uid=7", "ok"⟩ ∈
      ((wired ((⟨exampleDeployment.store, exampleDeployment.codec, 50⟩ :
          GetCookies Json).execute unlocked diedOnce.cookies).result
        (ParserWorker.exampleSource (ParserWorker.answerWith (.arr []))) (fun _ => .ok ())).execute
          ⟨"1", {}, none⟩).log := List.mem_of_getElem? (i := 1) (by rfl)
  obtain ⟨-, hserved⟩ := board_sees_login exampleDeployment dyingOnce loggedIn ⟨.missing, none⟩ 50
    unlocked (ParserWorker.exampleSource (ParserWorker.answerWith (.arr []))) (fun _ => .ok ())
    ⟨"1", {}, none⟩
  obtain ⟨j', -, -, -, hcalls, htoken⟩ := hserved _ _ hload rfl
  obtain ⟨-, hheader⟩ := hcalls _ _ _ hcall
  obtain ⟨c, -, hcarries, hsome⟩ := htoken (by decide +kernel)
  exact ⟨_, c, hheader ▸ hcarries, hsome⟩

end ProfiNotifications
