import ProfiNotifications.Foundations.Cursor
import ProfiNotifications.Foundations.Logged
import ProfiNotifications.ParserWorker.Domain

/-! # Processing a parse request

A request is answered with the orders of several pages of the board. The pages are
fetched one after another, up to the number that the request allows or to the first page
without a cursor, and published as one result. Nothing is published when a call fails.
-/

namespace ProfiNotifications.ParserWorker

/-- What a request calls: the cookies, a page of the board, and the publisher. -/
inductive Call where
  | cookies
  | fetch (filter : BoardFilter) (cursor : Option String) (cookies : AuthCookies)
  | publish (result : ParseResult)

/-- What is collected while the pages are fetched. -/
structure Paging where
  orders : List Order := []
  cursor : Option String := none
  totalCount : UInt32 := 0
  fetchedAt : Int64 := 0

/-- Take a page in; the totals are those of the first page. -/
def Paging.extend (s : Paging) (pageIndex : ℕ) (page : BoardPage) : Paging where
  orders := s.orders ++ page.orders
  cursor := page.nextCursor
  totalCount := if pageIndex = 0 then page.totalCount else s.totalCount
  fetchedAt := if pageIndex = 0 then page.serverTs else s.fetchedAt

structure ProcessParseRequest where
  cookies : Except ParserError AuthCookies
  board : BoardFilter → Option String → AuthCookies → Except ParserError BoardPage
  publisher : ParseResult → Except ParserError Unit

namespace ProcessParseRequest

variable (p : ProcessParseRequest)

/-- Fetch the pages that remain, from the cursor of the last page on. -/
def fetchPages (filter : BoardFilter) (cookies : AuthCookies) :
    (remaining pageIndex : ℕ) → Paging → Logged Call ParserError Paging
  | 0, _, s => pure s
  | remaining + 1, pageIndex, s => do
    let page ← .call (.fetch filter s.cursor cookies) (p.board filter s.cursor cookies)
    let s := s.extend pageIndex page
    if s.cursor.isNone then pure s
    else fetchPages filter cookies remaining (pageIndex + 1) s

def execute (request : ParseRequest) : Logged Call ParserError ParseResult := do
  let cookies ← .call .cookies p.cookies
  let maxPages := max (request.maxPages.getD 1) 1
  let s ← p.fetchPages request.filter cookies maxPages.toNat 0 {}
  let result : ParseResult :=
    { requestId := request.requestId
      fetchedAt := s.fetchedAt
      totalCount := s.totalCount
      nextCursor := s.cursor
      orders := s.orders }
  .call (.publish result) (p.publisher result)
  return result

def budget (request : ParseRequest) : ℕ := max 1 (request.maxPages.elim 1 UInt32.toNat)

def source (request : ParseRequest) (cookies : AuthCookies) (cursor : Option String) :
    Except ParserError BoardPage := p.board request.filter cursor cookies

def fetches (request : ParseRequest) (cookies : AuthCookies) (cursors : List (Option String)) :
    List Call := cursors.map fun cursor => .fetch request.filter cursor cookies

def resultOf (request : ParseRequest) (pages : List BoardPage) : ParseResult where
  requestId := request.requestId
  fetchedAt := pages.head?.elim 0 BoardPage.serverTs
  totalCount := pages.head?.elim 0 BoardPage.totalCount
  nextCursor := pages.getLast?.elim none BoardPage.nextCursor
  orders := pages.flatMap BoardPage.orders

/-- All pages were fetched, each at the cursor of the one before it, and their orders were
published once. -/
structure Completed (request : ParseRequest) (cookies : AuthCookies) (pages : List BoardPage) :
    Prop where
  chain : Cursor.Chain (p.source request cookies) BoardPage.nextCursor none pages
  count : (pages.length : ℕ∞) = min (budget request : ℕ∞)
    (Cursor.pageCount (p.source request cookies) BoardPage.nextCursor none)
  run : p.execute request =
    ⟨.cookies :: fetches request cookies (none :: pages.map BoardPage.nextCursor).dropLast ++
        [.publish (resultOf request pages)],
      (p.publisher (resultOf request pages)).map fun _ => resultOf request pages⟩

/-- A fetch failed behind some pages, and nothing was published. -/
structure Aborted (request : ParseRequest) (cookies : AuthCookies) (pages : List BoardPage) :
    Prop where
  chain : Cursor.Chain (p.source request cookies) BoardPage.nextCursor none pages
  within : pages.length < budget request
  cursors : ∀ page ∈ pages, page.nextCursor.isSome
  run : ∃ e, p.source request cookies (pages.getLast?.elim none BoardPage.nextCursor) = .error e ∧
    p.execute request =
      ⟨.cookies :: fetches request cookies (none :: pages.map BoardPage.nextCursor), .error e⟩

end ProcessParseRequest

/-- Take several pages in, the first one with an index. -/
def Paging.extendAll (s : Paging) (pageIndex : ℕ) : List BoardPage → Paging
  | [] => s
  | page :: pages => (s.extend pageIndex page).extendAll (pageIndex + 1) pages

namespace Paging

variable (s : Paging) (i : ℕ) (page : BoardPage) (pages : List BoardPage)

theorem orders_extendAll :
    (s.extendAll i pages).orders = s.orders ++ pages.flatMap BoardPage.orders := by
  induction pages generalizing s i with
  | nil => simp [extendAll]
  | cons page pages ih => simp [extendAll, ih, extend]

theorem cursor_extendAll :
    (s.extendAll i pages).cursor = Cursor.after BoardPage.nextCursor s.cursor pages := by
  induction pages generalizing s i with
  | nil => rfl
  | cons page pages ih => rw [extendAll, ih, Cursor.after_cons, extend]

theorem totals_extendAll : (s.extendAll (i + 1) pages).totalCount = s.totalCount ∧
    (s.extendAll (i + 1) pages).fetchedAt = s.fetchedAt := by
  induction pages generalizing s i with
  | nil => exact ⟨rfl, rfl⟩
  | cons page pages ih =>
    obtain ⟨htotal, hfetched⟩ := ih (s.extend (i + 1) page) (i + 1)
    exact ⟨htotal, hfetched⟩

end Paging

namespace ProcessParseRequest

variable {p} {request : ParseRequest} {cookies : AuthCookies} {pages : List BoardPage}

theorem resultOf_eq (h : pages ≠ []) : resultOf request pages =
    { requestId := request.requestId
      fetchedAt := (Paging.extendAll {} 0 pages).fetchedAt
      totalCount := (Paging.extendAll {} 0 pages).totalCount
      nextCursor := (Paging.extendAll {} 0 pages).cursor
      orders := (Paging.extendAll {} 0 pages).orders } := by
  obtain ⟨page, pages, rfl⟩ := List.exists_cons_of_ne_nil h
  obtain ⟨htotal, hfetched⟩ := Paging.totals_extendAll (Paging.extend {} 0 page) 0 pages
  rw [Paging.orders_extendAll, Paging.cursor_extendAll, Paging.extendAll, htotal, hfetched]
  rfl

/-- The loop walks along the cursors of the pages. -/
theorem fetchPages_walks (p : ProcessParseRequest) (request : ParseRequest)
    (cookies : AuthCookies) (n i : ℕ) (s : Paging) : ∃ pages stop,
    Cursor.Walk (p.source request cookies) BoardPage.nextCursor n s.cursor pages stop ∧
      p.fetchPages request.filter cookies n i s = match stop with
        | none =>
          ⟨fetches request cookies (s.cursor :: pages.map BoardPage.nextCursor).dropLast,
            .ok (s.extendAll i pages)⟩
        | some e =>
          ⟨fetches request cookies (s.cursor :: pages.map BoardPage.nextCursor), .error e⟩ := by
  induction n generalizing i s with
  | zero => exact ⟨[], none, .spent _, rfl⟩
  | succ n ih =>
    unfold fetchPages
    cases hf : p.board request.filter s.cursor cookies with
    | error e => exact ⟨[], some e, .failed hf, rfl⟩
    | ok page =>
      simp only [Logged.call, Logged.bind_ok]
      by_cases hn : page.nextCursor = none
      · refine ⟨[page], none, .ended hf hn, ?_⟩
        simp [Paging.extend, Paging.extendAll, hn, fetches]
      · have hsome : page.nextCursor.isSome := Option.isSome_iff_ne_none.mpr hn
        obtain ⟨pages, stop, hwalk, hrun⟩ := ih (i + 1) (s.extend i page)
        refine ⟨page :: pages, stop, .more hf hsome hwalk, ?_⟩
        have hgo : (s.extend i page).cursor.isNone = false := by
          simpa [Paging.extend] using hsome
        rw [hgo, if_neg Bool.false_ne_true, hrun]
        cases stop with
        | none => rfl
        | some e => rfl

theorem toNat_maxPages (request : ParseRequest) :
    (max (request.maxPages.getD 1) 1).toNat = budget request := by
  have hmax : ∀ n : UInt32, (max n 1).toNat = max 1 n.toNat := by
    intro n
    have hle : n ≤ 1 ↔ n.toNat ≤ 1 := UInt32.le_iff_toNat_le
    have hdef : max n 1 = if n ≤ 1 then 1 else n := rfl
    rw [hdef]
    split
    · rename_i h
      exact (max_eq_left (hle.mp h)).symm
    · rename_i h
      exact (max_eq_right (Nat.le_of_not_le (mt hle.mpr h))).symm
  rw [hmax, budget]
  cases request.maxPages <;> rfl

/-- A request fetches exactly the pages that it allows and the board has. -/
theorem execute_exact (p : ProcessParseRequest) (request : ParseRequest) :
    (∀ e, p.cookies = .error e → p.execute request = ⟨[.cookies], .error e⟩) ∧
      ∀ cookies, p.cookies = .ok cookies → ∃ pages,
        p.Completed request cookies pages ∨ p.Aborted request cookies pages := by
  constructor
  · rintro e h
    rw [execute, h]
    rfl
  · rintro cookies h
    obtain ⟨pages, stop, hwalk, hrun⟩ := p.fetchPages_walks request cookies (budget request) 0 {}
    refine ⟨pages, ?_⟩
    cases stop with
    | none =>
      left
      have hne : pages ≠ [] := by
        rintro rfl
        rcases hwalk.stopped.2 with hzero | ⟨hnil, -⟩
        · exact absurd hzero (Nat.ne_of_lt (Nat.lt_of_lt_of_le Nat.one_pos (le_max_left _ _)))
        · exact hnil rfl
      refine ⟨hwalk.chain, hwalk.length_eq, ?_⟩
      rw [execute, h]
      simp only [Logged.call, Logged.bind_ok, toNat_maxPages, hrun, ← resultOf_eq hne]
      cases p.publisher (resultOf request pages) <;> simp [Except.map]
    | some e =>
      right
      obtain ⟨hat, hlt, hall⟩ := hwalk.failed_at
      refine ⟨hwalk.chain, hlt, hall, e, hat, ?_⟩
      rw [execute, h]
      simp only [Logged.call, Logged.bind_ok, toNat_maxPages, hrun]
      rfl

end ProcessParseRequest

end ProfiNotifications.ParserWorker
