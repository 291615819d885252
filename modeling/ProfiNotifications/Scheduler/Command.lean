import ProfiNotifications.ParserWorker.Board
import ProfiNotifications.ParserWorker.Codec
import ProfiNotifications.ParserWorker.Paging

/-! # Parse commands

The scheduler publishes a command for the parser worker at every tick. The numbers of a
command have no upper bound, while the parser worker reads 32 bits; within these bounds
it reads the command as it was meant, and beyond them it reads nothing.
-/

namespace ProfiNotifications.Scheduler

inductive SortOrder where
  | default | date
  deriving DecidableEq, Repr

def SortOrder.value : SortOrder → String
  | .default => "DEFAULT"
  | .date => "DATE"

structure BoardFilter where
  searchQuery : String := ""
  pageSize : ℤ := 10
  sort : SortOrder := .default
  allVerticals : Bool := true
  useSavedFilter : Bool := true
  pageSize_pos : 0 < pageSize := by decide
  deriving DecidableEq, Repr

structure ParseCommand where
  requestId : String
  filter : BoardFilter := {}
  maxPages : Option ℤ := none
  deriving DecidableEq, Repr

structure SchedulerSettings where
  parseIntervalSeconds : ℤ := 300
  parseQueue : String := "parse.requests"
  parseMaxPages : ℤ := 1
  parseSearchQuery : String := ""
  parseIntervalSeconds_pos : 0 < parseIntervalSeconds := by decide
  parseMaxPages_pos : 0 < parseMaxPages := by decide

/-- `BuildParseCommand.build` with a new id. -/
def build (settings : SchedulerSettings) (newId : String) : ParseCommand where
  requestId := newId
  filter := { searchQuery := settings.parseSearchQuery }
  maxPages := some settings.parseMaxPages

structure BoardFilterMessage where
  searchQuery : String := ""
  pageSize : ℤ := 10
  sort : String := "DEFAULT"
  allVerticals : Bool := true
  useSavedFilter : Bool := true

structure ParseRequestMessage where
  requestId : String
  filter : BoardFilterMessage := {}
  maxPages : Option ℤ := none

def BoardFilterMessage.dump (m : BoardFilterMessage) : Json :=
  .obj [("search_query", .str m.searchQuery), ("page_size", .int m.pageSize),
    ("sort", .str m.sort), ("all_verticals", .bool m.allVerticals),
    ("use_saved_filter", .bool m.useSavedFilter)]

/-- `model_dump(exclude_none=True)`. -/
def ParseRequestMessage.dumpExcludeNone (m : ParseRequestMessage) : Json :=
  .obj ([("request_id", .str m.requestId), ("filter", m.filter.dump)] ++
    Json.present "max_pages" .int m.maxPages)

def ParseCommand.message (command : ParseCommand) : ParseRequestMessage where
  requestId := command.requestId
  filter :=
    { searchQuery := command.filter.searchQuery
      pageSize := command.filter.pageSize
      sort := command.filter.sort.value
      allVerticals := command.filter.allVerticals
      useSavedFilter := command.filter.useSavedFilter }
  maxPages := command.maxPages

def toParseRequest (command : ParseCommand) : Json := command.message.dumpExcludeNone

/-- The numbers of a command have 32 bits. -/
def ParseCommand.Fits (command : ParseCommand) : Prop :=
  command.filter.pageSize < 2 ^ 32 ∧ ∀ n ∈ command.maxPages, 0 ≤ n ∧ n < 2 ^ 32

def SortOrder.toParserWorker : SortOrder → ParserWorker.SortOrder
  | .default => .default
  | .date => .date

/-- The request of a command, with its numbers as they are read. -/
def ParseCommand.requestWith (command : ParseCommand) (pageSize : UInt32)
    (maxPages : Option UInt32) : ParserWorker.ParseRequest where
  requestId := command.requestId
  filter :=
    { searchQuery := command.filter.searchQuery
      pageSize := pageSize
      sort := command.filter.sort.toParserWorker
      allVerticals := command.filter.allVerticals
      useSavedFilter := command.filter.useSavedFilter }
  maxPages := maxPages

/-- The request that a command stands for. -/
def ParseCommand.request (command : ParseCommand) : ParserWorker.ParseRequest :=
  command.requestWith (.ofNat command.filter.pageSize.toNat)
    (command.maxPages.map fun n => .ofNat n.toNat)

open ParserWorker (Reader)

variable {r : Reader} {command : ParseCommand}

theorem filter_dump (f : BoardFilterMessage) {sort : ParserWorker.SortOrder}
    (hs : ParserWorker.SortOrder.deserialize (.str f.sort) = some sort) :
    r.filter f.dump = (Serde.uint32 (.int f.pageSize)).map fun pageSize =>
      { searchQuery := f.searchQuery
        pageSize := pageSize
        sort := sort
        allVerticals := f.allVerticals
        useSavedFilter := f.useSavedFilter } := by
  simp only [Reader.filter, BoardFilterMessage.dump, Serde.struct_obj, Serde.default, Serde.field,
    Serde.members_cons, Serde.members_nil, String.reduceEq, if_true, if_false, hs]
  cases Serde.uint32 (.int f.pageSize) <;> rfl

theorem request_toParseRequest (r : Reader) (command : ParseCommand) :
    r.request (toParseRequest command) =
      (Serde.uint32 (.int command.filter.pageSize)).bind fun pageSize =>
        (command.maxPages.elim (some none) fun n => (Serde.uint32 (.int n)).map some).map
          (command.requestWith pageSize) := by
  have hsort : ParserWorker.SortOrder.deserialize (.str command.filter.sort.value) =
      some command.filter.sort.toParserWorker := by
    cases command.filter.sort <;> rfl
  have hfilter : r.filter command.message.filter.dump =
      (Serde.uint32 (.int command.filter.pageSize)).map fun pageSize =>
        (command.requestWith pageSize none).filter :=
    filter_dump command.message.filter hsort
  unfold toParseRequest ParseRequestMessage.dumpExcludeNone
  cases hmax : command.maxPages with
  | none =>
    have hmessage : command.message.maxPages = none := hmax
    simp only [Reader.request, hmessage, Json.present, Serde.struct_obj, Serde.required,
      Serde.default, Serde.optional, Serde.field, List.cons_append, List.nil_append,
      Serde.members_cons, Serde.members_nil, String.reduceEq, if_true, if_false, hfilter]
    cases Serde.uint32 (.int command.filter.pageSize) <;> rfl
  | some n =>
    have hmessage : command.message.maxPages = some n := hmax
    simp only [Reader.request, hmessage, Json.present, Serde.struct_obj, Serde.required,
      Serde.default, Serde.optional, Serde.field, List.cons_append, List.nil_append,
      Serde.members_cons, Serde.members_nil, String.reduceEq, if_true, if_false, hfilter,
      Serde.nullable, Option.elim_some]
    cases Serde.uint32 (.int command.filter.pageSize) <;> cases Serde.uint32 (.int n) <;> rfl

theorem uint32_int (n : ℤ) : Serde.uint32 (.int n) =
    if 0 ≤ n ∧ n < 2 ^ 32 then some (.ofNat n.toNat) else none := rfl

/-- The parser worker reads a command as it was meant if its numbers fit, and else not at all. -/
theorem request_of_fits (r : Reader) (h : command.Fits) :
    r.request (toParseRequest command) = some command.request := by
  obtain ⟨hsize, hmax⟩ := h
  rw [request_toParseRequest, uint32_int, if_pos ⟨command.filter.pageSize_pos.le, hsize⟩,
    Option.bind_some]
  unfold ParseCommand.request
  cases hm : command.maxPages with
  | none => rfl
  | some n =>
    rw [hm] at hmax
    rw [Option.elim_some, uint32_int, if_pos (hmax n rfl)]
    rfl

theorem request_of_not_fits (r : Reader) (h : ¬ command.Fits) :
    r.request (toParseRequest command) = none := by
  rw [request_toParseRequest, uint32_int]
  split
  · rename_i hsize
    cases hm : command.maxPages with
    | none => exact absurd ⟨hsize.2, by simp [hm]⟩ h
    | some n =>
      have hn : ¬ (0 ≤ n ∧ n < 2 ^ 32) := fun hn => h ⟨hsize.2, by simpa [hm] using hn⟩
      rw [Option.elim_some, uint32_int, if_neg hn]
      rfl
  · rfl

theorem decodeRequest_eq_ok {request : ParserWorker.ParseRequest} :
    r.decodeRequest (.json (toParseRequest command)) = .ok request ↔
      command.Fits ∧ request = command.request := by
  constructor
  · intro h
    obtain ⟨json, hjson, hrequest⟩ := Reader.decodeRequest_eq_ok.mp h
    obtain rfl := ParserWorker.Body.json.inj hjson
    have hfits : command.Fits := by
      by_contra hfits
      rw [request_of_not_fits r hfits] at hrequest
      cases hrequest
    rw [request_of_fits r hfits] at hrequest
    exact ⟨hfits, (Option.some.inj hrequest).symm⟩
  · rintro ⟨hfits, rfl⟩
    exact Reader.decodeRequest_eq_ok.mpr ⟨_, rfl, request_of_fits r hfits⟩

/-- The variables of the query for a command. -/
def ParseCommand.variables (command : ParseCommand) (cursor : Option String) : Json :=
  .obj
    ([("allVerticals", .bool command.filter.allVerticals),
      ("searchQuery", .str command.filter.searchQuery), ("searchEntities", .arr []),
      ("pageSize", .int command.filter.pageSize),
      ("useSavedFilter", .bool command.filter.useSavedFilter),
      ("sort", .str command.filter.sort.value), ("filter", .obj [])] ++
      Json.present "nextCursor" .str cursor)

/-- How many pages are fetched for a command at most. -/
def ParseCommand.budget (command : ParseCommand) : ℤ := max 1 (command.maxPages.getD 1)

theorem toNat_ofNat_toNat {n : ℤ} (h₀ : 0 ≤ n) (h : n < 2 ^ 32) :
    ((UInt32.ofNat n.toNat).toNat : ℤ) = n := by
  have hlt : n.toNat < 2 ^ 32 := by omega
  rw [UInt32.toNat_ofNat', Nat.mod_eq_of_lt hlt, Int.toNat_of_nonneg h₀]

theorem variables_request (h : command.Fits) (cursor : Option String) :
    ParserWorker.buildVariables command.request.filter cursor = command.variables cursor := by
  have hsort : command.filter.sort.toParserWorker.asApi = command.filter.sort.value := by
    cases command.filter.sort <;> rfl
  have hsize : ((command.request.filter.pageSize).toNat : ℤ) = command.filter.pageSize :=
    toNat_ofNat_toNat command.filter.pageSize_pos.le h.1
  rw [ParserWorker.buildVariables, ParseCommand.variables, hsize, ← hsort]
  rfl

theorem budget_request (h : command.Fits) :
    (ParserWorker.ProcessParseRequest.budget command.request : ℤ) = command.budget := by
  obtain ⟨-, hmax⟩ := h
  unfold ParserWorker.ProcessParseRequest.budget ParseCommand.budget ParseCommand.request
    ParseCommand.requestWith
  cases hm : command.maxPages with
  | none => rfl
  | some n =>
    rw [hm] at hmax
    obtain ⟨h₀, hlt⟩ := hmax n rfl
    have hn := toNat_ofNat_toNat h₀ hlt
    simp only [Option.map_some, Option.elim_some, Option.getD_some]
    omega

/--
The parser worker reads a command exactly if its page size and its number of pages have 32
bits. What it reads has the id of the command, its query asks the board for what the command
says at every cursor, and it fetches no more pages than the command allows.
-/
theorem command_understood (r : Reader) (command : ParseCommand) :
    ((∃ request, r.decodeRequest (.json (toParseRequest command)) = .ok request) ↔ command.Fits) ∧
      ∀ request, r.decodeRequest (.json (toParseRequest command)) = .ok request →
        request.requestId = command.requestId ∧
          (∀ cursor, ParserWorker.buildVariables request.filter cursor =
            command.variables cursor) ∧
          (ParserWorker.ProcessParseRequest.budget request : ℤ) = command.budget := by
  constructor
  · constructor
    · rintro ⟨request, h⟩
      exact (decodeRequest_eq_ok.mp h).1
    · rintro hfits
      exact ⟨command.request, decodeRequest_eq_ok.mpr ⟨hfits, rfl⟩⟩
  · rintro request h
    obtain ⟨hfits, rfl⟩ := decodeRequest_eq_ok.mp h
    exact ⟨rfl, variables_request hfits, budget_request hfits⟩

end ProfiNotifications.Scheduler
