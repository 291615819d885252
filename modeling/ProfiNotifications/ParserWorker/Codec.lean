import ProfiNotifications.Foundations.Serde
import ProfiNotifications.ParserWorker.Domain

/-! # Parse requests on the wire

A request is read from the body of a message. Everything but its id may be missing, and
stands for a default then.
-/

namespace ProfiNotifications.ParserWorker

open Serde

/-- The variant of a name; a variant without data may be the one key of an object, too. -/
def SortOrder.deserialize : Json → Option SortOrder
  | .str name | .obj [(name, .null)] =>
    if name = "DEFAULT" then some .default else if name = "DATE" then some .date else none
  | _ => none

/-- The body of a message: the JSON that it is read as, or the error of reading it. -/
inductive Body where
  | json (value : Json)
  | malformed (cause : String)
  deriving DecidableEq, Repr

/-- How bodies are read: a value of any type, and the error of a value of another type. -/
structure Reader where
  value : Json → Option Json
  typeError : Json → String

namespace Reader

variable (r : Reader)

def filter : Json → Option BoardFilter := struct fun j => do
  let searchQuery ← default "" string j "search_query"
  let pageSize ← default 10 uint32 j "page_size"
  let sort ← default .default SortOrder.deserialize j "sort"
  let allVerticals ← default true bool j "all_verticals"
  let useSavedFilter ← default true bool j "use_saved_filter"
  let rawFilter ← default .null r.value j "raw_filter"
  return ⟨searchQuery, pageSize, sort, allVerticals, useSavedFilter, rawFilter⟩

def request : Json → Option ParseRequest := struct fun j => do
  let requestId ← required string j "request_id"
  let filter ← default {} r.filter j "filter"
  let maxPages ← optional uint32 j "max_pages"
  return ⟨requestId, filter, maxPages⟩

def decodeRequest : Body → Except ParserError ParseRequest
  | .malformed cause => .error (.invalidRequest cause)
  | .json json =>
    match r.request json with
    | none => .error (.invalidRequest (r.typeError json))
    | some request => .ok request

variable {r} {body : Body} {req : ParseRequest}

theorem decodeRequest_eq_ok :
    r.decodeRequest body = .ok req ↔ ∃ json, body = .json json ∧ r.request json = some req := by
  constructor
  · intro h
    cases body with
    | malformed cause => cases h
    | json json =>
      refine ⟨json, rfl, ?_⟩
      rw [decodeRequest] at h
      cases hr : r.request json with
      | none =>
        rw [hr] at h
        cases h
      | some request =>
        rw [hr] at h
        rw [Except.ok.inj h]
  · rintro ⟨json, rfl, h⟩
    rw [decodeRequest, h]

end Reader

end ProfiNotifications.ParserWorker
