import Mathlib.Data.List.DropRight
import ProfiNotifications.Notifications.Delivery

/-! # The Telegram sender

A notification becomes one `sendMessage` call, and its answer the error that the use case
decides on: a request that the API refuses is refused for good, and whatever may pass with
time is retried.
-/

namespace ProfiNotifications.Notifications

/--
What JavaScript makes of a value that is no string in a template, and of one that is no
number in a product. It may throw.
-/
structure Coercion where
  text : Json → Except String String
  number : Json → Except String (Option ℚ)

structure TelegramSenderOptions where
  botToken : String
  chatId : String
  baseUrl : Option String := none
  messageThreadId : Option ℚ := none

/-- A request to the API, sent as JSON by `POST`. -/
structure Request where
  url : String
  payload : Json
  deriving DecidableEq, Repr

/-- A request that fails, or the status of its response and its body if that is JSON. -/
inductive FetchResult where
  | failed (message : String)
  | response (status : ℕ) (body : Option Json)
  deriving DecidableEq, Repr

structure TelegramNotificationSender where
  endpoint : String
  chatId : String
  defaultThreadId : Option ℚ

namespace TelegramNotificationSender

def trimSlashes (url : String) : String := String.ofList (url.toList.rdropWhile (· = '/'))

def create (options : TelegramSenderOptions) : TelegramNotificationSender where
  endpoint := trimSlashes (options.baseUrl.getD "https://api.telegram.org") ++ "/bot" ++
    options.botToken ++ "/sendMessage"
  chatId := options.chatId
  defaultThreadId := options.messageThreadId

end TelegramNotificationSender

def ParseMode.value : ParseMode → String
  | .html => "HTML"
  | .markdownV2 => "MarkdownV2"
  | .markdown => "Markdown"

/-- A number as `JSON.stringify` writes it. -/
def numberJson (x : ℚ) : Json := if x.den = 1 then .int x.num else .float x

namespace TelegramNotificationSender

variable (sender : TelegramNotificationSender)

def buildPayload (notification : Notification) : Json :=
  .obj <|
    [("chat_id", .str sender.chatId), ("text", .str notification.text)] ++
    Json.present "message_thread_id" numberJson
      (notification.messageThreadId.orElse fun _ => sender.defaultThreadId) ++
    Json.present "parse_mode" (fun mode => .str mode.value) notification.parseMode ++
    Json.present "disable_notification" Json.bool notification.disableNotification ++
    Json.present "link_preview_options" (fun b => .obj [("is_disabled", .bool b)])
      notification.disableWebPagePreview

def request (notification : Notification) : Request where
  url := sender.endpoint
  payload := sender.buildPayload notification

end TelegramNotificationSender

def responseOk (status : ℕ) : Bool := 200 ≤ status ∧ status ≤ 299

/-- The description of a failure, as it is put into a message. -/
def description (coercion : Coercion) (status : ℕ) (body : Option Json) : Except String String :=
  match body.bind fun j => j.field "description" with
  | none | some .null => .ok ("HTTP " ++ toString status)
  | some (.str text) => .ok text
  | some j => coercion.text j

/-- The delay that the API asks for; the error carries it, and nothing reads it there. -/
def retryAfterMs (coercion : Coercion) (body : Option Json) : Except String (Option ℚ) :=
  match (body.bind fun j => j.field "parameters").bind fun j => j.field "retry_after" with
  | none => .ok none
  | some (.int n) => .ok (some (n * 1000))
  | some (.float x) => .ok (some (x * 1000))
  | some (.nonFinite _) => .ok none
  | some j => do return (← coercion.number j).map (· * 1000)

def classifyFailure (coercion : Coercion) (status : ℕ) (body : Option Json) : SendError :=
  match description coercion status body with
  | .error thrown => .unknown thrown
  | .ok text =>
    if status = 429 then
      match retryAfterMs coercion body with
      | .error thrown => .unknown thrown
      | .ok _ => .transient ("telegram rate limited: " ++ text)
    else if status ≥ 500 then
      .transient ("telegram server error " ++ toString status ++ ": " ++ text)
    else if status ≥ 400 then
      .permanent ("telegram rejected message " ++ toString status ++ ": " ++ text)
    else .transient ("unexpected telegram response " ++ toString status ++ ": " ++ text)

/-- What `send` resolves to once the request is answered or has failed. -/
def sendResult (coercion : Coercion) : FetchResult → Except SendError Unit
  | .failed message => .error (.transient ("telegram request failed: " ++ message))
  | .response status body =>
    if responseOk status ∧ (body.bind fun j => j.field "ok") ≠ some (.bool false) then .ok ()
    else .error (classifyFailure coercion status body)

namespace FetchResult

def Accepted : FetchResult → Prop
  | .failed _ => False
  | .response status body =>
    responseOk status ∧ (body.bind fun j => j.field "ok") ≠ some (.bool false)

instance (result : FetchResult) : Decidable result.Accepted := by
  unfold Accepted
  split <;> infer_instance

/-- The API has refused the request, other than for the rate of requests. -/
def Refused : FetchResult → Prop
  | .failed _ => False
  | .response status _ => 400 ≤ status ∧ status < 500 ∧ status ≠ 429

/-- The answer holds a value that cannot be put into a message. -/
def Unreadable (coercion : Coercion) (thrown : String) : FetchResult → Prop
  | .failed _ => False
  | .response status body => description coercion status body = .error thrown ∨
      (status = 429 ∧ retryAfterMs coercion body = .error thrown)

/-- The answer is of the kind that the error stands for. -/
def Explains (coercion : Coercion) (result : FetchResult) : SendError → Prop
  | .permanent _ => result.Refused
  | .transient _ => ¬ result.Refused
  | .unknown thrown => result.Unreadable coercion thrown

end FetchResult

variable {coercion : Coercion} {result : FetchResult} {err : SendError}

theorem sendResult_eq_ok : sendResult coercion result = .ok () ↔ result.Accepted := by
  cases result with
  | failed message => simp [sendResult, FetchResult.Accepted]
  | response status body =>
    simp only [sendResult, FetchResult.Accepted]
    split
    · exact ⟨fun _ => ‹_›, fun _ => rfl⟩
    · exact ⟨nofun, fun h => absurd h ‹_›⟩

theorem classifyFailure_explained (coercion : Coercion) (status : ℕ) (body : Option Json) :
    (FetchResult.response status body).Explains coercion
      (classifyFailure coercion status body) := by
  unfold classifyFailure
  cases hd : description coercion status body with
  | error thrown => exact Or.inl hd
  | ok text =>
    by_cases h429 : status = 429
    · cases hr : retryAfterMs coercion body with
      | error thrown =>
        rw [h429]
        exact Or.inr ⟨rfl, hr⟩
      | ok delay => simp [h429, FetchResult.Explains, FetchResult.Refused]
    · simp only [if_neg h429]
      split
      · simp only [FetchResult.Explains, FetchResult.Refused]
        omega
      · split
        · simp only [FetchResult.Explains, FetchResult.Refused]
          omega
        · simp only [FetchResult.Explains, FetchResult.Refused]
          omega

theorem sendResult_error (h : sendResult coercion result = .error err) :
    ¬ result.Accepted ∧ result.Explains coercion err := by
  have hna : ¬ result.Accepted := by
    intro ha
    rw [sendResult_eq_ok.mpr ha] at h
    cases h
  refine ⟨hna, ?_⟩
  cases result with
  | failed message =>
    obtain rfl := Except.error.inj h
    exact id
  | response status body =>
    simp only [sendResult] at h
    split at h
    · cases h
    · obtain rfl := Except.error.inj h
      exact classifyFailure_explained coercion status body

end ProfiNotifications.Notifications
