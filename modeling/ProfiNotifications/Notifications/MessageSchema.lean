import ProfiNotifications.Foundations.Validation
import ProfiNotifications.Notifications.Domain

/-! # The message schema of the notifications service

A message body is an object that the broker client has decoded already, or bytes or a
string that contain one. The schema validates shape and types and strips unknown
members; a rejected body is answered with the issues of its fields.
-/

namespace ProfiNotifications.Notifications

inductive Body where
  | undefined
  | bytes (bs : List UInt8)
  | json (j : Json)
  deriving DecidableEq, Repr

/-- `JSON.parse`, the decoding of UTF-8, and the issue texts of the schema library. -/
structure Decoding where
  parse : String → Option Json
  utf8 : List UInt8 → String
  issues : Json → List String → List String

namespace Decoding

variable (decoding : Decoding)

/-- Objects and arrays are JSON objects to JavaScript. -/
def asObject : Json → Option Json
  | .obj members => some (.obj members)
  | .arr items => some (.arr items)
  | _ => none

def parseJsonObject (text : String) : Option Json := (decoding.parse text).bind asObject

def coerceToObject : Body → Option Json
  | .undefined => none
  | .bytes bs => decoding.parseJsonObject (decoding.utf8 bs)
  | .json (.str text) => decoding.parseJsonObject text
  | .json j => asObject j

end Decoding

/-- A member that may be missing, but is not `null`. -/
def optional {α : Type} (ms : List (String × Json)) (name : String) (v : Json → Validated α) :
    Validated (Option α) :=
  Lax.default ms name none fun j => some <$> v j

def ParseMode.validate : Json → Validated ParseMode
  | .str "HTML" => .ok .html
  | .str "MarkdownV2" => .ok .markdownV2
  | .str "Markdown" => .ok .markdown
  | _ => .errors [[]]

def boolean : Json → Validated Bool
  | .bool b => .ok b
  | _ => .errors [[]]

def maxSafeInteger : ℚ := 9007199254740991

/-- `z.number().int().positive()`; integers are safe integers. -/
def positiveInt (j : Json) : Validated ℚ :=
  match j with
  | .int n => check n
  | .float x => check x
  | _ => .errors [[]]
where
  check (x : ℚ) : Validated ℚ :=
    if IsPositiveInteger x ∧ x ≤ maxSafeInteger then .ok x else .errors [[]]

def notificationMessageSchema : Json → Validated NotificationCommand :=
  Lax.model fun ms => NotificationCommand.mk
    <$> Lax.required ms "text" Lax.str
    <*> optional ms "parseMode" ParseMode.validate
    <*> optional ms "disableNotification" boolean
    <*> optional ms "disableWebPagePreview" boolean
    <*> optional ms "messageThreadId" positiveInt

structure Issue where
  path : List String
  message : String

def Issue.render (issue : Issue) : String :=
  (if issue.path = [] then "(root)" else ".".intercalate issue.path) ++ ": " ++ issue.message

/-- The command of a body, or the reason why there is none. -/
def parseNotificationMessage (decoding : Decoding) (raw : Body) :
    Except String NotificationCommand :=
  match decoding.coerceToObject raw with
  | none => .error "message body is not a JSON object"
  | some candidate =>
    match notificationMessageSchema candidate with
    | .ok command => .ok command
    | .errors paths =>
      let issues := paths.flatMap fun path => (decoding.issues candidate path).map (Issue.mk path)
      .error ("; ".intercalate (issues.map Issue.render))

theorem optional_of_get {α β : Type} {ms : List (String × Json)} {name : String}
    {v : Json → Validated β} {f : α → Json} {g : α → β} {o : Option α}
    (h : Json.get ms name = o.map f) (hv : ∀ a ∈ o, v (f a) = .ok (g a)) :
    optional ms name v = .ok (o.map g) := by
  cases o with
  | none => rw [optional, Lax.default, h]; rfl
  | some a =>
    rw [optional, Lax.default, h, Option.map_some]
    simp only [hv a rfl, Validated.map_ok, Validated.at_ok, Option.map_some]

theorem parseNotificationMessage_ok {decoding : Decoding} {ms : List (String × Json)}
    {command : NotificationCommand} (h : notificationMessageSchema (.obj ms) = .ok command) :
    parseNotificationMessage decoding (.json (.obj ms)) = .ok command := by
  simp only [parseNotificationMessage, Decoding.coerceToObject, Decoding.asObject, h]

end ProfiNotifications.Notifications
