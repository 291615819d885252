import ProfiNotifications.Llm.Notification
import ProfiNotifications.OrderCore.Schemas

/-! # Wire schemas of the llm service

`assess.requests` is read with the same classes as in order-core-service, which both
services declare alike; every order becomes a listing. `assess.results` is written by
alias and without absent fields.
-/

namespace ProfiNotifications.Llm.Schemas

open Text

abbrev Geo := OrderCore.Schemas.Geo

abbrev Order := OrderCore.Schemas.Order

abbrev ParseResultMessage := OrderCore.Schemas.ParseResultMessage

abbrev NotificationMessage := OrderCore.Schemas.NotificationMessage

def ParseResultMessage.validate (lax : Lax) : Json → Validated ParseResultMessage :=
  OrderCore.Schemas.ParseResultMessage.validate lax

def location (geo : Geo) : Option String :=
  [geo.orderLocation, geo.remote, geo.clientMayCome].findSome? fun place =>
    place.bind fun place =>
      if strip pySpace place.prefix_ = "" then none else some (strip pySpace place.prefix_)

def orderBudget (order : Order) : Except Raised (Option Budget) :=
  match order.price with
  | none => .ok none
  | some price => Budget.fromPrice price.prefix_ price.value price.suffix

def orderToListing (order : Order) : Except Raised Listing := do
  let budget ← orderBudget order
  return {
    id := order.id
    title := order.title
    description := order.description
    budget := budget
    isRemote := order.geo.remote.isSome
    location := location order.geo
    clientTags := order.client.tags }

/-- The amount of the price of an order, if it has one, can be converted. -/
def PriceReadable (order : Order) : Prop :=
  ∀ price ∈ order.price, (Budget.amountDigits price.value).length ≤ Budget.maxStrDigits

theorem id_of_orderToListing {order : Order} {listing : Listing}
    (h : orderToListing order = .ok listing) : listing.id = order.id := by
  unfold orderToListing at h
  cases hbudget : orderBudget order with
  | error e =>
    rw [hbudget] at h
    cases h
  | ok budget =>
    rw [hbudget] at h
    cases h
    rfl

/-- Only the price of an order can keep it from being shown as a listing. -/
theorem orderToListing_ok_iff {order : Order} :
    (∃ listing, orderToListing order = .ok listing) ↔ PriceReadable order := by
  have hbudget : (∃ budget, orderBudget order = .ok budget) ↔ PriceReadable order := by
    unfold orderBudget PriceReadable
    cases order.price with
    | none => simp
    | some price => simpa using Budget.fromPrice_ok_iff
  rw [← hbudget, orderToListing]
  cases orderBudget order with
  | error e => simp [bind, Except.bind]
  | ok budget => simp [bind, Except.bind, pure, Except.pure]

def NotificationMessage.fromCommand (command : NotificationCommand) : NotificationMessage where
  text := command.text
  parseMode := some command.parseMode
  disableWebPagePreview := some command.disableWebPagePreview

structure AssessmentResultMessage where
  orderId : String
  suitabilityScore : ℤ
  notification : NotificationMessage
  deriving DecidableEq, Repr

def AssessmentResultMessage.fromResult (result : AssessmentResult) : AssessmentResultMessage where
  orderId := result.orderId
  suitabilityScore := result.suitabilityScore
  notification := NotificationMessage.fromCommand result.notification

/-- What `RabbitResultPublisher` publishes. -/
def AssessmentResultMessage.dump (m : AssessmentResultMessage) : Json :=
  .obj [("order_id", .str m.orderId), ("suitability_score", .int m.suitabilityScore),
    ("notification", m.notification.dump)]

end ProfiNotifications.Llm.Schemas
