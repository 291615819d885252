import ProfiNotifications.OrderCore.Schemas

/-! # Mapping between wire messages and the domain

A batch of `parse.results` becomes accepted orders that keep the raw order, a message of
`assess.results` becomes a verdict, an accepted order becomes an `assess.requests`
envelope around it, and a notification becomes the camelCase payload for notifications.
-/

namespace ProfiNotifications.OrderCore

open Schemas

def toIncomingOrders (message : ParseResultMessage) : List IncomingOrder :=
  message.orders.map fun order =>
    { source := .profi
      externalId := order.id
      payload := order.dump
      requestId := some message.requestId
      fetchedAt := message.fetchedAt }

def toAssessmentOutcome (message : AssessmentResultMessage) : Validated AssessmentOutcome :=
  let n := message.notification
  AssessmentOutcome.validate message.orderId message.suitabilityScore
    { text := n.text
      parseMode := n.parseMode
      disableNotification := n.disableNotification
      disableWebPagePreview := n.disableWebPagePreview
      messageThreadId := n.messageThreadId }

/-- Wrap one order into the envelope of `assess.requests`. -/
def assessRequestPayload (order : IncomingOrder) : Json :=
  .obj [("request_id", .str (order.requestId.getD "")), ("fetched_at", .int order.fetchedAt),
    ("total_count", .int 1), ("next_cursor", .null), ("orders", .arr [order.payload])]

def notificationPayload (notification : NotificationCommand) : Json :=
  NotificationMessage.dump
    { text := notification.text
      parseMode := notification.parseMode
      disableNotification := notification.disableNotification
      disableWebPagePreview := notification.disableWebPagePreview
      messageThreadId := notification.messageThreadId }

theorem toAssessmentOutcome_ok (message : AssessmentResultMessage)
    (h₀ : 0 ≤ message.suitabilityScore) (h₁ : message.suitabilityScore ≤ 100) :
    ∃ outcome, toAssessmentOutcome message = .ok outcome ∧
      outcome.orderId = message.orderId ∧ outcome.suitabilityScore = message.suitabilityScore ∧
      notificationPayload outcome.notification = message.notification.dump :=
  ⟨_, AssessmentOutcome.validate_ok h₀ h₁, rfl, rfl, rfl⟩

theorem validate_assessRequestPayload {lax : Lax} {order : IncomingOrder} {o : Schemas.Order}
    (h : order.payload = o.dump) :
    ParseResultMessage.validate lax (assessRequestPayload order) = .ok
      { requestId := order.requestId.getD "", fetchedAt := order.fetchedAt, totalCount := 1
        orders := [o] } := by
  have ho := Lax.list_map (Order.validate_dump : ∀ o, Order.validate lax o.dump = .ok o) [o]
  rw [List.map_singleton] at ho
  simp [ParseResultMessage.validate, assessRequestPayload, Lax.default, Lax.required,
    Lax.optional, h, ho]

end ProfiNotifications.OrderCore
