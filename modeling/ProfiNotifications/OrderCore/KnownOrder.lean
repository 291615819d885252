import ProfiNotifications.Llm.Schemas
import ProfiNotifications.OrderCore.Assessment
import ProfiNotifications.OrderCore.Ingest
import ProfiNotifications.OrderCore.Relay

/-! # Verdicts name known orders

The llm service answers with the id of an order that it read from a published request,
a published request is a committed outbox row, and a committed request belongs to a
stored order whose payload carries its own id. Stored orders never go away, so the
handler of such a verdict finds its order.
-/

namespace ProfiNotifications.OrderCore

open Keyed ReadCommitted Transition

namespace ProcessAssessment

variable {lax : Lax} {threshold : ℤ} {tables : Tables} {others : List Session}
  {s s' t : Session} {core core' : Core} {a : Action} {move : Move} {v : AssessmentOutcome}

/-- The verdict names an order that the llm service read from a published request. -/
def Answers (lax : Lax) (core : Core) (v : AssessmentOutcome) : Prop :=
  ∃ s ∈ core.sessions, ∃ h ∈ s.handed,
    h.1.destination = OutboxDestination.assessRequest.value ∧
    ∃ m, Llm.Schemas.ParseResultMessage.validate lax h.1.payload = .ok m ∧
    ∃ order ∈ m.orders, ∃ listing assessment, Llm.Schemas.orderToListing order = .ok listing ∧
      v.orderId = (Llm.buildResult listing assessment).orderId

/-- Ingest calls get the orders of a message, process calls get answers of the llm service. -/
def Answered (lax : Lax) (core : Core) : Action → Prop
  | .start (.ingest batch) _ => ∃ message, batch = toIncomingOrders message
  | .start (.process v) _ => Answers lax core v
  | a => a.service = true

theorem Answered.service (h : Answered lax core a) : a.service = true := by
  unfold Answered at h
  split at h <;> first | rfl | exact h

/-- An accepted order is one of the wire orders, under its id. -/
def FromWire (o : IncomingOrder) : Prop :=
  ∃ order : Schemas.Order, o.source = .profi ∧ o.externalId = order.id ∧ o.payload = order.dump

theorem fromWire_of_mem {message : Schemas.ParseResultMessage} {o : IncomingOrder}
    (h : o ∈ toIncomingOrders message) : FromWire o := by
  obtain ⟨order, -, rfl⟩ := List.mem_map.mp h
  exact ⟨order, rfl, rfl, rfl⟩

theorem FromWire.id_of_validate {o : IncomingOrder} (h : FromWire o)
    {m : Schemas.ParseResultMessage}
    (hm : Llm.Schemas.ParseResultMessage.validate lax (assessRequestPayload o) = .ok m)
    {order : Schemas.Order} (ho : order ∈ m.orders) : (Source.profi, order.id) = o.key := by
  obtain ⟨order', hs, hid, hp⟩ := h
  obtain rfl := Validated.ok.inj ((validate_assessRequestPayload hp).symm.trans hm)
  rw [List.mem_singleton.mp ho, IncomingOrder.key, hs, hid]

/-- Where the handler of a verdict on a stored order is. -/
inductive Serving (threshold : ℤ) (v : AssessmentOutcome) : Prog → Prop
  | reading : Serving threshold v (handle threshold v)
  | deciding : Serving threshold v (apply threshold v)
  | queueing : Serving threshold v
      (addNotification .profi v.orderId v.notification (.commit .ret))
  | committing : Serving threshold v (.commit .ret)
  | returned : Serving threshold v .ret
  | failed (m : String) : Serving threshold v (.raise (.other m))

/-- What a session claimed is committed, and the order of its verdict is stored. -/
structure Known (threshold : ℤ) (tables : Tables) (s : Session) : Prop where
  batch : ∀ o ∈ s.call.batch, FromWire o
  claimed : ∀ e ∈ s.claimed, ∃ r ∈ tables.outbox, r.toEvent = e
  serving : ∀ v, s.call = .process v →
    key v ∈ tables.orders.map OrderRow.key ∧ Serving threshold v s.prog

theorem get_ne_none {tx : OrdersTx} {source : Source} {externalId : String}
    (h : (source, externalId) ∈ tables.orders.map OrderRow.key) :
    get tables.orders tx source externalId ≠ none := by
  intro hn
  apply lookup_eq_none_iff.mp (Option.map_eq_none_iff.mp hn)
  exact mem_keys_view.mpr (Or.inl h)

theorem Serving.local (hs : Serving threshold v s.prog)
    (hk : key v ∈ tables.orders.map OrderRow.key) (h : LocalStep tables others s move s') :
    Serving threshold v s'.prog := by
  rcases h.inv with ⟨-, m, rfl⟩ | hi
  · rw [Session.abort_prog]
    exact .failed m
  generalize hp : s.prog = p at hs
  cases hs with
  | reading =>
    simp only [Session.After, hp, handle] at hi
    subst hi
    rw [Session.resume_prog]
    split
    · exact absurd ‹_› (get_ne_none hk)
    · split
      · exact .deciding
      · exact .committing
  | deciding =>
    unfold apply at hp
    split at hp <;> simp only [Session.After, hp] at hi <;> obtain ⟨tx, b, -, -, rfl⟩ := hi <;>
      rw [Session.resume_prog]
    · exact .queueing
    · exact .committing
  | queueing =>
    simp only [Session.After, hp, addNotification] at hi
    obtain ⟨tx, b, -, rfl⟩ := hi
    rw [Session.resume_prog]
    exact .committing
  | committing => simp only [Session.After, hp] at hi
  | returned => simp only [Session.After, hp] at hi
  | failed m => simp only [Session.After, hp] at hi

theorem Serving.commit {next prog : Prog} (hs : Serving threshold v s.prog)
    (hp : s.prog = .commit next) (hn : prog = next ∨ ∃ m, prog = .raise (.other m)) :
    Serving threshold v prog := by
  rcases hn with rfl | ⟨m, rfl⟩
  · rw [hp] at hs
    generalize hq : Prog.commit prog = q at hs
    cases hs with
    | committing => exact Prog.commit.inj hq ▸ .returned
    | deciding => unfold apply at hq; split at hq <;> cases hq
    | _ => cases hq
  · exact .failed m

/-- Orders, requests, runs of the relay and handlers fit together. -/
structure Answering (threshold : ℤ) (core : Core) : Prop where
  ingest : IngestOrders.Invariant core
  relay : RelayOutbox.Invariant core
  known : ∀ s ∈ core.sessions, Known threshold core.tables s
  wire : ∀ o ∈ core.ingested, FromWire o

theorem Answering.mem_keys (hi : Answering threshold core) (h : Answers lax core v) :
    key v ∈ core.tables.orders.map OrderRow.key := by
  obtain ⟨s, hs, h, hh, hd, m, hm, order, ho, listing, assessment, hlisting, hv⟩ := h
  obtain ⟨e, he, heq⟩ := (hi.known s hs).claimed h.1 ((hi.relay.points s hs).handed_claimed hh)
  rw [← heq] at hd hm
  change e.destination = _ at hd
  change Llm.Schemas.ParseResultMessage.validate lax e.payload = _ at hm
  have hev : (e.dedupKey, e.payload) ∈ core.tables.outbox.filterMap OutboxRow.assessEvent :=
    List.mem_filterMap.mpr ⟨e, he, if_pos hd⟩
  rw [hi.ingest.inStep.outbox] at hev
  obtain ⟨r, hr, hre⟩ := List.mem_map.mp hev
  have hpay : assessRequestPayload r.incoming = e.payload := congrArg Prod.snd hre
  have hin : r.incoming ∈ core.ingested := by
    have hmem := List.mem_map_of_mem (f := OrderRow.incoming) hr
    rw [hi.ingest.inStep.orders] at hmem
    exact (fresh_sublist _ _).subset hmem
  rw [← hpay] at hm
  have hkey := (hi.wire _ hin).id_of_validate hm ho
  have hid : v.orderId = order.id := hv.trans (Llm.Schemas.id_of_orderToListing hlisting)
  rw [key, hid]
  exact hkey ▸ List.mem_map_of_mem hr

theorem Known.local (hi : Answering threshold core) (hs : s ∈ core.sessions)
    (h : LocalStep core.tables others s move s') (hk : Known threshold core.tables s) :
    Known threshold core.tables s' := by
  refine ⟨by rw [h.call_eq]; exact hk.batch, fun e he => ?_, fun v hv => ?_⟩
  · rcases (hi.relay.points s hs).claims h he with he | ⟨r, hr, hre, -⟩
    exacts [hk.claimed e he, ⟨r, hr, hre⟩]
  · rw [h.call_eq] at hv
    obtain ⟨hkey, hserve⟩ := hk.serving v hv
    exact ⟨hkey, hserve.local hkey h⟩

/-- Commits keep events and orders, so what is known stays known. -/
theorem Known.stable (hi : Answering threshold core) (hs : s ∈ core.sessions)
    (hk : Known threshold core.tables t) : Known threshold (s.committed core.tables) t := by
  have hc := hi.ingest.isolated
  refine ⟨hk.batch, fun e he => ?_, fun v hv => ?_⟩
  · obtain ⟨r, hr, rfl⟩ := hk.claimed e he
    exact (hi.relay.points s hs).event_stays hc.outbox_nodup (hc.outbox_wellFormed s hs) hr
  · obtain ⟨hkey, hserve⟩ := hk.serving v hv
    exact ⟨mem_keys_commit.mpr (Or.inl hkey), hserve⟩

theorem Known.commit {next prog : Prog} (hk : Known threshold tables s)
    (hp : s.prog = .commit next) (hn : prog = next ∨ ∃ m, prog = .raise (.other m)) :
    Known threshold tables (s.afterCommit prog) := by
  refine ⟨by rw [Session.afterCommit_call]; exact hk.batch,
    by rw [Session.afterCommit_claimed]; exact hk.claimed, fun v hv => ?_⟩
  rw [Session.afterCommit_call] at hv
  obtain ⟨hkey, hserve⟩ := hk.serving v hv
  rw [Session.afterCommit_prog]
  exact ⟨hkey, hserve.commit hp hn⟩

theorem Known.opened (hi : Answering threshold core) {call : Call} {now : ℕ}
    (h : Answered lax core (.start call now)) :
    Known threshold core.tables (Session.opened threshold call now) := by
  refine ⟨fun o ho => ?_, by simp [Session.opened], ?_⟩
  · cases call with
    | ingest batch =>
      obtain ⟨message, rfl⟩ := h
      exact fromWire_of_mem ho
    | _ => cases ho
  · rintro v rfl
    exact ⟨hi.mem_keys h, .reading⟩

theorem Answering.step (hi : Answering threshold core) (ha : Answered lax core a)
    (h : core.Step threshold a core') : Answering threshold core' := by
  have hserv := ha.service
  refine ⟨hi.ingest.step hserv h, hi.relay.step (Action.admissible_of_service hserv) h, ?_, ?_⟩
  · refine hi.ingest.isolated.sessions_step h hi.known ?_ ?_ ?_ ?_
    · rintro call now rfl
      exact .opened hi ha
    · exact fun i move s s' _ hs hl hk => hk.local hi (List.mem_of_getElem? hs) hl
    · exact fun s next prog hs hp hn hk => (hk.stable hi hs).commit hp hn
    · exact fun s t next hs _ _ _ _ hk => hk.stable hi hs
  · cases h with
    | start => exact hi.wire
    | perform => exact hi.wire
    | @commit i s next prog acknowledged hs hp hn =>
      intro o ho
      rcases List.mem_append.mp ho with ho | ho
      · exact hi.wire o ho
      · exact (hi.known s (List.mem_of_getElem? hs)).batch o ho

def wireOrder : Schemas.Order := { id := "7", title := "Math" }

def wireMessage : Schemas.ParseResultMessage := { requestId := "r", orders := [wireOrder] }

def storedOrder : IncomingOrder :=
  { source := .profi, externalId := "7", payload := wireOrder.dump, requestId := some "r" }

def answer : AssessmentOutcome :=
  ⟨"7", 80, { text := "yes" }, raceYes.score_nonneg, raceYes.score_le⟩

def answering (core : Core) : Action → Bool
  | .start (.ingest batch) _ => batch = toIncomingOrders wireMessage
  | .start (.process v) _ => v = answer && core.sessions.any fun s =>
      s.handed.any fun h => h.1 = (assessRow 0 storedOrder).toEvent
  | a => a.service

end ProcessAssessment

end ProfiNotifications.OrderCore
