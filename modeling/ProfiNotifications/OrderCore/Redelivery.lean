import ProfiNotifications.OrderCore.Assessment
import ProfiNotifications.OrderCore.Ingest

/-! # Redelivery, one transaction at a time

A handler that runs alone never waits, and its transaction is a function from tables to
tables. A batch is absorbed once its orders are stored, a verdict once its order has
left `assessRequested`; later messages keep it so.
-/

namespace ProfiNotifications.OrderCore

open Keyed ReadCommitted Transition

/--
Run a program in a transaction of its own, with no other transaction open. The answer
is the committed tables with the exception that was raised, if any; programs that wait
or publish give no answer.
-/
def Prog.alone (now : ℕ) : Prog → Tables → OrdersTx → OutboxTx → Option (Tables × Option Failure)
  | .ret, tables, _, _ => some (tables, none)
  | .raise error, tables, _, _ => some (tables, some error)
  | .insertNew order next, tables, o, b =>
    (OrderCore.insertNew tables.orders [] o order).bind fun r => (next r.2).alone now tables r.1 b
  | .get source externalId next, tables, o, b =>
    (next (OrderCore.get tables.orders o source externalId)).alone now tables o b
  | .setStatus source externalId status score next, tables, o, b =>
    (OrderCore.setStatus tables.orders [] o source externalId status score).bind fun r =>
      (next r.2).alone now tables r.1 b
  | .add destination dedupKey payload next, tables, o, b =>
    (OrderCore.add tables.outbox [] b now destination dedupKey payload).bind fun r =>
      next.alone now tables o r.1
  | .markPublished ids next, tables, o, b =>
    (OrderCore.markPublished tables.outbox [] b now ids).bind fun tx => next.alone now tables o tx
  | .commit next, tables, o, b =>
    next.alone now ⟨ReadCommitted.commit OrderRow.key tables.orders o,
      ReadCommitted.commit OutboxRow.dedupKey tables.outbox b⟩ {} {}
  | .claimPending .., _, _, _ => none
  | .publish .., _, _, _ => none

/-- A message of `parse.results` or `assess.results`, after its mapping. -/
inductive Message where
  | ingest (batch : List IncomingOrder)
  | verdict (outcome : AssessmentOutcome)
  deriving DecidableEq

def Message.call : Message → Call
  | .ingest batch => .ingest batch
  | .verdict outcome => .process outcome

structure Delivery where
  now : ℕ
  message : Message
  deriving DecidableEq

/-- Handle one delivery: the tables afterwards, and the exception of the handler. -/
def handleAlone (threshold : ℤ) (tables : Tables) (d : Delivery) : Tables × Option Failure :=
  ((d.message.call.prog threshold).alone d.now tables {} {}).getD
    (tables, some (.other "waits"))

def deliver (threshold : ℤ) (tables : Tables) (d : Delivery) : Tables :=
  (handleAlone threshold tables d).1

section Alone

variable {threshold : ℤ} {tables : Tables} {now : ℕ} {v : AssessmentOutcome}

theorem insertNew_alone_taken {rows : List OrderRow} {o : OrdersTx} {order : IncomingOrder}
    (hk : order.key ∈ rows.map OrderRow.key ∨ order.key ∈ o.written OrderRow.key) :
    insertNew rows [] o order = some (o, false) :=
  (insertOrIgnore_alone _ _ _).trans (congrArg some (if_pos hk))

theorem insertNew_alone_new {rows : List OrderRow} {o : OrdersTx} {order : IncomingOrder}
    (hk : ¬ (order.key ∈ rows.map OrderRow.key ∨ order.key ∈ o.written OrderRow.key)) :
    insertNew rows [] o order =
      some ({ o with writes := o.writes ++ [newOrderRow order] }, true) :=
  (insertOrIgnore_alone _ _ _).trans (congrArg some (if_neg hk))

/-- What the commit of an ingest call changes: new orders, and no notify event. -/
structure IngestOrders.Stored (tables tables' : Tables) (keys : List (Source × String)) : Prop where
  mem_iff : ∀ k, k ∈ tables'.orders.map OrderRow.key ↔
    k ∈ tables.orders.map OrderRow.key ∨ k ∈ keys
  lookup_eq : ∀ k ∈ tables.orders.map OrderRow.key,
    lookup OrderRow.key tables'.orders k = lookup OrderRow.key tables.orders k
  notify_eq : ∀ k, lookup OutboxRow.dedupKey tables'.outbox (notifyKey k) =
    lookup OutboxRow.dedupKey tables.outbox (notifyKey k)

theorem add_assess_alone (tables : Tables) (now : ℕ) (order : IncomingOrder) {b : OutboxTx}
    (hb : ∀ k, notifyKey k ∉ b.written OutboxRow.dedupKey) :
    ∃ r, add tables.outbox [] b now .assessRequest (assessKey order.key)
      (assessRequestPayload order) = some r ∧
      ∀ k, notifyKey k ∉ r.1.written OutboxRow.dedupKey := by
  refine ⟨_, insertOrIgnore_alone _ _ _, fun k => ?_⟩
  split
  · exact hb k
  · rw [Pending.written, List.map_append, List.map_singleton, List.mem_append,
      List.mem_singleton, not_or]
    exact ⟨hb k, fun h => assessKey_ne_notifyKey _ _ h.symm⟩

theorem IngestOrders.handle_alone (now : ℕ) (tables : Tables) (batch : List IncomingOrder)
    (o : OrdersTx) (b : OutboxTx)
    (hn : (o.written OrderRow.key).Nodup)
    (hd : ∀ k ∈ o.written OrderRow.key, k ∉ tables.orders.map OrderRow.key)
    (hb : ∀ k, notifyKey k ∉ b.written OutboxRow.dedupKey) :
    ∃ tables', (handle batch).alone now tables o b = some (tables', none) ∧
      Stored tables tables' (o.written OrderRow.key ++ batch.map IncomingOrder.key) := by
  induction batch generalizing o b with
  | nil =>
    refine ⟨_, rfl, fun k => by rw [mem_keys_commit]; simp, fun k hk => ?_, fun k => ?_⟩
    · exact lookup_commit_of_not_written fun h => hd k h hk
    · exact lookup_commit_of_not_written (hb k)
  | cons order batch ih =>
    simp only [handle, Prog.alone]
    by_cases hk : order.key ∈ tables.orders.map OrderRow.key ∨ order.key ∈ o.written OrderRow.key
    · rw [insertNew_alone_taken hk, Option.bind_some]
      obtain ⟨t, ht, hs⟩ := ih o b hn hd hb
      refine ⟨t, ht, fun k => (hs.mem_iff k).trans ?_, hs.lookup_eq, hs.notify_eq⟩
      rw [List.map_cons, List.mem_append, List.mem_append, List.mem_cons]
      constructor
      · tauto
      · rintro (h | h | rfl | h) <;> tauto
    · rw [insertNew_alone_new hk, Option.bind_some]
      rw [not_or] at hk
      simp only [addAssessmentRequest, Prog.alone]
      have hwr : ({ o with writes := o.writes ++ [newOrderRow order] } : OrdersTx).written
          OrderRow.key = o.written OrderRow.key ++ [order.key] := by simp [Pending.written]
      obtain ⟨b', hb', hnb⟩ := add_assess_alone tables now order hb
      rw [hb', Option.bind_some]
      obtain ⟨t, ht, hs⟩ := ih { o with writes := o.writes ++ [newOrderRow order] } _ (by
          rw [hwr]
          exact List.nodup_append.mpr ⟨hn, by simp, by simp only [List.mem_singleton]; grind⟩)
        (by
          rw [hwr]
          intro k hk'
          rcases List.mem_append.mp hk' with hk' | hk'
          · exact hd k hk'
          · rw [List.mem_singleton.mp hk']; exact hk.1) hnb
      refine ⟨t, ht, fun k => (hs.mem_iff k).trans ?_, hs.lookup_eq, hs.notify_eq⟩
      rw [hwr, List.append_assoc]
      rfl

end Alone

namespace ProcessAssessment

variable {threshold : ℤ} {tables : Tables} {now : ℕ} {v : AssessmentOutcome}

def verdictStatus (threshold : ℤ) (v : AssessmentOutcome) : OrderStatus :=
  if threshold ≤ v.suitabilityScore then .notifyRequested else .noNotify

def applied (threshold : ℤ) (now : ℕ) (tables : Tables) (v : AssessmentOutcome) (r : OrderRow) :
    Tables where
  orders := upsert OrderRow.key tables.orders (verdictRow (verdictStatus threshold v) v r)
  outbox :=
    if threshold ≤ v.suitabilityScore ∧
        notifyKey (key v) ∉ tables.outbox.map OutboxRow.dedupKey then
      tables.outbox ++ [notifyRow now v]
    else tables.outbox

theorem add_notify_alone : add tables.outbox [] {} now .notify (notifyKey (.profi, v.orderId))
    (notificationPayload v.notification) = some
      (if notifyKey (key v) ∈ tables.outbox.map OutboxRow.dedupKey then ({}, false)
        else ({ writes := [notifyRow now v] }, true)) := by
  refine (insertOrIgnore_alone _ _ _).trans (congrArg some ?_)
  by_cases hk : notifyKey (key v) ∈ tables.outbox.map OutboxRow.dedupKey
  · exact (if_pos (Or.inl hk)).trans (if_pos hk).symm
  · exact (if_neg (not_or.mpr ⟨hk, List.not_mem_nil⟩)).trans (if_neg hk).symm

theorem handle_alone : (handle threshold v).alone now tables {} {} =
    some (match lookup OrderRow.key tables.orders (key v) with
      | none => (tables, some (.permanent ("unknown order " ++ v.orderId)))
      | some r => if r.status = .assessRequested then (applied threshold now tables v r, none)
          else (tables, none)) := by
  have hget : get tables.orders {} .profi v.orderId =
      (lookup OrderRow.key tables.orders (key v)).map OrderRow.toDomain := rfl
  simp only [handle, Prog.alone, hget]
  cases hr : lookup OrderRow.key tables.orders (key v) with
  | none => rfl
  | some r =>
    have hguard : canApplyAssessment r.toDomain.status = true ↔ r.status = .assessRequested :=
      canApplyAssessment_iff
    simp only [Option.map_some]
    by_cases hs : r.status = .assessRequested
    · rw [if_pos (hguard.mpr hs), if_pos hs]
      have hupd : ∀ st, setStatus tables.orders [] {} .profi v.orderId st
          (some v.suitabilityScore) = some ({ writes := [verdictRow st v r] }, true) :=
        fun st => update_alone _ hr
      unfold apply
      by_cases ht : threshold ≤ v.suitabilityScore
      · rw [if_pos (decideNotification_notify.mpr ht)]
        simp only [Prog.alone, hupd, Option.bind_some, addNotification, add_notify_alone]
        by_cases hk : notifyKey (key v) ∈ tables.outbox.map OutboxRow.dedupKey
        · rw [if_pos hk, applied, if_neg (by simp [hk]), verdictStatus, if_pos ht]
          rfl
        · rw [if_neg hk, applied, if_pos ⟨ht, hk⟩,
            verdictStatus, if_pos ht, ← upsert_of_not_mem (r := notifyRow now v) hk]
          rfl
      · rw [if_neg (by rwa [decideNotification_notify]), applied, verdictStatus, if_neg ht,
          if_neg (by simp [ht])]
        simp only [Prog.alone, hupd, Option.bind_some]
        rfl
    · rw [if_neg (mt hguard.mp hs), if_neg hs]
      rfl

end ProcessAssessment

section Absorbed

variable {threshold : ℤ} {tables : Tables} {now : ℕ} {d : Delivery} {m : Message}
  {k : Source × String} {r : OrderRow}

open ProcessAssessment (key applied verdictRow verdictStatus notifyRow)

/-- The orders of a batch are stored, the order of a verdict has left `assessRequested`. -/
def Absorbed (tables : Tables) : Message → Prop
  | .ingest batch => ∀ o ∈ batch, o.key ∈ tables.orders.map OrderRow.key
  | .verdict v => ∃ r, lookup OrderRow.key tables.orders (key v) = some r ∧
      r.status ≠ .assessRequested

theorem handleAlone_ingest (threshold : ℤ) (tables : Tables) (now : ℕ)
    (batch : List IncomingOrder) :
    ∃ tables', handleAlone threshold tables ⟨now, .ingest batch⟩ = (tables', none) ∧
      IngestOrders.Stored tables tables' (batch.map IncomingOrder.key) := by
  obtain ⟨t, ht, hs⟩ := IngestOrders.handle_alone now tables batch {} {}
    (by simp) (by simp) (by simp)
  refine ⟨t, ?_, hs⟩
  rw [handleAlone, Message.call, Call.prog, ht, Option.getD_some]

theorem handleAlone_verdict (v : AssessmentOutcome) :
    handleAlone threshold tables ⟨now, .verdict v⟩ =
      match lookup OrderRow.key tables.orders (key v) with
      | none => (tables, some (.permanent ("unknown order " ++ v.orderId)))
      | some r => if r.status = .assessRequested then (applied threshold now tables v r, none)
          else (tables, none) := by
  rw [handleAlone, Message.call, Call.prog, ProcessAssessment.handle_alone, Option.getD_some]

theorem IngestOrders.handle_alone_stored {batch : List IncomingOrder}
    (h : ∀ o ∈ batch, o.key ∈ tables.orders.map OrderRow.key) :
    (handle batch).alone now tables {} {} = some (tables, none) := by
  induction batch with
  | nil => rfl
  | cons order batch ih =>
    simp only [handle, Prog.alone]
    rw [insertNew_alone_taken (Or.inl (h order List.mem_cons_self)), Option.bind_some]
    exact ih fun o ho => h o (List.mem_cons_of_mem _ ho)

/-- An absorbed message changes nothing. -/
theorem Absorbed.handleAlone_eq (h : Absorbed tables m) :
    handleAlone threshold tables ⟨now, m⟩ = (tables, none) := by
  cases m with
  | ingest batch =>
    rw [handleAlone, Message.call, Call.prog, IngestOrders.handle_alone_stored h,
      Option.getD_some]
  | verdict v =>
    obtain ⟨r, hr, hs⟩ := h
    rw [handleAlone_verdict, hr]
    exact if_neg hs

theorem lookup_applied {v : AssessmentOutcome}
    (hr : lookup OrderRow.key tables.orders (key v) = some r) :
    lookup OrderRow.key (applied threshold now tables v r).orders k =
      if key v = k then some (verdictRow (verdictStatus threshold v) v r)
      else lookup OrderRow.key tables.orders k := by
  have hk : (verdictRow (verdictStatus threshold v) v r).key = key v :=
    show r.key = key v from ProcessAssessment.key_eq_of_lookup hr
  rw [applied, lookup_upsert, hk]

theorem verdictStatus_ne (v : AssessmentOutcome) :
    verdictStatus threshold v ≠ .assessRequested := by
  unfold verdictStatus
  split <;> simp

theorem absorbed_of_handled (h : (handleAlone threshold tables ⟨now, m⟩).2 = none) :
    Absorbed (deliver threshold tables ⟨now, m⟩) m := by
  cases m with
  | ingest batch =>
    obtain ⟨t, ht, hs⟩ := handleAlone_ingest threshold tables now batch
    rw [deliver, ht]
    exact fun o ho => (hs.mem_iff _).mpr (Or.inr (List.mem_map_of_mem ho))
  | verdict v =>
    rw [handleAlone_verdict] at h
    rw [deliver, handleAlone_verdict]
    cases hr : lookup OrderRow.key tables.orders (key v) with
    | none => simp [hr] at h
    | some r =>
      by_cases hs : r.status = .assessRequested
      · simp only [hs, if_true]
        exact ⟨_, (lookup_applied hr).trans (if_pos rfl), verdictStatus_ne v⟩
      · simp only [hs, if_false]
        exact ⟨r, hr, hs⟩

theorem mem_keys_deliver (h : k ∈ tables.orders.map OrderRow.key) :
    k ∈ (deliver threshold tables d).orders.map OrderRow.key := by
  obtain ⟨now, m⟩ := d
  cases m with
  | ingest batch =>
    obtain ⟨t, ht, hs⟩ := handleAlone_ingest threshold tables now batch
    rw [deliver, ht]
    exact (hs.mem_iff k).mpr (Or.inl h)
  | verdict v =>
    rw [deliver, handleAlone_verdict]
    cases lookup OrderRow.key tables.orders (key v) with
    | none => exact h
    | some r =>
      by_cases hs : r.status = .assessRequested
      · simp only [hs, if_true]
        exact mem_keys_upsert.mpr (Or.inl h)
      · simp only [hs, if_false]
        exact h

/-- An order that has left `assessRequested`, with its notify event. -/
structure Settled (tables : Tables) (k : Source × String) (r : OrderRow) (e : Option OutboxRow) :
    Prop where
  order : lookup OrderRow.key tables.orders k = some r
  status : r.status ≠ .assessRequested
  event : lookup OutboxRow.dedupKey tables.outbox (notifyKey k) = e

theorem Settled.deliver {e : Option OutboxRow} (h : Settled tables k r e) :
    Settled (deliver threshold tables d) k r e := by
  obtain ⟨now, m⟩ := d
  cases m with
  | ingest batch =>
    obtain ⟨t, ht, hs⟩ := handleAlone_ingest threshold tables now batch
    rw [OrderCore.deliver, ht]
    exact ⟨(hs.lookup_eq k (mem_keys_of_lookup h.order)).trans h.order, h.status,
      (hs.notify_eq k).trans h.event⟩
  | verdict v =>
    rw [OrderCore.deliver, handleAlone_verdict]
    cases hr : lookup OrderRow.key tables.orders (key v) with
    | none => exact h
    | some r' =>
      by_cases hs : r'.status = .assessRequested
      · have hne : key v ≠ k := by
          rintro rfl
          obtain rfl := Option.some.inj (hr.symm.trans h.order)
          exact h.status hs
        simp only [hs, if_true]
        refine ⟨(lookup_applied hr).trans ((if_neg hne).trans h.order), h.status, ?_⟩
        rw [← h.event, applied]
        split
        · rename_i hn
          rw [← upsert_of_not_mem (r := notifyRow now v) hn.2, lookup_upsert]
          exact if_neg fun hk => hne (notifyKey_injective hk)
        · rfl
      · simp only [hs, if_false]
        exact h

theorem Absorbed.deliver (h : Absorbed tables m) : Absorbed (deliver threshold tables d) m := by
  cases m with
  | ingest batch => exact fun o ho => mem_keys_deliver (h o ho)
  | verdict v =>
    obtain ⟨r, hr, hs⟩ := h
    have hset : Settled tables (key v) r _ := ⟨hr, hs, rfl⟩
    exact ⟨r, hset.deliver.order, hs⟩

/--
Copies of a message that was handled without an exception change nothing, wherever they
arrive later; the verdict that was applied to an order fixes its row and its notify event.
-/
theorem redelivery_harmless {before after after' : List Delivery}
    (h : (handleAlone threshold (before.foldl (deliver threshold) tables) ⟨now, m⟩).2 = none)
    (hpad : Padded (fun d => d.message = m) after after') :
    (before ++ ⟨now, m⟩ :: after').foldl (deliver threshold) tables =
      (before ++ ⟨now, m⟩ :: after).foldl (deliver threshold) tables ∧
    ∀ v r, m = .verdict v →
      lookup OrderRow.key (before.foldl (deliver threshold) tables).orders (key v) = some r →
      r.status = .assessRequested →
      Settled ((before ++ ⟨now, m⟩ :: after).foldl (deliver threshold) tables) (key v)
        (verdictRow (verdictStatus threshold v) v r)
        (lookup OutboxRow.dedupKey
          (applied threshold now (before.foldl (deliver threshold) tables) v r).outbox
          (notifyKey (key v))) := by
  constructor
  · rw [List.foldl_append, List.foldl_append, List.foldl_cons, List.foldl_cons]
    refine hpad.foldl_eq (fun t => Absorbed t m) (fun t d ht => ht.deliver) ?_
      (absorbed_of_handled h)
    rintro t ⟨now', m'⟩ ht rfl
    exact congrArg Prod.fst ht.handleAlone_eq
  · rintro v r rfl hr hs
    rw [List.foldl_append, List.foldl_cons]
    refine foldl_invariant (fun t => Settled t (key v) _ _) (fun t d ht => ht.deliver) ?_ _
    rw [deliver, handleAlone_verdict, hr]
    simp only [hs, if_true]
    exact ⟨(lookup_applied hr).trans (if_pos rfl), verdictStatus_ne v, rfl⟩

def exampleBatch : Message :=
  .ingest [{ source := .profi, externalId := "1", payload := .str "order" }]

def exampleVerdict : Message :=
  .verdict ⟨"1", 80, { text := "yes" }, ProcessAssessment.raceYes.score_nonneg,
    ProcessAssessment.raceYes.score_le⟩

/-- A verdict that comes again before and after another batch. -/
theorem redelivery_harmless_verdict :
    [⟨0, exampleBatch⟩, ⟨1, exampleVerdict⟩, ⟨2, exampleVerdict⟩, ⟨3, exampleBatch⟩,
      ⟨4, exampleVerdict⟩].foldl (deliver 70) {} =
      [⟨0, exampleBatch⟩, ⟨1, exampleVerdict⟩, ⟨3, exampleBatch⟩].foldl (deliver 70) {} := by
  have hpad : Padded (fun d : Delivery => d.message = exampleVerdict) [⟨3, exampleBatch⟩]
      [⟨2, exampleVerdict⟩, ⟨3, exampleBatch⟩, ⟨4, exampleVerdict⟩] := by
    refine .insert ?_ (.keep _ (.insert ?_ .nil)) <;> rfl
  have hok : (handleAlone 70 ([⟨0, exampleBatch⟩].foldl (deliver 70) {})
      ⟨1, exampleVerdict⟩).2 = none := rfl
  exact (redelivery_harmless hok hpad).1

end Absorbed

section Simulation

variable {threshold : ℤ} {core : Core} {s : Session} {i : ℕ}

/-- All other sessions have no open transaction. -/
def Quiet (core : Core) (i : ℕ) : Prop :=
  ∀ t ∈ core.sessions.eraseIdx i, t.orders = {} ∧ t.outbox = {}

theorem alone_resume (s : Session) (p : Prog) (now : ℕ) (tables : Tables) :
    p.alone now tables (s.resume p).orders (s.resume p).outbox =
      p.alone now tables s.orders s.outbox := by
  cases p <;> rfl

/-- The session stands at a program, with nothing open when the program has ended. -/
structure Stands (core : Core) (i : ℕ) (s : Session) (p : Prog) : Prop where
  session : core.sessions[i]? = some s
  prog : s.prog = p
  quiet : Quiet core i
  clean : p.ended = true → s.orders = {} ∧ s.outbox = {}

theorem Stands.set {p q : Prog} (h : Stands core i s p) {u : Session} {tables : Tables}
    {ingested : List IncomingOrder} :
    Stands ⟨tables, core.sessions.set i (u.resume q), ingested⟩ i (u.resume q) q where
  session := List.getElem?_set_self (List.getElem?_eq_some_iff.mp h.session).1
  prog := Session.resume_prog
  quiet := by
    intro t ht
    rw [List.eraseIdx_set_eq] at ht
    exact h.quiet t ht
  clean := by
    intro he
    rw [Session.resume_of_ended he]
    exact ⟨rfl, rfl⟩

/-- The session of a program runs to its end, while nothing else moves. -/
def Finishes (threshold : ℤ) (core : Core) (i : ℕ) (tables : Tables) (e : Option Failure) : Prop :=
  ∃ core' s', Reach (Core.step threshold)
      (fun _ a => a = .perform i .exec ∨ a = .commit i true) core core' ∧
    core'.tables = tables ∧ core'.sessions = core.sessions.set i s' ∧
    s'.prog = e.elim .ret .raise ∧ s'.orders = {} ∧ s'.outbox = {}

variable {p : Prog} {tables' : Tables} {e : Option Failure}

theorem Finishes.ended (hs : Stands core i s p) (hp : p = e.elim .ret .raise) :
    Finishes threshold core i core.tables e := by
  have he : p.ended = true := by rw [hp]; cases e <;> rfl
  obtain ⟨hlt, hi⟩ := List.getElem?_eq_some_iff.mp hs.session
  refine ⟨core, s, .refl, rfl, ?_, hs.prog.trans hp, hs.clean he⟩
  rw [← hi, List.set_getElem_self]

theorem Finishes.exec {s' : Session} (hs : Stands core i s p)
    (hx : s.exec core.tables (core.sessions.eraseIdx i) = some s')
    (h : Finishes threshold { core with sessions := core.sessions.set i s' } i tables' e) :
    Finishes threshold core i tables' e := by
  obtain ⟨core', t, hr, ht, hl, hp, hc⟩ := h
  have hstep : core.step threshold (.perform i .exec) =
      some { core with sessions := core.sessions.set i s' } := by
    simp only [Core.step, hs.session, Option.bind_some, Session.perform, hx, Option.map_some]
  exact ⟨core', t, hr.head (Or.inl rfl) hstep, ht, hl.trans (List.set_set ..), hp, hc⟩

theorem Stands.orders_quiet (hs : Stands core i s p) :
    ∀ q ∈ (core.sessions.eraseIdx i).map Session.orders, q = {} := by
  intro q hq
  obtain ⟨t, ht, rfl⟩ := List.mem_map.mp hq
  exact (hs.quiet t ht).1

theorem Stands.outbox_quiet (hs : Stands core i s p) :
    ∀ q ∈ (core.sessions.eraseIdx i).map Session.outbox, q = {} := by
  intro q hq
  obtain ⟨t, ht, rfl⟩ := List.mem_map.mp hq
  exact (hs.quiet t ht).2

theorem Prog.alone_finishes (hs : Stands core i s p)
    (h : p.alone s.now core.tables s.orders s.outbox = some (tables', e)) :
    Finishes threshold core i tables' e := by
  induction p generalizing core s with
  | ret =>
    obtain ⟨rfl, rfl⟩ := Prod.mk.inj (Option.some.inj h)
    exact .ended hs rfl
  | raise error =>
    obtain ⟨rfl, rfl⟩ := Prod.mk.inj (Option.some.inj h)
    exact .ended hs rfl
  | insertNew order next ih =>
    obtain ⟨⟨tx, b⟩, hu, h⟩ := Option.bind_eq_some_iff.mp h
    have hx : s.exec core.tables (core.sessions.eraseIdx i) =
        some ({ s with orders := tx }.resume (next b)) := by
      simp only [Session.exec, hs.prog]
      rw [OrderCore.insertNew, insertOrIgnore_quiet hs.orders_quiet]
      exact congrArg (Option.map _) hu
    refine .exec hs hx (ih b hs.set ?_)
    rw [alone_resume, Session.resume_now]
    exact h
  | get source externalId next ih =>
    have hx : s.exec core.tables (core.sessions.eraseIdx i) =
        some (s.resume (next (OrderCore.get core.tables.orders s.orders source externalId))) := by
      simp only [Session.exec, hs.prog]
    refine .exec hs hx (ih _ hs.set ?_)
    rw [alone_resume, Session.resume_now]
    exact h
  | setStatus source externalId status score next ih =>
    obtain ⟨⟨tx, b⟩, hu, h⟩ := Option.bind_eq_some_iff.mp h
    have hx : s.exec core.tables (core.sessions.eraseIdx i) =
        some ({ s with orders := tx }.resume (next b)) := by
      simp only [Session.exec, hs.prog]
      rw [OrderCore.setStatus, update_quiet hs.orders_quiet]
      exact congrArg (Option.map _) hu
    refine .exec hs hx (ih b hs.set ?_)
    rw [alone_resume, Session.resume_now]
    exact h
  | add destination dedupKey payload next ih =>
    obtain ⟨⟨tx, b⟩, hu, h⟩ := Option.bind_eq_some_iff.mp h
    have hx : s.exec core.tables (core.sessions.eraseIdx i) =
        some ({ s with outbox := tx }.resume next) := by
      simp only [Session.exec, hs.prog]
      rw [OrderCore.add, insertOrIgnore_quiet hs.outbox_quiet]
      exact congrArg (Option.map _) hu
    refine .exec hs hx (ih hs.set ?_)
    rw [alone_resume, Session.resume_now]
    exact h
  | claimPending limit next ih => cases h
  | publish event next ih => cases h
  | markPublished ids next ih =>
    obtain ⟨tx, hu, h⟩ := Option.bind_eq_some_iff.mp h
    have hx : s.exec core.tables (core.sessions.eraseIdx i) =
        some ({ s with outbox := tx }.resume next) := by
      simp only [Session.exec, hs.prog]
      rw [OrderCore.markPublished, updateAll_quiet hs.outbox_quiet]
      exact congrArg (Option.map _) hu
    refine .exec hs hx (ih hs.set ?_)
    rw [alone_resume, Session.resume_now]
    exact h
  | commit next ih =>
    have hstep : core.step threshold (.commit i true) = some
        { tables := s.committed core.tables
          sessions := core.sessions.set i ({ s with orders := {}, outbox := {} }.resume next)
          ingested := core.ingested ++ s.call.batch } := by
      simp only [Core.step, hs.session, Option.bind_some, hs.prog, if_true]
    have hst : Stands ⟨s.committed core.tables, core.sessions.set i
        ({ s with orders := {}, outbox := {} }.resume next), core.ingested ++ s.call.batch⟩ i
        ({ s with orders := {}, outbox := {} }.resume next) next := hs.set
    obtain ⟨core', t, hr, ht, hl, hp, hc⟩ := ih hst (by
      rw [alone_resume, Session.resume_now]; exact h)
    exact ⟨core', t, hr.head (Or.inr rfl) hstep, ht, hl.trans (List.set_set ..), hp, hc⟩

/-- A handler alone gives an answer. -/
theorem alone_handleAlone (threshold : ℤ) (tables : Tables) (d : Delivery) :
    (d.message.call.prog threshold).alone d.now tables {} {} =
      some (handleAlone threshold tables d) := by
  obtain ⟨now, m⟩ := d
  cases m with
  | ingest batch =>
    obtain ⟨t, ht, -⟩ := IngestOrders.handle_alone now tables batch {} {} (by simp) (by simp)
      (by simp)
    rw [handleAlone, Message.call, Call.prog, ht, Option.getD_some]
  | verdict v =>
    rw [handleAlone, Message.call, Call.prog, ProcessAssessment.handle_alone, Option.getD_some]

/-- A delivery that is handled while no transaction is open is a run of the system. -/
theorem deliver_reach (d : Delivery) (hq : ∀ t ∈ core.sessions, t.orders = {} ∧ t.outbox = {}) :
    ∃ core', Reach (Core.step threshold) (fun _ a => a.service = true) core core' ∧
      core'.tables = deliver threshold core.tables d ∧
      ∀ t ∈ core'.sessions, t.orders = {} ∧ t.outbox = {} := by
  let s := Session.opened threshold d.message.call d.now
  have hst : Stands { core with sessions := core.sessions ++ [s] } core.sessions.length s
      (d.message.call.prog threshold) := by
    refine ⟨by simp, rfl, fun t ht => ?_, fun _ => ⟨rfl, rfl⟩⟩
    rw [List.eraseIdx_append_of_length_le (Nat.le_refl _), Nat.sub_self] at ht
    exact hq t (by simpa using ht)
  have hfin : Finishes threshold { core with sessions := core.sessions ++ [s] }
      core.sessions.length _ _ :=
    Prog.alone_finishes hst (alone_handleAlone threshold core.tables d)
  obtain ⟨core', t, hr, ht, hl, -, hc⟩ := hfin
  refine ⟨core', ?_, ht, fun u hu => ?_⟩
  · refine Reach.head (a := .start d.message.call d.now) ?_ rfl
      (hr.mono fun _ a ha => ?_)
    · cases d.message <;> rfl
    · rcases ha with rfl | rfl <;> rfl
  · rw [hl] at hu
    rcases mem_set_cases hu with rfl | ⟨j, hj, hu⟩
    · exact hc
    · rw [List.getElem?_append] at hu
      split at hu
      · exact hq u (List.mem_of_getElem? hu)
      · have hlt := (List.getElem?_eq_some_iff.mp hu).1
        rw [List.length_singleton] at hlt
        omega

end Simulation

end ProfiNotifications.OrderCore
