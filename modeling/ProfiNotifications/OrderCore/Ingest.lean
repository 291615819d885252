import ProfiNotifications.OrderCore.System

/-! # The transactional outbox at ingest

An ingest call writes an order and its assessment request in one transaction, under
two unique keys. The new orders of a call are the first occurrences in its batch that
are not stored yet; other calls may commit meanwhile but never one of these. Stored
orders and assessment requests therefore stay in step, row by row.
-/

namespace ProfiNotifications.OrderCore

open Keyed ReadCommitted Transition

def assessRow (now : ℕ) (order : IncomingOrder) : OutboxRow :=
  outboxRow now .assessRequest (assessKey order.key) (assessRequestPayload order)

/-- Key and payload of an assessment request; other events give nothing. -/
def OutboxRow.assessEvent (e : OutboxRow) : Option (String × Json) :=
  if e.destination = OutboxDestination.assessRequest.value then some (e.dedupKey, e.payload)
  else none

/-- The assessment request that belongs to a stored order. -/
def OrderRow.assessEvent (r : OrderRow) : String × Json :=
  (assessKey r.key, assessRequestPayload r.incoming)

/-- The deduplication key has the form of its destination. -/
def OutboxRow.KeyMatches (e : OutboxRow) : Prop :=
  (e.destination = OutboxDestination.assessRequest.value ∧ ∃ k, e.dedupKey = assessKey k) ∨
  (e.destination = OutboxDestination.notify.value ∧ ∃ k, e.dedupKey = notifyKey k)

/-- Programs that neither insert orders nor request assessments. -/
inductive Prog.Settled : Prog → Prop
  | ret : Settled .ret
  | raise (error : Failure) : Settled (.raise error)
  | get {source : Source} {externalId : String} {next : Option Order → Prog}
      (h : ∀ o, Settled (next o)) : Settled (.get source externalId next)
  | setStatus {source : Source} {externalId : String} {status : OrderStatus} {score : Option ℤ}
      {next : Bool → Prog} (h : ∀ b, Settled (next b)) :
      Settled (.setStatus source externalId status score next)
  | add {k : Source × String} {payload : Json} {next : Prog} (h : Settled next) :
      Settled (.add .notify (notifyKey k) payload next)
  | claimPending {limit : ℕ} {next : List PendingEvent → Prog} (h : ∀ es, Settled (next es)) :
      Settled (.claimPending limit next)
  | publish {event : PendingEvent} {next : Prog} (h : Settled next) :
      Settled (.publish event next)
  | markPublished {ids : List String} {next : Prog} (h : Settled next) :
      Settled (.markPublished ids next)
  | commit {next : Prog} (h : Settled next) : Settled (.commit next)

theorem ProcessAssessment.handle_settled (threshold : ℤ) (v : AssessmentOutcome) :
    (handle threshold v).Settled := by
  refine .get fun o => ?_
  cases o with
  | none => exact .raise _
  | some order =>
    show (if canApplyAssessment order.status then _ else _ : Prog).Settled
    split
    · unfold apply
      split
      · exact .setStatus fun _ => .add (.commit .ret)
      · exact .setStatus fun _ => .commit .ret
    · exact .commit .ret

theorem RelayOutbox.publishAll_settled {next : Prog} (h : next.Settled)
    (events : List PendingEvent) : (publishAll events next).Settled := by
  induction events with
  | nil => exact h
  | cons event events ih => exact .publish ih

theorem RelayOutbox.runOnce_settled (n : ℕ) : (runOnce n).Settled := by
  refine .claimPending fun es => ?_
  cases es with
  | nil => exact .ret
  | cons e es => exact publishAll_settled (.markPublished (.commit .ret)) (e :: es)

namespace IngestOrders

variable {threshold : ℤ} {tables : Tables} {others : List Session} {s s' t : Session}
  {core core' : Core} {a : Action} {move : Move} {batch : List IncomingOrder}

def newOrders (tables : Tables) (batch : List IncomingOrder) : List IncomingOrder :=
  fresh IncomingOrder.key (tables.orders.map OrderRow.key) batch

/-- Where an ingest call is in its batch, with what it has written so far. -/
inductive At (tables : Tables) (batch : List IncomingOrder) (s : Session) : Prop
  | looping (done todo : List IncomingOrder) (hd : batch = done ++ todo)
      (hp : s.prog = handle todo)
      (ho : s.orders = { writes := (newOrders tables done).map newOrderRow })
      (hb : s.outbox = { writes := (newOrders tables done).map (assessRow s.now) })
  | adding (done todo : List IncomingOrder) (order : IncomingOrder)
      (hd : batch = done ++ order :: todo)
      (hp : s.prog = addAssessmentRequest order (handle todo))
      (hk : order.key ∉ tables.orders.map OrderRow.key)
      (hf : order.key ∉ done.map IncomingOrder.key)
      (ho : s.orders = { writes := (newOrders tables done ++ [order]).map newOrderRow })
      (hb : s.outbox = { writes := (newOrders tables done).map (assessRow s.now) })
  | ended (hp : s.prog.ended = true) (ho : s.orders = {}) (hb : s.outbox = {})

/-- A session that updates orders and events, and adds notify events only. -/
structure Updates (tables : Tables) (s : Session) : Prop where
  prog : s.prog.Settled
  orders : Agrees OrderRow.key (some ∘ OrderRow.incoming) tables.orders s.orders
  outbox : Agrees OutboxRow.dedupKey OutboxRow.assessEvent tables.outbox s.outbox
  keyed : ∀ w ∈ s.outbox.writes, w.KeyMatches

def Point (tables : Tables) (s : Session) : Prop :=
  (∃ batch, s.call = .ingest batch ∧ At tables batch s) ∨
    (s.call.batch = [] ∧ Updates tables s)

/-- The tables hold every first occurrence, with its assessment request. -/
structure InStep (tables : Tables) (ingested : List IncomingOrder) : Prop where
  orders : tables.orders.map OrderRow.incoming = fresh IncomingOrder.key [] ingested
  outbox : tables.outbox.filterMap OutboxRow.assessEvent = tables.orders.map OrderRow.assessEvent
  keyed : ∀ e ∈ tables.outbox, e.KeyMatches

theorem newOrders_append (tables : Tables) (done : List IncomingOrder) (order : IncomingOrder) :
    newOrders tables (done ++ [order]) = newOrders tables done ++
      if order.key ∈ tables.orders.map OrderRow.key ∨ order.key ∈ done.map IncomingOrder.key
        then [] else [order] := by
  rw [newOrders, fresh_append, newOrders]
  simp only [fresh, List.mem_append]

theorem assessEvent_of_key {e : OutboxRow} {k : Source × String} (h : e.KeyMatches)
    (hk : e.dedupKey = assessKey k) : e.assessEvent = some (assessKey k, e.payload) := by
  rcases h with ⟨hd, -⟩ | ⟨-, k', hk'⟩
  · rw [OutboxRow.assessEvent, if_pos hd, hk]
  · exact absurd (hk.symm.trans hk') (assessKey_ne_notifyKey k k')

theorem InStep.mem_orders {ingested : List IncomingOrder} (h : InStep tables ingested)
    {k : Source × String} (hk : assessKey k ∈ tables.outbox.map OutboxRow.dedupKey) :
    k ∈ tables.orders.map OrderRow.key := by
  obtain ⟨e, he, hk⟩ := List.mem_map.mp hk
  have hm : (assessKey k, e.payload) ∈ tables.outbox.filterMap OutboxRow.assessEvent :=
    List.mem_filterMap.mpr ⟨e, he, assessEvent_of_key (h.keyed e he) hk⟩
  rw [h.outbox] at hm
  obtain ⟨r, hr, heq⟩ := List.mem_map.mp hm
  rw [← assessKey_injective (congrArg Prod.fst heq)]
  exact List.mem_map_of_mem hr

theorem newOrders_keys {done : List IncomingOrder} {k : Source × String} :
    k ∈ ((newOrders tables done).map newOrderRow).map OrderRow.key ↔
      k ∈ done.map IncomingOrder.key ∧ k ∉ tables.orders.map OrderRow.key := by
  rw [List.map_map, ← mem_keys_fresh]
  rfl

/-- The loop of an ingest call, one statement further. -/
theorem At.local {ingested : List IncomingOrder} (hi : InStep tables ingested)
    (h : LocalStep tables others s move s') (ha : At tables batch s) : At tables batch s' := by
  rcases h.inv with ⟨-, m, rfl⟩ | hinv
  · exact .ended (by rw [Session.abort_prog]; rfl) rfl rfl
  cases ha with
  | looping done todo hd hp ho hb =>
    cases todo with
    | nil => simp only [Session.After, hp, handle] at hinv
    | cons order todo =>
      simp only [Session.After, hp, handle] at hinv
      obtain ⟨tx, b, hu, rfl⟩ := hinv
      have hend : ∀ l, (handle l).ended = false := by intro l; cases l <;> rfl
      have happ := newOrders_append tables done order
      rcases insertOrIgnore_cases hu with ⟨rfl, rfl, hk⟩ | ⟨rfl, rfl, hk, hw, -⟩
      · have hold : order.key ∈ tables.orders.map OrderRow.key ∨
            order.key ∈ done.map IncomingOrder.key := by
          rw [Pending.written, ho] at hk
          exact hk.imp_right fun h => (newOrders_keys.mp h).1
        rw [if_pos hold, List.append_nil] at happ
        simp only
        rw [Session.resume_of_not_ended (hend todo)]
        exact .looping (done ++ [order]) todo (by simp [hd]) rfl (by rw [happ]; exact ho)
          (by rw [happ]; exact hb)
      · refine .adding done todo order hd rfl hk ?_ ?_ hb
        · intro hf
          rw [Pending.written, ho] at hw
          exact hw (newOrders_keys.mpr ⟨hf, hk⟩)
        · show ({ s.orders with writes := _ } : OrdersTx) = _
          rw [ho, List.map_append]
          rfl
  | adding done todo order hd hp hk hf ho hb =>
    simp only [Session.After, hp, addAssessmentRequest] at hinv
    obtain ⟨tx, b, hu, rfl⟩ := hinv
    have hend : ∀ l, (handle l).ended = false := by intro l; cases l <;> rfl
    rw [Session.resume_of_not_ended (hend todo)]
    have happ := newOrders_append tables done order
    rw [if_neg (not_or.mpr ⟨hk, hf⟩)] at happ
    rcases insertOrIgnore_cases hu with ⟨-, -, hk' | hk'⟩ | ⟨-, rfl, -⟩
    · exact absurd (hi.mem_orders hk') hk
    · rw [Pending.written, hb, List.map_map] at hk'
      obtain ⟨o, ho', he⟩ := List.mem_map.mp hk'
      have hko := assessKey_injective he
      exact absurd (hko ▸ (mem_keys_fresh.mp (List.mem_map_of_mem ho')).1) hf
    · refine .looping (done ++ [order]) todo (by simp [hd]) rfl (by rw [happ]; exact ho) ?_
      show ({ s.outbox with writes := _ } : OutboxTx) = _
      rw [hb, happ, List.map_append]
      rfl
  | ended hp => rw [h.not_ended] at hp; cases hp

theorem Updates.resume {prog : Prog} (h : Updates tables s) (hp : prog.Settled) :
    Updates tables (s.resume prog) := by
  refine ⟨by simpa using hp, ?_, ?_, ?_⟩
  · rcases s.resume_orders prog with ho | ho <;> rw [ho]
    exacts [h.orders, .empty]
  · rcases s.resume_outbox prog with hb | hb <;> rw [hb]
    exacts [h.outbox, .empty]
  · rcases s.resume_outbox prog with hb | hb <;> rw [hb]
    exacts [h.keyed, by simp]

theorem Updates.local (ho : (tables.orders.map OrderRow.key).Nodup)
    (hb : (tables.outbox.map OutboxRow.dedupKey).Nodup)
    (hwo : s.orders.WellFormed OrderRow.key tables.orders)
    (hwb : s.outbox.WellFormed OutboxRow.dedupKey tables.outbox)
    (hk : ∀ e ∈ tables.outbox, e.KeyMatches) (h : LocalStep tables others s move s')
    (hs : Updates tables s) : Updates tables s' := by
  rcases h.inv with ⟨-, m, rfl⟩ | hi
  · exact hs.resume (.raise _)
  obtain ⟨hp, hao, hab, hkw⟩ := hs
  cases hprog : s.prog with
  | get source externalId next =>
    simp only [Session.After, hprog] at hi
    subst hi
    rw [hprog] at hp
    cases hp with
    | get hn => exact .resume ⟨hprog ▸ .get hn, hao, hab, hkw⟩ (hn _)
  | setStatus source externalId status score next =>
    simp only [Session.After, hprog] at hi
    obtain ⟨tx, b, -, hu, rfl⟩ := hi
    rw [hprog] at hp
    cases hp with
    | setStatus hn =>
      exact .resume ⟨.setStatus hn, hao.update ho hwo (by intro r; rfl) (by intro r; rfl) hu,
        hab, hkw⟩ (hn b)
  | add destination dedupKey payload next =>
    simp only [Session.After, hprog] at hi
    obtain ⟨tx, b, hu, rfl⟩ := hi
    rw [hprog] at hp
    cases hp with
    | @add k _ _ hn =>
      exact .resume ⟨.add hn, hao, hab.insertOrIgnore rfl hu,
        insertOrIgnore_forall (Or.inr ⟨rfl, k, rfl⟩) hkw hu⟩ hn
  | claimPending limit next =>
    simp only [Session.After, hprog] at hi
    obtain ⟨rows, -, rfl⟩ := hi
    rw [hprog] at hp
    cases hp with
    | claimPending hn => exact .resume ⟨.claimPending hn, hao, hab, hkw⟩ (hn _)
  | publish event next =>
    simp only [Session.After, hprog] at hi
    rw [hprog] at hp
    cases hp with
    | publish hn =>
      rcases hi with rfl | rfl
      · exact .resume ⟨.publish hn, hao, hab, hkw⟩ hn
      · exact .resume ⟨.publish hn, hao, hab, hkw⟩ (.raise _)
  | markPublished ids next =>
    simp only [Session.After, hprog] at hi
    obtain ⟨tx, hu, rfl⟩ := hi
    rw [hprog] at hp
    cases hp with
    | markPublished hn =>
      exact .resume ⟨.markPublished hn, hao,
        hab.updateAll hb hwb (by intro r; rfl) (by intro r; rfl) hu,
        updateAll_forall hb hwb (by intro r h; exact h) hk hkw hu⟩ hn
  | insertNew => rw [hprog] at hp; cases hp
  | _ => simp only [Session.After, hprog] at hi

/-- Other commits add no key that an ingest call owns, so its new orders stay new. -/
theorem newOrders_stable {done : List IncomingOrder} (ha : s.Apart t)
    (ho : ∀ k ∈ (newOrders tables done).map IncomingOrder.key,
      k ∈ t.orders.written OrderRow.key) :
    newOrders (s.committed tables) done = newOrders tables done := by
  refine fresh_congr fun k hk => ?_
  simp only [Session.committed]
  rw [mem_keys_commit]
  refine or_iff_left_of_imp fun hw => ?_
  by_contra hn
  exact ha.orders k (mem_owned.mpr (Or.inl (ho k (mem_keys_fresh.mpr ⟨hk, hn⟩)))) hw

theorem key_mem_written {l : List IncomingOrder} {k : Source × String}
    (ho : s.orders = { writes := l.map newOrderRow }) (hk : k ∈ l.map IncomingOrder.key) :
    k ∈ s.orders.written OrderRow.key := by
  rw [Pending.written, ho, List.map_map]
  exact hk

theorem At.stable (ht : At tables batch t) (ha : s.Apart t) :
    At (s.committed tables) batch t := by
  cases ht with
  | looping done todo hd hp ho hb =>
    have hn : newOrders (s.committed tables) done = newOrders tables done :=
      newOrders_stable ha fun k hk => key_mem_written ho hk
    exact .looping done todo hd hp (by rw [hn]; exact ho) (by rw [hn]; exact hb)
  | adding done todo order hd hp hk hf ho hb =>
    have hmem : ∀ k ∈ (newOrders tables done ++ [order]).map IncomingOrder.key,
        k ∈ t.orders.written OrderRow.key := fun k hk => key_mem_written ho hk
    have hn : newOrders (s.committed tables) done = newOrders tables done :=
      newOrders_stable ha fun k hk => hmem k (by
        rw [List.map_append]; exact List.mem_append_left _ hk)
    refine .adding done todo order hd hp ?_ hf (by rw [hn]; exact ho) (by rw [hn]; exact hb)
    intro h
    rcases mem_keys_commit.mp h with h | h
    · exact hk h
    · exact ha.orders _ (mem_owned.mpr (Or.inl (hmem _ (by simp)))) h
  | ended hp ho hb => exact .ended hp ho hb

theorem Updates.stable (ht : Updates tables t) (ha : s.Apart t) :
    Updates (s.committed tables) t :=
  ⟨ht.prog,
    ht.orders.congr fun k hk =>
      lookup_commit_of_not_written (ha.orders k (mem_owned.mpr (Or.inl hk))),
    ht.outbox.congr fun k hk =>
      lookup_commit_of_not_written (ha.outbox k (mem_owned.mpr (Or.inl hk))),
    ht.keyed⟩

theorem Point.opened {call : Call} {now : ℕ}
    (h : (Action.start call now).service = true) :
    Point tables (Session.opened threshold call now) := by
  cases call with
  | ingest batch => exact Or.inl ⟨batch, rfl, .looping [] batch rfl rfl rfl rfl⟩
  | process v =>
    exact Or.inr ⟨rfl, ProcessAssessment.handle_settled threshold v, .empty, .empty, by
      simp [Session.opened]⟩
  | relay n =>
    exact Or.inr ⟨rfl, RelayOutbox.runOnce_settled n, .empty, .empty, by simp [Session.opened]⟩
  | producer prog => cases h

theorem Point.commit {next prog : Prog} (h : Point tables s) (hp : s.prog = .commit next)
    (hn : prog = next ∨ ∃ m, prog = .raise (.other m)) :
    Point (s.committed tables) (s.afterCommit prog) := by
  rcases h with ⟨batch, hc, ha⟩ | ⟨hc, hu⟩
  · refine Or.inl ⟨batch, Session.afterCommit_call.trans hc, .ended ?_ (by simp) (by simp)⟩
    have hret : next = .ret := by
      cases ha with
      | looping done todo _ hp' =>
        cases todo with
        | nil => exact Prog.commit.inj (hp.symm.trans hp')
        | cons order todo => exact absurd (hp.symm.trans hp') (by simp [handle])
      | adding _ _ _ _ hp' => exact absurd (hp.symm.trans hp') (by simp [addAssessmentRequest])
      | ended hp' => rw [hp] at hp'; cases hp'
    rw [Session.afterCommit_prog]
    rcases hn with rfl | ⟨m, rfl⟩
    · rw [hret]; rfl
    · rfl
  · refine Or.inr ⟨by simpa using hc, ?_⟩
    refine ⟨?_, by simpa using Agrees.empty, by simpa using Agrees.empty, by simp⟩
    rw [Session.afterCommit_prog]
    rcases hn with rfl | ⟨m, rfl⟩
    · have hset := hu.prog
      rw [hp] at hset
      cases hset with
      | commit h => exact h
    · exact .raise _

theorem map_assessEvent (rows : List OrderRow) : rows.map OrderRow.assessEvent =
    (rows.map OrderRow.incoming).map fun o => (assessKey o.key, assessRequestPayload o) := by
  rw [List.map_map]; rfl

theorem InStep.mem_keys {ingested : List IncomingOrder} (h : InStep tables ingested)
    {k : Source × String} :
    k ∈ tables.orders.map OrderRow.key ↔ k ∈ ingested.map IncomingOrder.key := by
  have hk : tables.orders.map OrderRow.key =
      (tables.orders.map OrderRow.incoming).map IncomingOrder.key := by
    rw [List.map_map]; rfl
  rw [hk, h.orders, mem_keys_fresh]
  simp

theorem InStep.commit_ingest {ingested : List IncomingOrder} (h : InStep tables ingested)
    (ho : s.orders = { writes := (newOrders tables batch).map newOrderRow })
    (hb : s.outbox = { writes := (newOrders tables batch).map (assessRow s.now) }) :
    InStep (s.committed tables) (ingested ++ batch) := by
  have hnew : newOrders tables batch = fresh IncomingOrder.key (ingested.map IncomingOrder.key)
      batch := fresh_congr fun k _ => h.mem_keys
  have horders : (s.committed tables).orders =
      tables.orders ++ (newOrders tables batch).map newOrderRow := by
    simp only [Session.committed, ho]
    refine overlay_of_fresh ?_ fun k hk => (newOrders_keys.mp hk).2
    rw [List.map_map]
    exact nodup_fresh
  have houtbox : (s.committed tables).outbox =
      tables.outbox ++ (newOrders tables batch).map (assessRow s.now) := by
    simp only [Session.committed, hb]
    refine overlay_of_fresh ?_ fun k hk hk' => ?_
    · have hinj : ((newOrders tables batch).map IncomingOrder.key).Nodup := nodup_fresh
      have := hinj.map (f := assessKey) fun _ _ => assessKey_injective
      rw [List.map_map] at this ⊢
      exact this
    · rw [List.map_map] at hk
      obtain ⟨o, hm, rfl⟩ := List.mem_map.mp hk
      exact (mem_keys_fresh.mp (List.mem_map_of_mem hm)).2 (h.mem_orders hk')
  refine ⟨?_, ?_, ?_⟩
  · rw [horders, List.map_append, h.orders, fresh_append, List.nil_append, List.map_map, hnew]
    simp [Function.comp_def]
  · rw [horders, houtbox, List.filterMap_append, List.map_append, h.outbox, List.filterMap_map,
      List.map_map]
    congr 1
    rw [← List.filterMap_eq_map']
    rfl
  · rw [houtbox]
    intro e he
    rcases List.mem_append.mp he with he | he
    · exact h.keyed e he
    · obtain ⟨o, -, rfl⟩ := List.mem_map.mp he
      exact Or.inl ⟨rfl, o.key, rfl⟩

theorem InStep.commit_updates {ingested : List IncomingOrder} (h : InStep tables ingested)
    (hb : (tables.outbox.map OutboxRow.dedupKey).Nodup)
    (hwo : s.orders.WellFormed OrderRow.key tables.orders)
    (hwb : s.outbox.WellFormed OutboxRow.dedupKey tables.outbox) (hu : Updates tables s) :
    InStep (s.committed tables) ingested := by
  have horders : (s.committed tables).orders.map OrderRow.incoming =
      tables.orders.map OrderRow.incoming := by
    have hf := hu.orders.commit hwo
    simp only [Function.comp_def, List.filterMap_eq_map'] at hf
    exact hf
  refine ⟨horders.trans h.orders, ?_, commit_forall hb hwb h.keyed hu.keyed⟩
  rw [map_assessEvent, horders, ← map_assessEvent]
  exact (hu.outbox.commit hwb).trans h.outbox

structure Invariant (core : Core) : Prop where
  isolated : core.Isolated
  points : ∀ s ∈ core.sessions, Point core.tables s
  inStep : InStep core.tables core.ingested

theorem Invariant.step (hi : Invariant core) (ha : a.service = true)
    (h : core.Step threshold a core') : Invariant core' := by
  obtain ⟨hc, hp, hs⟩ := hi
  refine ⟨hc.step h, ?_, ?_⟩
  · refine hc.sessions_step h hp ?_ ?_ ?_ ?_
    · rintro call now rfl
      exact .opened ha
    · rintro i move s s' - hs' hl (⟨batch, hb, hat⟩ | ⟨hb, hu⟩)
      · exact Or.inl ⟨batch, hl.call_eq.trans hb, hat.local hs hl⟩
      · have hm := List.mem_of_getElem? hs'
        exact Or.inr ⟨by rw [hl.call_eq, hb], hu.local hc.orders_nodup hc.outbox_nodup
          (hc.orders_wellFormed s hm) (hc.outbox_wellFormed s hm) hs.keyed hl⟩
    · exact fun s next prog _ hpr hn hpt => hpt.commit hpr hn
    · rintro s t next - - hap - - (⟨batch, hb, hat⟩ | ⟨hb, hu⟩)
      · exact Or.inl ⟨batch, hb, hat.stable hap⟩
      · exact Or.inr ⟨hb, hu.stable hap⟩
  · cases h with
    | start => exact hs
    | perform => exact hs
    | @commit i s next prog acknowledged hs' hpr hn =>
      have hm := List.mem_of_getElem? hs'
      rcases hp s hm with ⟨batch, hb, hat⟩ | ⟨hb, hu⟩
      · cases hat with
        | looping done todo hd hp' ho hb' =>
          cases todo with
          | nil =>
            rw [List.append_nil] at hd
            rw [hb, Call.batch, hd]
            exact hs.commit_ingest ho hb'
          | cons order todo => exact absurd (hpr.symm.trans hp') (by simp [handle])
        | adding _ _ _ _ hp' =>
          exact absurd (hpr.symm.trans hp') (by simp [addAssessmentRequest])
        | ended hp' => rw [hpr] at hp'; cases hp'
      · rw [hb, List.append_nil]
        exact hs.commit_updates hc.outbox_nodup (hc.orders_wellFormed s hm)
          (hc.outbox_wellFormed s hm) hu

theorem Invariant.init : Invariant { tables := {} } :=
  ⟨.init (by simp) (by simp), by simp, ⟨rfl, rfl, by simp⟩⟩

theorem Invariant.of_reach
    (h : Reach (Core.step threshold) (fun _ a => a.service = true) { tables := {} } core) :
    Invariant core :=
  h.invariant .init fun _ _ _ _ hi ha hs => hi.step ha (Core.step_cases hs)

/--
In every committed state an order is stored once, stored orders and assessment requests
are in bijection, a request carries the payload of its order, and the stored order is
the first occurrence among the committed batches.
-/
theorem transactional_outbox
    (h : Reach (Core.step threshold) (fun _ a => a.service = true) { tables := {} } core) :
    (core.tables.orders.map OrderRow.key).Nodup ∧
    (∀ r ∈ core.tables.orders, ∃! e, e ∈ core.tables.outbox ∧
      e.destination = OutboxDestination.assessRequest.value ∧ e.dedupKey = assessKey r.key) ∧
    (∀ e ∈ core.tables.outbox, e.destination = OutboxDestination.assessRequest.value →
      ∃! r, r ∈ core.tables.orders ∧ e.dedupKey = assessKey r.key) ∧
    (∀ r ∈ core.tables.orders, ∀ e ∈ core.tables.outbox, e.dedupKey = assessKey r.key →
      e.payload = assessRequestPayload r.incoming ∧
        e.payload.field "orders" = some (.arr [r.payload])) ∧
    (∀ r ∈ core.tables.orders,
      lookup IncomingOrder.key core.ingested r.key = some r.incoming) := by
  obtain ⟨hc, -, hs⟩ := Invariant.of_reach h
  have hevent : ∀ e ∈ core.tables.outbox,
      ∀ p, e.assessEvent = some p → ∃ r ∈ core.tables.orders, r.assessEvent = p := by
    intro e he p hp
    have hm : p ∈ core.tables.outbox.filterMap OutboxRow.assessEvent :=
      List.mem_filterMap.mpr ⟨e, he, hp⟩
    rw [hs.outbox] at hm
    exact List.mem_map.mp hm
  have hsame : ∀ r ∈ core.tables.orders, ∀ r' ∈ core.tables.orders,
      assessKey r.key = assessKey r'.key → r = r' := fun r hr r' hr' hk =>
    eq_of_key_eq hc.orders_nodup hr hr' (assessKey_injective hk)
  have hpay : ∀ r ∈ core.tables.orders, ∀ e ∈ core.tables.outbox, e.dedupKey = assessKey r.key →
      e.payload = assessRequestPayload r.incoming := by
    intro r hr e he hk
    obtain ⟨r', hr', hp⟩ := hevent e he _ (assessEvent_of_key (hs.keyed e he) hk)
    obtain rfl := hsame r' hr' r hr (congrArg Prod.fst hp)
    exact (congrArg Prod.snd hp).symm
  refine ⟨hc.orders_nodup, fun r hr => ?_, fun e he hd => ?_, fun r hr e he hk => ?_,
    fun r hr => ?_⟩
  · have hm : r.assessEvent ∈ core.tables.outbox.filterMap OutboxRow.assessEvent := by
      rw [hs.outbox]; exact List.mem_map_of_mem hr
    obtain ⟨e, he, hp⟩ := List.mem_filterMap.mp hm
    have hd : e.destination = OutboxDestination.assessRequest.value := by
      by_contra hd
      rw [OutboxRow.assessEvent, if_neg hd] at hp
      cases hp
    rw [OutboxRow.assessEvent, if_pos hd] at hp
    have hk : e.dedupKey = assessKey r.key := congrArg Prod.fst (Option.some.inj hp)
    exact ⟨e, ⟨he, hd, hk⟩, fun e' h' => eq_of_key_eq hc.outbox_nodup h'.1 he
      (h'.2.2.trans hk.symm)⟩
  · obtain ⟨r, hr, hp⟩ := hevent e he _ (if_pos hd)
    have hk : assessKey r.key = e.dedupKey := congrArg Prod.fst hp
    exact ⟨r, ⟨hr, hk.symm⟩, fun r' h' => hsame r' h'.1 r hr (h'.2.symm.trans hk.symm)⟩
  · refine ⟨hpay r hr e he hk, ?_⟩
    rw [hpay r hr e he hk]
    rfl
  · rw [← lookup_fresh (List.not_mem_nil : r.key ∉ []), ← hs.orders]
    refine (lookup_eq_some_iff ?_).mpr ⟨List.mem_map_of_mem hr, key_incoming r⟩
    rw [hs.orders]
    exact nodup_fresh

def firstOrder : IncomingOrder := { source := .profi, externalId := "1", payload := .str "first" }

def secondOrder : IncomingOrder := { source := .profi, externalId := "1", payload := .str "second" }

/-- Two calls with one order; the second one comes too late for its insert. -/
def lateCall : List Action :=
  [.start (.ingest [firstOrder, firstOrder]) 0, .start (.ingest [secondOrder]) 1,
    .perform 0 .exec, .perform 0 .exec, .perform 0 .exec, .commit 0 true, .perform 1 .exec,
    .commit 1 true]

theorem transactional_outbox_lateCall :
    ∃ core : Core, core.ingested = [firstOrder, firstOrder, secondOrder] ∧
      core.tables.orders = [newOrderRow firstOrder] ∧
      core.tables.outbox = [assessRow 0 firstOrder] ∧
      ∀ r ∈ core.tables.orders,
        lookup IncomingOrder.key core.ingested r.key = some r.incoming := by
  have hrun : run (guarded (Core.step 70) fun _ a => a.service) { tables := {} } lateCall = some
      { tables := ⟨[newOrderRow firstOrder], [assessRow 0 firstOrder]⟩
        sessions := [{ call := .ingest [firstOrder, firstOrder], now := 0, prog := .ret },
          { call := .ingest [secondOrder], now := 1, prog := .ret }]
        ingested := [firstOrder, firstOrder, secondOrder] } := rfl
  exact ⟨_, rfl, rfl, rfl, (transactional_outbox (Reach.of_run hrun)).2.2.2.2⟩

end IngestOrders

end ProfiNotifications.OrderCore
