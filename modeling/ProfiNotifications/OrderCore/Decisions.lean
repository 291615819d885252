import ProfiNotifications.OrderCore.Ingest
import ProfiNotifications.OrderCore.Redelivery

/-! # What stands when handlers overtake each other

Two handlers that have both passed the guard may leave an order with the status of one
verdict and the notify event of another. In every interleaving, though, status and score
of an order come from one verdict, an order that is to be notified of has an event, every
event is of a verdict that reaches the threshold, and a decided order stays decided.
-/

namespace ProfiNotifications.OrderCore

open Keyed ReadCommitted Transition

/-- The order is stored and has had a verdict. -/
def Decided (tables : Tables) (k : Source × String) : Prop :=
  ∃ r ∈ tables.orders, r.key = k ∧ r.status ≠ .assessRequested

variable {threshold : ℤ} {tables : Tables} {others : List Session} {s s' t : Session}
  {core core' : Core} {a : Action} {move : Move} {v : AssessmentOutcome} {k : Source × String}

/-! ## Sessions of the relay -/

/-- Programs that neither read nor write orders and add no event. -/
inductive Prog.Relaying : Prog → Prop
  | ret : Relaying .ret
  | raise (error : Failure) : Relaying (.raise error)
  | claimPending {limit : ℕ} {next : List PendingEvent → Prog} (h : ∀ es, Relaying (next es)) :
      Relaying (.claimPending limit next)
  | publish {event : PendingEvent} {next : Prog} (h : Relaying next) :
      Relaying (.publish event next)
  | markPublished {ids : List String} {next : Prog} (h : Relaying next) :
      Relaying (.markPublished ids next)
  | commit {next : Prog} (h : Relaying next) : Relaying (.commit next)

namespace RelayOutbox

theorem publishAll_relaying {next : Prog} (h : next.Relaying) (events : List PendingEvent) :
    (publishAll events next).Relaying := by
  induction events with
  | nil => exact h
  | cons event events ih => exact .publish ih

theorem runOnce_relaying (n : ℕ) : (runOnce n).Relaying := by
  refine .claimPending fun es => ?_
  cases es with
  | nil => exact .ret
  | cons e es => exact publishAll_relaying (.markPublished (.commit .ret)) (e :: es)

/-- The session writes no order, and its event rows are versions of committed ones. -/
structure Relays (tables : Tables) (s : Session) : Prop where
  prog : s.prog.Relaying
  orders : s.orders = {}
  outbox : Agrees OutboxRow.dedupKey (some ∘ OutboxRow.toEvent) tables.outbox s.outbox

theorem Relays.resume {prog : Prog} (h : Relays tables s) (hp : prog.Relaying) :
    Relays tables (s.resume prog) := by
  refine ⟨by rw [Session.resume_prog]; exact hp, ?_, ?_⟩
  · rcases s.resume_orders prog with ho | ho
    · rw [ho, h.orders]
    · exact ho
  · rcases s.resume_outbox prog with hb | hb <;> rw [hb]
    exacts [h.outbox, .empty]

theorem Relays.local (hu : (tables.outbox.map OutboxRow.dedupKey).Nodup)
    (hw : s.outbox.WellFormed OutboxRow.dedupKey tables.outbox)
    (h : LocalStep tables others s move s') (hs : Relays tables s) : Relays tables s' := by
  rcases h.inv with ⟨-, m, rfl⟩ | hi
  · exact hs.resume (.raise _)
  obtain ⟨hp, ho, hb⟩ := hs
  generalize hprog : s.prog = prog at hp
  cases hp with
  | ret => simp only [Session.After, hprog] at hi
  | raise => simp only [Session.After, hprog] at hi
  | commit => simp only [Session.After, hprog] at hi
  | @claimPending limit next hnext =>
    simp only [Session.After, hprog] at hi
    obtain ⟨rows, -, rfl⟩ := hi
    exact Relays.resume ⟨.claimPending hnext, ho, hb⟩ (hnext _)
  | publish hnext =>
    simp only [Session.After, hprog] at hi
    rcases hi with rfl | rfl
    · exact Relays.resume ⟨.publish hnext, ho, hb⟩ hnext
    · exact Relays.resume ⟨.publish hnext, ho, hb⟩ (.raise _)
  | markPublished hnext =>
    simp only [Session.After, hprog] at hi
    obtain ⟨tx, htx, rfl⟩ := hi
    have htx' : Agrees OutboxRow.dedupKey (some ∘ OutboxRow.toEvent) tables.outbox tx :=
      hb.updateAll (f := publishRow s.now) hu hw (fun _ => rfl) (fun _ => rfl) htx
    exact Relays.resume ⟨.markPublished hnext, ho, htx'⟩ hnext

theorem Relays.commit {tables' : Tables} {next prog : Prog} (hs : Relays tables s)
    (hp : s.prog = .commit next) (hn : prog = next ∨ ∃ m, prog = .raise (.other m)) :
    Relays tables' (s.afterCommit prog) := by
  refine ⟨?_, Session.afterCommit_orders, by rw [Session.afterCommit_outbox]; exact .empty⟩
  rw [Session.afterCommit_prog]
  rcases hn with rfl | ⟨m, rfl⟩
  · have hprog := hs.prog
    rw [hp] at hprog
    cases hprog with
    | commit h => exact h
  · exact .raise _

theorem Relays.stable (ht : Relays tables t) (ha : s.Apart t) :
    Relays (s.committed tables) t :=
  ⟨ht.prog, ht.orders, ht.outbox.congr fun k hk =>
    lookup_commit_of_not_written (ha.outbox k (mem_owned.mpr (Or.inl hk)))⟩

theorem Relays.event {w : OutboxRow} (hs : Relays tables s) (hw : w ∈ s.outbox.writes) :
    ∃ r ∈ tables.outbox, r.toEvent = w.toEvent := by
  obtain ⟨r, hr, he⟩ := Option.bind_eq_some_iff.mp (hs.outbox w hw)
  exact ⟨r, (mem_of_lookup hr).1, Option.some.inj he⟩

end RelayOutbox

/-! ## Sessions of the handler -/

namespace ProcessAssessment

/-- The notify event is written by this session, or committed before it. -/
structure Notifies (threshold : ℤ) (tables : Tables) (v : AssessmentOutcome) (s : Session) :
    Prop where
  events : ∀ w ∈ s.outbox.writes, w = notifyRow s.now v ∧ threshold ≤ v.suitabilityScore
  queued : threshold ≤ v.suitabilityScore → notifyKey (key v) ∈
    tables.outbox.map OutboxRow.dedupKey ++ s.outbox.written OutboxRow.dedupKey

/-- Where the handler of a verdict is, whatever other handlers do. -/
inductive Stage (threshold : ℤ) (tables : Tables) (v : AssessmentOutcome) (s : Session) : Prop
  | reading (hp : s.prog = handle threshold v) (ho : s.orders = {}) (hb : s.outbox = {})
  | deciding (hp : s.prog = apply threshold v) (ho : s.orders = {}) (hb : s.outbox = {})
      (hk : key v ∈ tables.orders.map OrderRow.key)
  | updated (r : OrderRow)
      (hp : s.prog = addNotification .profi v.orderId v.notification (.commit .ret))
      (ho : s.orders = { writes := [verdictRow (verdictStatus threshold v) v r] })
      (hb : s.outbox = {}) (hk : r.key = key v) (ht : threshold ≤ v.suitabilityScore)
  | committing (r : OrderRow) (hp : s.prog = .commit .ret)
      (ho : s.orders = { writes := [verdictRow (verdictStatus threshold v) v r] })
      (hk : r.key = key v) (hn : Notifies threshold tables v s)
  | ignored (hp : s.prog = .commit .ret) (ho : s.orders = {}) (hb : s.outbox = {})
      (hd : Decided tables (key v))
  | returned (hp : s.prog = .ret) (ho : s.orders = {}) (hb : s.outbox = {})
      (hd : Decided tables (key v))
  | raised (e : Failure) (hp : s.prog = .raise e) (ho : s.orders = {}) (hb : s.outbox = {})

theorem Stage.abort {e : Failure} : Stage threshold tables v (s.abort e) :=
  .raised e Session.abort_prog rfl rfl

theorem decided_of_get {order : Order} (h : get tables.orders {} .profi v.orderId = some order)
    (hs : canApplyAssessment order.status ≠ true) : Decided tables (key v) := by
  obtain ⟨r, hr, rfl⟩ := Option.map_eq_some_iff.mp h
  obtain ⟨hmem, hkey⟩ := mem_of_lookup hr
  exact ⟨r, hmem, hkey, fun hst => hs (canApplyAssessment_iff.mpr hst)⟩

theorem Stage.local (h : LocalStep tables others s move s') (hs : Stage threshold tables v s) :
    Stage threshold tables v s' := by
  rcases h.inv with ⟨-, m, rfl⟩ | hi
  · exact .abort
  cases hs with
  | reading hp ho hb =>
    simp only [Session.After, hp, handle] at hi
    subst hi
    cases hg : get tables.orders s.orders .profi v.orderId with
    | none => exact .abort
    | some order =>
      rw [ho] at hg
      simp only
      split
      · have he : (apply threshold v).ended = false := by unfold apply; split <;> rfl
        rw [Session.resume_of_not_ended he]
        obtain ⟨r, hr, -⟩ := Option.map_eq_some_iff.mp hg
        exact .deciding rfl ho hb (mem_keys_of_lookup hr)
      · exact .ignored rfl ho hb (decided_of_get hg ‹_›)
  | deciding hp ho hb hk =>
    obtain ⟨r, hr⟩ := exists_lookup_of_mem_keys hk
    have hrow : ∀ {st tx b},
        setStatus tables.orders (others.map Session.orders) s.orders .profi v.orderId st
          (some v.suitabilityScore) = some (tx, b) → tx = { writes := [verdictRow st v r] } := by
      intro st tx b h
      rw [ho] at h
      rcases update_cases h with ⟨-, -, hs⟩ | ⟨r', -, hs, -, rfl⟩
      · exact absurd (hs.symm.trans hr) (by simp)
      · obtain rfl := Option.some.inj (hs.symm.trans hr)
        rfl
    by_cases ht : threshold ≤ v.suitabilityScore
    · have hst : verdictStatus threshold v = .notifyRequested := if_pos ht
      rw [apply, if_pos (decideNotification_notify.mpr ht)] at hp
      simp only [Session.After, hp] at hi
      obtain ⟨tx, b, -, hu, rfl⟩ := hi
      exact .updated r rfl (by rw [hst]; exact hrow hu) hb (mem_of_lookup hr).2 ht
    · have hst : verdictStatus threshold v = .noNotify := if_neg ht
      rw [apply, if_neg (by rwa [decideNotification_notify])] at hp
      simp only [Session.After, hp] at hi
      obtain ⟨tx, b, -, hu, rfl⟩ := hi
      refine .committing r rfl (by rw [hst]; exact hrow hu) (mem_of_lookup hr).2 ⟨?_, ?_⟩
      · rintro w hw
        change w ∈ s.outbox.writes at hw
        rw [hb] at hw
        cases hw
      · exact fun h => absurd h ht
  | updated r hp ho hb hk ht =>
    simp only [Session.After, hp, addNotification] at hi
    obtain ⟨tx, b, hu, rfl⟩ := hi
    rw [hb] at hu
    refine .committing r rfl ho hk ?_
    rcases insertOrIgnore_cases hu with ⟨-, rfl, hf⟩ | ⟨-, rfl, -⟩
    · refine ⟨by rintro w ⟨⟩, fun _ => List.mem_append_left _ ?_⟩
      exact hf.resolve_right List.not_mem_nil
    · refine ⟨fun w hw => ⟨List.mem_singleton.mp hw, ht⟩, fun _ => List.mem_append_right _ ?_⟩
      exact List.mem_cons_self
  | committing r hp => simp only [Session.After, hp] at hi
  | ignored hp => simp only [Session.After, hp] at hi
  | returned hp => simp only [Session.After, hp] at hi
  | raised e hp => simp only [Session.After, hp] at hi

theorem Stage.at_commit {next : Prog} (hs : Stage threshold tables v s)
    (hp : s.prog = .commit next) : next = .ret ∧
      ((∃ r, s.orders = { writes := [verdictRow (verdictStatus threshold v) v r] } ∧
        r.key = key v ∧ Notifies threshold tables v s) ∨
      (s.orders = {} ∧ Decided tables (key v))) := by
  cases hs with
  | reading h => exact absurd (hp.symm.trans h) (by simp [handle])
  | deciding h => exact absurd (hp.symm.trans h) (by unfold apply; split <;> simp)
  | updated _ h => exact absurd (hp.symm.trans h) (by simp [addNotification])
  | committing r h ho hk hn => exact ⟨Prog.commit.inj (hp.symm.trans h), Or.inl ⟨r, ho, hk, hn⟩⟩
  | ignored h ho _ hd => exact ⟨Prog.commit.inj (hp.symm.trans h), Or.inr ⟨ho, hd⟩⟩
  | returned h => exact absurd (hp.symm.trans h) (by simp)
  | raised _ h => exact absurd (hp.symm.trans h) (by simp)

theorem Stage.decided_of_returned (hs : Stage threshold tables v s) (hp : s.prog = .ret) :
    Decided tables (key v) := by
  cases hs with
  | reading h => exact absurd (hp.symm.trans h) (by simp [handle])
  | deciding h => exact absurd (hp.symm.trans h) (by unfold apply; split <;> simp)
  | updated _ h => exact absurd (hp.symm.trans h) (by simp [addNotification])
  | committing _ h => exact absurd (hp.symm.trans h) (by simp)
  | ignored h => exact absurd (hp.symm.trans h) (by simp)
  | returned _ _ _ hd => exact hd
  | raised _ h => exact absurd (hp.symm.trans h) (by simp)

theorem Stage.commit {tables' : Tables} {next prog : Prog} (hs : Stage threshold tables v s)
    (hp : s.prog = .commit next) (hn : prog = next ∨ ∃ m, prog = .raise (.other m))
    (hd : Decided tables' (key v)) : Stage threshold tables' v (s.afterCommit prog) := by
  obtain ⟨rfl, -⟩ := hs.at_commit hp
  rcases hn with rfl | ⟨m, rfl⟩
  · exact .returned Session.afterCommit_prog Session.afterCommit_orders
      Session.afterCommit_outbox hd
  · exact .raised _ Session.afterCommit_prog Session.afterCommit_orders
      Session.afterCommit_outbox

/-- The commit of another session, under which decided orders stay decided. -/
theorem Stage.stable {tables' : Tables} (hs : Stage threshold tables v s)
    (hk : ∀ k ∈ tables.orders.map OrderRow.key, k ∈ tables'.orders.map OrderRow.key)
    (hb : ∀ k ∈ tables.outbox.map OutboxRow.dedupKey, k ∈ tables'.outbox.map OutboxRow.dedupKey)
    (hd : ∀ k, Decided tables k → Decided tables' k) : Stage threshold tables' v s := by
  cases hs with
  | reading hp ho hx => exact .reading hp ho hx
  | deciding hp ho hx hkey => exact .deciding hp ho hx (hk _ hkey)
  | updated r hp ho hx hkey ht => exact .updated r hp ho hx hkey ht
  | committing r hp ho hkey hn =>
    refine .committing r hp ho hkey ⟨hn.events, fun ht => ?_⟩
    rcases List.mem_append.mp (hn.queued ht) with h | h
    exacts [List.mem_append_left _ (hb _ h), List.mem_append_right _ h]
  | ignored hp ho hx hdec => exact .ignored hp ho hx (hd _ hdec)
  | returned hp ho hx hdec => exact .returned hp ho hx (hd _ hdec)
  | raised e hp ho hx => exact .raised e hp ho hx

end ProcessAssessment

/-! ## All sessions -/

open ProcessAssessment

inductive Acts (threshold : ℤ) (tables : Tables) (s : Session) : Prop
  | ingest (batch : List IncomingOrder) (hc : s.call = .ingest batch)
      (h : IngestOrders.At tables batch s)
  | process (v : AssessmentOutcome) (hc : s.call = .process v) (h : Stage threshold tables v s)
  | relay (n : ℕ) (hc : s.call = .relay n) (h : RelayOutbox.Relays tables s)

theorem Acts.stage (hs : Acts threshold tables s) (hc : s.call = .process v) :
    Stage threshold tables v s := by
  cases hs with
  | ingest batch hc' => cases hc.symm.trans hc'
  | process v' hc' hat => exact Call.process.inj (hc.symm.trans hc') ▸ hat
  | relay n hc' => cases hc.symm.trans hc'

theorem Acts.opened {call : Call} {now : ℕ} (h : (Action.start call now).service = true) :
    Acts threshold tables (Session.opened threshold call now) := by
  cases call with
  | ingest batch => exact .ingest batch rfl (.looping [] batch rfl rfl rfl rfl)
  | process v => exact .process v rfl (.reading rfl rfl rfl)
  | relay n => exact .relay n rfl ⟨RelayOutbox.runOnce_relaying n, rfl, .empty⟩
  | producer prog => cases h

theorem Acts.local (hi : IngestOrders.Invariant core) (hm : s ∈ core.sessions)
    (h : LocalStep core.tables others s move s') (hs : Acts threshold core.tables s) :
    Acts threshold core.tables s' := by
  cases hs with
  | ingest batch hc hat => exact .ingest batch (h.call_eq.trans hc) (hat.local hi.inStep h)
  | process v hc hat => exact .process v (h.call_eq.trans hc) (hat.local h)
  | relay n hc hat =>
    exact .relay n (h.call_eq.trans hc)
      (hat.local hi.isolated.outbox_nodup (hi.isolated.outbox_wellFormed s hm) h)

/-- What a session writes to the orders: new ones, and one verdict on its order. -/
inductive OrderWrite (threshold : ℤ) (tables : Tables) (call : Call) (w : OrderRow) : Prop
  | new (hst : w.status = .assessRequested) (hk : w.key ∉ tables.orders.map OrderRow.key)
  | verdict (v : AssessmentOutcome) (hc : call = .process v) (hk : w.key = key v)
      (hst : w.status = verdictStatus threshold v)
      (hscore : w.suitabilityScore = some v.suitabilityScore)

theorem Acts.orderWrite (hs : Acts threshold tables s) {w : OrderRow} (hw : w ∈ s.orders.writes) :
    OrderWrite threshold tables s.call w := by
  cases hs with
  | ingest batch hc hat =>
    have hnew : ∀ done, ∀ o ∈ IngestOrders.newOrders tables done,
        o.key ∉ tables.orders.map OrderRow.key := fun done o ho =>
      (IngestOrders.newOrders_keys.mp (List.mem_map_of_mem (List.mem_map_of_mem ho))).2
    cases hat with
    | looping done todo _ _ ho =>
      rw [ho] at hw
      obtain ⟨o, hmem, rfl⟩ := List.mem_map.mp hw
      exact .new rfl (hnew done o hmem)
    | adding done todo order _ _ hk _ ho =>
      rw [ho] at hw
      obtain ⟨o, hmem, rfl⟩ := List.mem_map.mp hw
      rcases List.mem_append.mp hmem with hmem | hmem
      · exact .new rfl (hnew done o hmem)
      · rw [List.mem_singleton.mp hmem]
        exact .new rfl hk
    | ended _ ho =>
      rw [ho] at hw
      cases hw
  | process v hc hat =>
    have hnone : s.orders = {} → OrderWrite threshold tables s.call w := by
      intro ho
      rw [ho] at hw
      cases hw
    have hone : ∀ r : OrderRow, r.key = key v →
        s.orders = { writes := [verdictRow (verdictStatus threshold v) v r] } →
        OrderWrite threshold tables s.call w := by
      intro r hk ho
      rw [ho] at hw
      obtain rfl := List.mem_singleton.mp hw
      exact .verdict v hc hk rfl rfl
    cases hat with
    | updated r _ ho _ hk => exact hone r hk ho
    | committing r _ ho hk => exact hone r hk ho
    | reading _ ho => exact hnone ho
    | deciding _ ho => exact hnone ho
    | ignored _ ho => exact hnone ho
    | returned _ ho => exact hnone ho
    | raised _ _ ho => exact hnone ho
  | relay n _ hat =>
    rw [hat.orders] at hw
    cases hw

/-- What a session writes to the outbox. -/
inductive EventWrite (threshold : ℤ) (tables : Tables) (call : Call) (w : OutboxRow) : Prop
  | request (hd : w.destination = OutboxDestination.assessRequest.value)
  | verdict (v : AssessmentOutcome) (now : ℕ) (hc : call = .process v)
      (ht : threshold ≤ v.suitabilityScore) (hw : w = notifyRow now v)
  | version (r : OutboxRow) (hr : r ∈ tables.outbox) (he : r.toEvent = w.toEvent)

theorem Acts.eventWrite (hs : Acts threshold tables s) {w : OutboxRow}
    (hw : w ∈ s.outbox.writes) : EventWrite threshold tables s.call w := by
  cases hs with
  | ingest batch hc hat =>
    have hnew : ∀ done, w ∈ (IngestOrders.newOrders tables done).map (assessRow s.now) →
        EventWrite threshold tables s.call w := by
      intro done hmem
      obtain ⟨o, -, rfl⟩ := List.mem_map.mp hmem
      exact .request rfl
    cases hat with
    | looping done todo _ _ _ hb =>
      rw [hb] at hw
      exact hnew done hw
    | adding done todo order _ _ _ _ _ hb =>
      rw [hb] at hw
      exact hnew done hw
    | ended _ _ hb =>
      rw [hb] at hw
      cases hw
  | process v hc hat =>
    have hnone : s.outbox = {} → EventWrite threshold tables s.call w := by
      intro hb
      rw [hb] at hw
      cases hw
    cases hat with
    | committing r _ _ _ hn => exact .verdict v s.now hc (hn.events w hw).2 (hn.events w hw).1
    | updated r _ _ hb => exact hnone hb
    | reading _ _ hb => exact hnone hb
    | deciding _ _ hb => exact hnone hb
    | ignored _ _ hb => exact hnone hb
    | returned _ _ hb => exact hnone hb
    | raised _ _ _ hb => exact hnone hb
  | relay n _ hat =>
    obtain ⟨r, hr, he⟩ := hat.event hw
    exact .version r hr he

/-! ## The committed rows -/

theorem Decided.commit (hc : core.Isolated) (hm : s ∈ core.sessions)
    (hs : Acts threshold core.tables s) (hd : Decided core.tables k) :
    Decided (s.committed core.tables) k := by
  obtain ⟨r, hr, hk, hst⟩ := hd
  have hview : ∀ r', r' ∈ s.orders.writes ∨
      (r' ∈ core.tables.orders ∧ r'.key ∉ s.orders.written OrderRow.key) →
      r' ∈ (s.committed core.tables).orders := fun r' =>
    (mem_view hc.orders_nodup (hc.orders_wellFormed s hm)).mpr
  by_cases hw : r.key ∈ s.orders.written OrderRow.key
  · obtain ⟨w, hw, hkey⟩ := List.mem_map.mp hw
    refine ⟨w, hview w (Or.inl hw), hkey.trans hk, ?_⟩
    cases hs.orderWrite hw with
    | new _ hnew => exact absurd (hkey ▸ List.mem_map_of_mem hr) hnew
    | verdict v _ _ hstatus => rw [hstatus]; exact verdictStatus_ne v
  · exact ⟨r, hview r (Or.inr ⟨hr, hw⟩), hk, hst⟩

theorem ProcessAssessment.Stage.decides {next : Prog} (hc : core.Isolated)
    (hm : s ∈ core.sessions) (hp : s.prog = .commit next) (hcall : s.call = .process v)
    (hs : Stage threshold core.tables v s) : Decided (s.committed core.tables) (key v) := by
  obtain ⟨-, ⟨r, ho, hk, -⟩ | ⟨-, hd⟩⟩ := hs.at_commit hp
  · have hw : verdictRow (verdictStatus threshold v) v r ∈ s.orders.writes := by
      rw [ho]
      exact List.mem_cons_self
    exact ⟨_, (mem_view hc.orders_nodup (hc.orders_wellFormed s hm)).mpr (Or.inl hw), hk,
      verdictStatus_ne v⟩
  · exact hd.commit hc hm (.process v hcall hs)

theorem IngestOrders.At.commit {tables' : Tables} {batch : List IncomingOrder}
    {next prog : Prog} (ha : At tables batch s) (hp : s.prog = .commit next)
    (hn : prog = next ∨ ∃ m, prog = .raise (.other m)) :
    At tables' batch (s.afterCommit prog) := by
  refine .ended ?_ Session.afterCommit_orders Session.afterCommit_outbox
  rw [Session.afterCommit_prog]
  rcases hn with rfl | ⟨m, rfl⟩
  · cases ha with
    | looping done todo _ hp' =>
      cases todo with
      | nil => rw [Prog.commit.inj (hp.symm.trans hp')]; rfl
      | cons order todo => exact absurd (hp.symm.trans hp') (by simp [handle])
    | adding _ _ _ _ hp' => exact absurd (hp.symm.trans hp') (by simp [addAssessmentRequest])
    | ended hp' => rw [hp] at hp'; cases hp'
  · rfl

theorem Acts.commit {next prog : Prog} (hc : core.Isolated) (hm : s ∈ core.sessions)
    (hp : s.prog = .commit next) (hn : prog = next ∨ ∃ m, prog = .raise (.other m))
    (hs : Acts threshold core.tables s) :
    Acts threshold (s.committed core.tables) (s.afterCommit prog) := by
  cases hs with
  | ingest batch hcall hat =>
    exact .ingest batch (Session.afterCommit_call.trans hcall) (hat.commit hp hn)
  | process v hcall hat =>
    exact .process v (Session.afterCommit_call.trans hcall)
      (hat.commit hp hn (hat.decides hc hm hp hcall))
  | relay n hcall hat => exact .relay n (Session.afterCommit_call.trans hcall) (hat.commit hp hn)

theorem Acts.stable (hc : core.Isolated) (hm : s ∈ core.sessions) (ha : s.Apart t)
    (hs : Acts threshold core.tables s) (ht : Acts threshold core.tables t) :
    Acts threshold (s.committed core.tables) t := by
  cases ht with
  | ingest batch hcall hat => exact .ingest batch hcall (hat.stable ha)
  | process v hcall hat =>
    exact .process v hcall (hat.stable (fun _ hk => mem_keys_commit.mpr (Or.inl hk))
      (fun _ hk => mem_keys_commit.mpr (Or.inl hk)) fun _ => .commit hc hm hs)
  | relay n hcall hat => exact .relay n hcall (hat.stable ha)

/-! ## Batches that were taken -/

/-- The orders of an ingest call that has returned are stored. -/
def TakesBatch (tables : Tables) (s : Session) : Prop :=
  s.prog = .ret → ∀ order ∈ s.call.batch, order.key ∈ tables.orders.map OrderRow.key

theorem TakesBatch.local (h : LocalStep tables others s move s') (hs : Acts threshold tables s) :
    TakesBatch tables s' := by
  intro hp order ho
  rw [h.call_eq] at ho
  cases hs with
  | process v hc => rw [hc] at ho; cases ho
  | relay n hc => rw [hc] at ho; cases ho
  | ingest batch hc hat =>
    rcases h.inv with ⟨-, m, rfl⟩ | hi
    · rw [Session.abort_prog] at hp
      cases hp
    · have hend : ∀ l, IngestOrders.handle l ≠ .ret := by
        intro l
        cases l <;> simp [IngestOrders.handle]
      cases hat with
      | looping done todo _ hp' =>
        cases todo with
        | nil => simp only [Session.After, hp', IngestOrders.handle] at hi
        | cons order' todo =>
          simp only [Session.After, hp', IngestOrders.handle] at hi
          obtain ⟨tx, b, -, rfl⟩ := hi
          rw [Session.resume_prog] at hp
          cases b with
          | true => cases hp
          | false => exact absurd hp (hend todo)
      | adding done todo order' _ hp' =>
        simp only [Session.After, hp', addAssessmentRequest] at hi
        obtain ⟨tx, b, -, rfl⟩ := hi
        rw [Session.resume_prog] at hp
        exact absurd hp (hend todo)
      | ended hp' => rw [h.not_ended] at hp'; cases hp'

theorem TakesBatch.commit {next prog : Prog} (hp : s.prog = .commit next)
    (hs : Acts threshold tables s) : TakesBatch (s.committed tables) (s.afterCommit prog) := by
  intro _ order ho
  rw [Session.afterCommit_call] at ho
  cases hs with
  | process v hc => rw [hc] at ho; cases ho
  | relay n hc => rw [hc] at ho; cases ho
  | ingest batch hc hat =>
    rw [hc] at ho
    cases hat with
    | looping done todo hd hp' hw =>
      cases todo with
      | cons order' todo => exact absurd (hp.symm.trans hp') (by simp [IngestOrders.handle])
      | nil =>
        rw [List.append_nil] at hd
        refine mem_keys_commit.mpr ?_
        by_cases hk : order.key ∈ tables.orders.map OrderRow.key
        · exact Or.inl hk
        · refine Or.inr ?_
          rw [hw, Pending.written]
          exact IngestOrders.newOrders_keys.mpr ⟨hd ▸ List.mem_map_of_mem ho, hk⟩
    | adding _ _ _ _ hp' => exact absurd (hp.symm.trans hp') (by simp [addAssessmentRequest])
    | ended hp' => rw [hp] at hp'; cases hp'

namespace ProcessAssessment

/-- Status and score of a decided order are those of one verdict, which has its event. -/
def Explained (threshold : ℤ) (verdict : AssessmentOutcome → Prop) (outbox : List OutboxRow)
    (r : OrderRow) : Prop :=
  r.status ≠ .assessRequested → ∃ v, verdict v ∧ key v = r.key ∧
    r.status = verdictStatus threshold v ∧ r.suitabilityScore = some v.suitabilityScore ∧
    (threshold ≤ v.suitabilityScore → notifyKey r.key ∈ outbox.map OutboxRow.dedupKey)

/-- A notify event is of a verdict that reaches the threshold, on a decided order. -/
def Founded (threshold : ℤ) (verdict : AssessmentOutcome → Prop) (tables : Tables)
    (event : PendingEvent) : Prop :=
  event.destination = OutboxDestination.notify.value → ∃ v, verdict v ∧
    threshold ≤ v.suitabilityScore ∧ event.id = notifyKey (key v) ∧
    event.payload = notificationPayload v.notification ∧ Decided tables (key v)

/-- Sessions and committed rows, in any interleaving. -/
structure Standing (threshold : ℤ) (core : Core) : Prop where
  ingest : IngestOrders.Invariant core
  acts : ∀ s ∈ core.sessions, Acts threshold core.tables s
  explained : ∀ r ∈ core.tables.orders,
    Explained threshold (Verdict core) core.tables.outbox r
  founded : ∀ e ∈ core.tables.outbox, Founded threshold (Verdict core) core.tables e.toEvent

theorem Verdict.step (h : core.Step threshold a core') (hv : Verdict core v) : Verdict core' v := by
  obtain ⟨s, hs, hc⟩ := hv
  obtain ⟨s', hs', hc'⟩ := h.exists_call hs
  exact ⟨s', hs', hc'.trans hc⟩

theorem Standing.explained_commit {next : Prog} (hi : Standing threshold core)
    (hm : s ∈ core.sessions) (hp : s.prog = .commit next) {r : OrderRow}
    (hr : r ∈ (s.committed core.tables).orders) :
    Explained threshold (Verdict core) (s.committed core.tables).outbox r := by
  have hc := hi.ingest.isolated
  have hs := hi.acts s hm
  rcases (mem_view hc.orders_nodup (hc.orders_wellFormed s hm)).mp hr with hw | ⟨hr, -⟩
  · intro hst
    cases hs.orderWrite hw with
    | new hnew => exact absurd hnew hst
    | verdict v hcall hk hstatus hscore =>
      refine ⟨v, ⟨s, hm, hcall⟩, hk.symm, hstatus, hscore, fun ht => ?_⟩
      rw [hk]
      obtain ⟨-, ⟨-, -, -, hn⟩ | ⟨ho, -⟩⟩ := (hs.stage hcall).at_commit hp
      · exact mem_keys_commit.mpr (List.mem_append.mp (hn.queued ht))
      · rw [ho] at hw
        cases hw
  · intro hst
    obtain ⟨v, hv, hk, hstatus, hscore, hevent⟩ := hi.explained r hr hst
    exact ⟨v, hv, hk, hstatus, hscore, fun ht => mem_keys_commit.mpr (Or.inl (hevent ht))⟩

theorem Standing.founded_commit {next : Prog} (hi : Standing threshold core)
    (hm : s ∈ core.sessions) (hp : s.prog = .commit next) {e : OutboxRow}
    (he : e ∈ (s.committed core.tables).outbox) :
    Founded threshold (Verdict core) (s.committed core.tables) e.toEvent := by
  have hc := hi.ingest.isolated
  have hs := hi.acts s hm
  have hold : ∀ r ∈ core.tables.outbox,
      Founded threshold (Verdict core) (s.committed core.tables) r.toEvent := by
    intro r hr hd
    obtain ⟨v, hv, ht, hk, hpay, hdec⟩ := hi.founded r hr hd
    exact ⟨v, hv, ht, hk, hpay, hdec.commit hc hm hs⟩
  rcases (mem_view hc.outbox_nodup (hc.outbox_wellFormed s hm)).mp he with hw | ⟨he, -⟩
  · cases hs.eventWrite hw with
    | request hd =>
      intro hd'
      exact absurd (hd.symm.trans hd') (by decide)
    | version r hr hev => exact hev ▸ hold r hr
    | verdict v now hcall ht hw =>
      subst hw
      exact fun _ =>
        ⟨v, ⟨s, hm, hcall⟩, ht, rfl, rfl, (hs.stage hcall).decides hc hm hp hcall⟩
  · exact hold e he

theorem Standing.step (hi : Standing threshold core) (ha : a.service = true)
    (h : core.Step threshold a core') : Standing threshold core' := by
  have hc := hi.ingest.isolated
  have hv : ∀ v, Verdict core v → Verdict core' v := fun _ => .step h
  have hexp : ∀ outbox r, Explained threshold (Verdict core) outbox r →
      Explained threshold (Verdict core') outbox r := by
    intro outbox r hr hst
    obtain ⟨v, hv', hrest⟩ := hr hst
    exact ⟨v, hv v hv', hrest⟩
  have hfound : ∀ tables e, Founded threshold (Verdict core) tables e →
      Founded threshold (Verdict core') tables e := by
    intro tables e he hd
    obtain ⟨v, hv', hrest⟩ := he hd
    exact ⟨v, hv v hv', hrest⟩
  refine ⟨hi.ingest.step ha h, ?_, ?_, ?_⟩
  · refine hc.sessions_step h hi.acts ?_ ?_ ?_ ?_
    · rintro call now rfl
      exact .opened ha
    · rintro i move s s' - hs hl hat
      exact hat.local hi.ingest (List.mem_of_getElem? hs) hl
    · exact fun s next prog hs hp hn hat => hat.commit hc hs hp hn
    · exact fun s t next hs _ hap _ hat hbt => hat.stable hc hs hap hbt
  · intro r hr
    cases h with
    | start => exact hexp _ r (hi.explained r hr)
    | perform => exact hexp _ r (hi.explained r hr)
    | commit hs hp => exact hexp _ r (hi.explained_commit (List.mem_of_getElem? hs) hp hr)
  · intro e he
    cases h with
    | start => exact hfound _ _ (hi.founded e he)
    | perform => exact hfound _ _ (hi.founded e he)
    | commit hs hp => exact hfound _ _ (hi.founded_commit (List.mem_of_getElem? hs) hp he)

theorem Standing.of_reach
    (h : Reach (Core.step threshold) (fun _ a => a.service = true) { tables := {} } core) :
    Standing threshold core := by
  have hinit : Standing threshold { tables := {} } := ⟨.init, by simp, by simp, by simp⟩
  exact h.invariant hinit fun _ _ _ _ hi ha hs => hi.step ha (Core.step_cases hs)

/-- No step takes the verdict of an order back. -/
theorem Standing.decided_step (hi : Standing threshold core) (h : core.Step threshold a core')
    (hd : Decided core.tables k) : Decided core'.tables k := by
  cases h with
  | start => exact hd
  | perform => exact hd
  | commit hs =>
    have hm := List.mem_of_getElem? hs
    exact hd.commit hi.ingest.isolated hm (hi.acts _ hm)

/--
In every interleaving of the use cases: status and score of a decided order are those of
one verdict, and if it reaches the threshold the order has a notify event; every notify
event is of a verdict that reaches the threshold, on a decided order; a handler that has
returned has its order decided; and a decided order is never undecided again.
-/
theorem verdicts_stand
    (h : Reach (Core.step threshold) (fun _ a => a.service = true) { tables := {} } core) :
    (∀ r ∈ core.tables.orders, r.status ≠ .assessRequested → ∃ v, Verdict core v ∧
      key v = r.key ∧ r.status = verdictStatus threshold v ∧
      r.suitabilityScore = some v.suitabilityScore ∧
      (threshold ≤ v.suitabilityScore →
        ∃ e ∈ core.tables.outbox, e.dedupKey = notifyKey r.key)) ∧
    (∀ e ∈ core.tables.outbox, e.destination = OutboxDestination.notify.value →
      ∃ v, Verdict core v ∧ threshold ≤ v.suitabilityScore ∧ e.dedupKey = notifyKey (key v) ∧
        e.payload = notificationPayload v.notification ∧ Decided core.tables (key v)) ∧
    (∀ s ∈ core.sessions, ∀ v, s.call = .process v → s.prog = .ret →
      Decided core.tables (key v)) ∧
    (∀ k, Decided core.tables k → ∀ core',
      Reach (Core.step threshold) (fun _ a => a.service = true) core core' →
        Decided core'.tables k) := by
  have hi := Standing.of_reach h
  refine ⟨fun r hr hst => ?_, fun e he => hi.founded e he,
    fun s hs v hc => ((hi.acts s hs).stage hc).decided_of_returned, fun k hd core' hr => ?_⟩
  · obtain ⟨v, hv, hk, hstatus, hscore, hevent⟩ := hi.explained r hr hst
    exact ⟨v, hv, hk, hstatus, hscore, fun ht => List.mem_map.mp (hevent ht)⟩
  · induction hr with
    | refl => exact hd
    | tail hr' _ hs ih =>
      exact (Standing.of_reach (h.trans hr')).decided_step (Core.step_cases hs) ih

/-- The order is ingested, and two handlers of it pass the guard together. -/
def overtaken : List Action :=
  [.start (.ingest [raceOrder.incoming]) 0, .perform 0 .exec, .perform 0 .exec, .commit 0 true,
    .start (.process raceYes) 1, .start (.process raceNo) 1, .perform 1 .exec, .perform 2 .exec,
    .perform 1 .exec, .perform 1 .exec, .commit 1 true, .perform 2 .exec, .commit 2 true]

theorem verdicts_stand_overtaken : ∃ core : Core,
    core.tables.orders = [verdictRow .noNotify raceNo raceOrder] ∧
    core.tables.outbox = [assessRow 0 raceOrder.incoming, notifyRow 1 raceYes] ∧
    ∀ e ∈ core.tables.outbox, e.destination = OutboxDestination.notify.value →
      ∃ v, Verdict core v ∧ 70 ≤ v.suitabilityScore ∧ e.dedupKey = notifyKey (key v) ∧
        e.payload = notificationPayload v.notification ∧ Decided core.tables (key v) := by
  have hrun : run (guarded (Core.step 70) fun _ a => a.service) { tables := {} } overtaken = some
      { tables := ⟨[verdictRow .noNotify raceNo raceOrder],
          [assessRow 0 raceOrder.incoming, notifyRow 1 raceYes]⟩
        sessions := [
          { call := .ingest [raceOrder.incoming], now := 0, prog := .ret },
          { call := .process raceYes, now := 1, prog := .ret },
          { call := .process raceNo, now := 1, prog := .ret }]
        ingested := [raceOrder.incoming] } := rfl
  exact ⟨_, rfl, rfl, (verdicts_stand (Reach.of_run hrun)).2.1⟩

end ProcessAssessment

end ProfiNotifications.OrderCore
