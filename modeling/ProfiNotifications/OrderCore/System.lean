import Mathlib.Data.List.InsertIdx
import ProfiNotifications.Foundations.Transition
import ProfiNotifications.OrderCore.Handlers

/-! # Concurrent calls over one database

Every call of a use case runs in a session with its own transaction. The system
performs one statement, one publish or one commit of one session at a time; a session
may fail or crash anywhere. Sessions are never removed, so that a state also tells
which calls were made, what they claimed and what they handed to the publisher.
-/

namespace ProfiNotifications.OrderCore

open ReadCommitted Transition

/-- A call of a use case, or of any other program that writes to the tables. -/
inductive Call where
  | ingest (batch : List IncomingOrder)
  | process (outcome : AssessmentOutcome)
  | relay (batchSize : ℕ)
  | producer (prog : Prog)

def Call.prog (threshold : ℤ) : Call → Prog
  | .ingest batch => IngestOrders.handle batch
  | .process outcome => ProcessAssessment.handle threshold outcome
  | .relay batchSize => RelayOutbox.runOnce batchSize
  | .producer prog => prog

def Call.batch : Call → List IncomingOrder
  | .ingest batch => batch
  | _ => []

/-- One call with its open transaction; `claimed` and `handed` are its history. -/
structure Session where
  call : Call
  now : ℕ
  prog : Prog
  orders : OrdersTx := {}
  outbox : OutboxTx := {}
  claimed : List PendingEvent := []
  handed : List (PendingEvent × Bool) := []

/-- The committed tables, all sessions, and the batches of committed ingest calls. -/
structure Core where
  tables : Tables
  sessions : List Session := []
  ingested : List IncomingOrder := []

namespace Session

def opened (threshold : ℤ) (call : Call) (now : ℕ) : Session where
  call := call
  now := now
  prog := call.prog threshold

/-- Go on with the rest of a program; its end closes the transaction. -/
def resume (s : Session) (prog : Prog) : Session :=
  if prog.ended then { s with prog := prog, orders := {}, outbox := {} }
  else { s with prog := prog }

/-- Leave with an exception, which rolls the transaction back. -/
def abort (s : Session) (error : Failure) : Session := s.resume (.raise error)

def committed (s : Session) (tables : Tables) : Tables where
  orders := commit OrderRow.key tables.orders s.orders
  outbox := commit OutboxRow.dedupKey tables.outbox s.outbox

end Session

inductive Move where
  | exec
  | claim (rows : List OutboxRow)
  | publish (confirmed : Bool)
  | fail (message : String)

namespace Session

/-- The next database statement, if the program is at one that need not wait. -/
def exec (tables : Tables) (others : List Session) (s : Session) : Option Session :=
  match s.prog with
  | .insertNew order next =>
    (insertNew tables.orders (others.map orders) s.orders order).map fun r =>
      { s with orders := r.1 }.resume (next r.2)
  | .get source externalId next =>
    some (s.resume (next (get tables.orders s.orders source externalId)))
  | .setStatus source externalId status score next =>
    (setStatus tables.orders (others.map orders) s.orders source externalId status score).map
      fun r => { s with orders := r.1 }.resume (next r.2)
  | .add destination dedupKey payload next =>
    (add tables.outbox (others.map outbox) s.outbox s.now destination dedupKey payload).map
      fun r => { s with outbox := r.1 }.resume next
  | .markPublished ids next =>
    (markPublished tables.outbox (others.map outbox) s.outbox s.now ids).map fun tx =>
      { s with outbox := tx }.resume next
  | _ => none

/-- `claim_pending` with the rows it locks. -/
def claim (tables : Tables) (others : List Session) (s : Session) (rows : List OutboxRow) :
    Option Session :=
  match s.prog with
  | .claimPending limit next =>
    if ClaimResult tables.outbox (others.map outbox) s.outbox limit rows then
      some ({ s with
        outbox := lock OutboxRow.dedupKey s.outbox rows
        claimed := s.claimed ++ rows.map OutboxRow.toEvent }.resume
          (next (rows.map OutboxRow.toEvent)))
    else none
  | _ => none

/-- Hand an event to the transport of its destination, which may fail. -/
def publish (s : Session) (confirmed : Bool) : Option Session :=
  match s.prog with
  | .publish event next =>
    match FastStreamEventPublisher.route event.destination with
    | .error error => some (s.abort error)
    | .ok _ =>
      let s' := { s with handed := s.handed ++ [(event, confirmed)] }
      some (if confirmed then s'.resume next else s'.abort (.other "publish"))
  | _ => none

def perform (tables : Tables) (others : List Session) (s : Session) : Move → Option Session
  | .exec => s.exec tables others
  | .claim rows => s.claim tables others rows
  | .publish confirmed => s.publish confirmed
  | .fail message => if s.prog.ended then none else some (s.abort (.other message))

end Session

inductive Action where
  | start (call : Call) (now : ℕ)
  | perform (i : ℕ) (move : Move)
  | commit (i : ℕ) (acknowledged : Bool)

/-- The action starts no call but those of the service's own use cases. -/
def Action.service : Action → Bool
  | .start (.producer _) _ => false
  | _ => true

/-- One step of the system; a commit may take effect and still fail for its caller. -/
def Core.step (threshold : ℤ) (core : Core) : Action → Option Core
  | .start call now =>
    some { core with sessions := core.sessions ++ [Session.opened threshold call now] }
  | .perform i move => core.sessions[i]?.bind fun s =>
      (s.perform core.tables (core.sessions.eraseIdx i) move).map fun s' =>
        { core with sessions := core.sessions.set i s' }
  | .commit i acknowledged => core.sessions[i]?.bind fun s =>
      match s.prog with
      | .commit next => some
          { tables := s.committed core.tables
            sessions := core.sessions.set i
              ({ s with orders := {}, outbox := {} }.resume
                (if acknowledged then next else .raise (.other "commit")))
            ingested := core.ingested ++ s.call.batch }
      | _ => none

/-- A step of one session short of a commit, by the statement it performs. -/
inductive LocalStep (tables : Tables) (others : List Session) (s : Session) :
    Move → Session → Prop
  | insertNew {order : IncomingOrder} {next : Bool → Prog} {tx : OrdersTx} {b : Bool}
      (hp : s.prog = .insertNew order next)
      (h : insertNew tables.orders (others.map Session.orders) s.orders order = some (tx, b)) :
      LocalStep tables others s .exec ({ s with orders := tx }.resume (next b))
  | get {source : Source} {externalId : String} {next : Option Order → Prog}
      (hp : s.prog = .get source externalId next) :
      LocalStep tables others s .exec
        (s.resume (next (get tables.orders s.orders source externalId)))
  | setStatus {source : Source} {externalId : String} {status : OrderStatus} {score : Option ℤ}
      {next : Bool → Prog} {tx : OrdersTx} {b : Bool}
      (hp : s.prog = .setStatus source externalId status score next)
      (h : setStatus tables.orders (others.map Session.orders) s.orders source externalId status
        score = some (tx, b)) :
      LocalStep tables others s .exec ({ s with orders := tx }.resume (next b))
  | add {destination : OutboxDestination} {dedupKey : String} {payload : Json} {next : Prog}
      {tx : OutboxTx} {b : Bool} (hp : s.prog = .add destination dedupKey payload next)
      (h : add tables.outbox (others.map Session.outbox) s.outbox s.now destination dedupKey
        payload = some (tx, b)) :
      LocalStep tables others s .exec ({ s with outbox := tx }.resume next)
  | markPublished {ids : List String} {next : Prog} {tx : OutboxTx}
      (hp : s.prog = .markPublished ids next)
      (h : markPublished tables.outbox (others.map Session.outbox) s.outbox s.now ids = some tx) :
      LocalStep tables others s .exec ({ s with outbox := tx }.resume next)
  | claim {limit : ℕ} {next : List PendingEvent → Prog} {rows : List OutboxRow}
      (hp : s.prog = .claimPending limit next)
      (h : ClaimResult tables.outbox (others.map Session.outbox) s.outbox limit rows) :
      LocalStep tables others s (.claim rows) ({ s with
        outbox := lock OutboxRow.dedupKey s.outbox rows
        claimed := s.claimed ++ rows.map OutboxRow.toEvent }.resume
          (next (rows.map OutboxRow.toEvent)))
  | publish {event : PendingEvent} {next : Prog} {d : OutboxDestination}
      (hp : s.prog = .publish event next)
      (h : FastStreamEventPublisher.route event.destination = .ok d) :
      LocalStep tables others s (.publish true)
        ({ s with handed := s.handed ++ [(event, true)] }.resume next)
  | unconfirmed {event : PendingEvent} {next : Prog} {d : OutboxDestination}
      (hp : s.prog = .publish event next)
      (h : FastStreamEventPublisher.route event.destination = .ok d) :
      LocalStep tables others s (.publish false)
        ({ s with handed := s.handed ++ [(event, false)] }.abort (.other "publish"))
  | unroutable {event : PendingEvent} {next : Prog} {error : Failure} {confirmed : Bool}
      (hp : s.prog = .publish event next)
      (h : FastStreamEventPublisher.route event.destination = .error error) :
      LocalStep tables others s (.publish confirmed) (s.abort error)
  | fail (message : String) (hp : s.prog.ended = false) :
      LocalStep tables others s (.fail message) (s.abort (.other message))

theorem Session.perform_cases {tables : Tables} {others : List Session} {s s' : Session}
    {move : Move} (h : s.perform tables others move = some s') :
    LocalStep tables others s move s' := by
  cases move with
  | exec =>
    simp only [perform, exec] at h
    split at h
    · obtain ⟨⟨tx, b⟩, hr, rfl⟩ := Option.map_eq_some_iff.mp h
      exact .insertNew ‹_› hr
    · obtain rfl := Option.some.inj h
      exact .get ‹_›
    · obtain ⟨⟨tx, b⟩, hr, rfl⟩ := Option.map_eq_some_iff.mp h
      exact .setStatus ‹_› hr
    · obtain ⟨⟨tx, b⟩, hr, rfl⟩ := Option.map_eq_some_iff.mp h
      exact .add ‹_› hr
    · obtain ⟨tx, hr, rfl⟩ := Option.map_eq_some_iff.mp h
      exact .markPublished ‹_› hr
    · cases h
  | claim rows =>
    simp only [perform, claim] at h
    split at h
    · split at h
      · obtain rfl := Option.some.inj h
        exact .claim ‹_› ‹_›
      · cases h
    · cases h
  | publish confirmed =>
    simp only [perform, publish] at h
    split at h
    · split at h
      · obtain rfl := Option.some.inj h
        exact .unroutable ‹_› ‹_›
      · obtain rfl := Option.some.inj h
        cases confirmed with
        | true => exact .publish ‹_› ‹_›
        | false => exact .unconfirmed ‹_› ‹_›
    · cases h
  | fail message =>
    simp only [perform] at h
    split at h
    · cases h
    · rename_i he
      obtain rfl := Option.some.inj h
      exact .fail message (by simpa using he)

/-- The session that has committed, and how its program goes on. -/
def Session.afterCommit (s : Session) (prog : Prog) : Session :=
  { s with orders := {}, outbox := {} }.resume prog

/-- A step starts a session, lets one session perform a local step, or commits one. -/
inductive Core.Step (threshold : ℤ) (core : Core) : Action → Core → Prop
  | start (call : Call) (now : ℕ) : Step threshold core (.start call now)
      { core with sessions := core.sessions ++ [Session.opened threshold call now] }
  | perform {i : ℕ} {move : Move} {s s' : Session} (hi : core.sessions[i]? = some s)
      (h : LocalStep core.tables (core.sessions.eraseIdx i) s move s') :
      Step threshold core (.perform i move) { core with sessions := core.sessions.set i s' }
  | commit {i : ℕ} {s : Session} {next prog : Prog} {acknowledged : Bool}
      (hi : core.sessions[i]? = some s) (hp : s.prog = .commit next)
      (hn : prog = if acknowledged then next else .raise (.other "commit")) :
      Step threshold core (.commit i acknowledged)
        { tables := s.committed core.tables
          sessions := core.sessions.set i (s.afterCommit prog)
          ingested := core.ingested ++ s.call.batch }

theorem Core.step_cases {threshold : ℤ} {core core' : Core} {a : Action}
    (h : core.step threshold a = some core') : core.Step threshold a core' := by
  cases a with
  | start call now =>
    obtain rfl := Option.some.inj h
    exact .start call now
  | perform i move =>
    obtain ⟨s, hi, h⟩ := Option.bind_eq_some_iff.mp h
    obtain ⟨s', hs, rfl⟩ := Option.map_eq_some_iff.mp h
    exact .perform hi (Session.perform_cases hs)
  | commit i acknowledged =>
    obtain ⟨s, hi, h⟩ := Option.bind_eq_some_iff.mp h
    split at h
    · obtain rfl := Option.some.inj h
      exact .commit hi ‹_› rfl
    · cases h

namespace Session

variable {s : Session} {prog : Prog}

@[simp] theorem resume_call : (s.resume prog).call = s.call := by unfold resume; split <;> rfl

@[simp] theorem resume_now : (s.resume prog).now = s.now := by unfold resume; split <;> rfl

@[simp] theorem resume_prog : (s.resume prog).prog = prog := by unfold resume; split <;> rfl

@[simp] theorem resume_claimed : (s.resume prog).claimed = s.claimed := by
  unfold resume; split <;> rfl

@[simp] theorem resume_handed : (s.resume prog).handed = s.handed := by
  unfold resume; split <;> rfl

@[simp] theorem abort_call {e : Failure} : (s.abort e).call = s.call := resume_call

@[simp] theorem abort_prog {e : Failure} : (s.abort e).prog = .raise e := resume_prog

@[simp] theorem abort_claimed {e : Failure} : (s.abort e).claimed = s.claimed := resume_claimed

@[simp] theorem abort_handed {e : Failure} : (s.abort e).handed = s.handed := resume_handed

@[simp] theorem abort_orders {e : Failure} : (s.abort e).orders = {} := rfl

@[simp] theorem abort_outbox {e : Failure} : (s.abort e).outbox = {} := rfl

theorem resume_of_ended (h : prog.ended = true) :
    s.resume prog = { s with prog := prog, orders := {}, outbox := {} } := if_pos h

theorem resume_of_not_ended (h : prog.ended = false) :
    s.resume prog = { s with prog := prog } := if_neg (by simp [h])

theorem resume_orders (s : Session) (prog : Prog) :
    (s.resume prog).orders = s.orders ∨ (s.resume prog).orders = {} := by
  unfold resume; split <;> simp

theorem resume_outbox (s : Session) (prog : Prog) :
    (s.resume prog).outbox = s.outbox ∨ (s.resume prog).outbox = {} := by
  unfold resume; split <;> simp

@[simp] theorem afterCommit_orders : (s.afterCommit prog).orders = {} := by
  unfold afterCommit resume; split <;> rfl

@[simp] theorem afterCommit_outbox : (s.afterCommit prog).outbox = {} := by
  unfold afterCommit resume; split <;> rfl

end Session

variable {threshold : ℤ} {tables : Tables} {others : List Session} {s s' t : Session}
  {core core' : Core} {a : Action} {move : Move}

theorem LocalStep.call_eq (h : LocalStep tables others s move s') : s'.call = s.call := by
  cases h <;> simp [Session.abort]

/-- What the statement a session is at may lead to when it does not fail. -/
def Session.After (tables : Tables) (others : List Session) (s : Session) (move : Move)
    (s' : Session) : Prop :=
  match s.prog with
  | .insertNew order next => ∃ tx b,
      insertNew tables.orders (others.map Session.orders) s.orders order = some (tx, b) ∧
      s' = { s with orders := tx }.resume (next b)
  | .get source externalId next =>
      s' = s.resume (next (OrderCore.get tables.orders s.orders source externalId))
  | .setStatus source externalId status score next => ∃ tx b, move = .exec ∧
      setStatus tables.orders (others.map Session.orders) s.orders source externalId status
        score = some (tx, b) ∧
      s' = { s with orders := tx }.resume (next b)
  | .add destination dedupKey payload next => ∃ tx b,
      add tables.outbox (others.map Session.outbox) s.outbox s.now destination dedupKey
        payload = some (tx, b) ∧
      s' = { s with outbox := tx }.resume next
  | .markPublished ids next => ∃ tx,
      markPublished tables.outbox (others.map Session.outbox) s.outbox s.now ids = some tx ∧
      s' = { s with outbox := tx }.resume next
  | .claimPending limit next => ∃ rows,
      ClaimResult tables.outbox (others.map Session.outbox) s.outbox limit rows ∧
      s' = { s with
        outbox := lock OutboxRow.dedupKey s.outbox rows
        claimed := s.claimed ++ rows.map OutboxRow.toEvent }.resume
          (next (rows.map OutboxRow.toEvent))
  | .publish event next =>
      s' = { s with handed := s.handed ++ [(event, true)] }.resume next ∨
      s' = { s with handed := s.handed ++ [(event, false)] }.abort (.other "publish")
  | .ret | .raise _ | .commit _ => False

/-- A local step fails, or does what the statement at hand does. -/
theorem LocalStep.inv (h : LocalStep tables others s move s') :
    (s.prog.ended = false ∧ ∃ m, s' = s.abort (.other m)) ∨ s.After tables others move s' := by
  cases h with
  | insertNew hp h => right; simp only [Session.After, hp]; exact ⟨_, _, h, rfl⟩
  | get hp => right; simp only [Session.After, hp]
  | setStatus hp h => right; simp only [Session.After, hp]; exact ⟨_, _, trivial, h, rfl⟩
  | add hp h => right; simp only [Session.After, hp]; exact ⟨_, _, h, rfl⟩
  | markPublished hp h => right; simp only [Session.After, hp]; exact ⟨_, h, rfl⟩
  | claim hp h => right; simp only [Session.After, hp]; exact ⟨_, h, rfl⟩
  | publish hp _ => right; simp only [Session.After, hp]; exact Or.inl trivial
  | unconfirmed hp _ => right; simp only [Session.After, hp]; exact Or.inr trivial
  | unroutable hp h =>
    left
    obtain ⟨m, rfl⟩ := FastStreamEventPublisher.route_error h
    exact ⟨by rw [hp]; rfl, m, rfl⟩
  | fail m hp => exact Or.inl ⟨hp, m, rfl⟩

theorem LocalStep.not_ended (h : LocalStep tables others s move s') : s.prog.ended = false := by
  cases h with
  | fail m hp => exact hp
  | insertNew hp => rw [hp]; rfl
  | get hp => rw [hp]; rfl
  | setStatus hp => rw [hp]; rfl
  | add hp => rw [hp]; rfl
  | markPublished hp => rw [hp]; rfl
  | claim hp => rw [hp]; rfl
  | publish hp => rw [hp]; rfl
  | unconfirmed hp => rw [hp]; rfl
  | unroutable hp => rw [hp]; rfl

theorem LocalStep.orders_wellFormed (h : LocalStep tables others s move s')
    (hs : s.orders.WellFormed OrderRow.key tables.orders) :
    s'.orders.WellFormed OrderRow.key tables.orders := by
  have hr : ∀ {u : Session} (p : Prog), u.orders.WellFormed OrderRow.key tables.orders →
      (u.resume p).orders.WellFormed OrderRow.key tables.orders := by
    intro u p hu
    rcases u.resume_orders p with h | h <;> rw [h]
    exacts [hu, .empty]
  cases h with
  | insertNew _ h => exact hr _ (insertOrIgnore_wellFormed hs h)
  | setStatus _ h => exact hr _ (update_wellFormed hs h)
  | _ => exact hr _ hs

theorem LocalStep.outbox_wellFormed (h : LocalStep tables others s move s')
    (hs : s.outbox.WellFormed OutboxRow.dedupKey tables.outbox) :
    s'.outbox.WellFormed OutboxRow.dedupKey tables.outbox := by
  have hr : ∀ {u : Session} (p : Prog), u.outbox.WellFormed OutboxRow.dedupKey tables.outbox →
      (u.resume p).outbox.WellFormed OutboxRow.dedupKey tables.outbox := by
    intro u p hu
    rcases u.resume_outbox p with h | h <;> rw [h]
    exacts [hu, .empty]
  cases h with
  | add _ h => exact hr _ (insertOrIgnore_wellFormed hs h)
  | markPublished _ h => exact hr _ (updateAll_wellFormed hs h)
  | claim _ h =>
    exact hr _ (lock_wellFormed hs fun r hr => (mem_unlocked.mp (h.subset r hr)).1)
  | _ => exact hr _ hs

theorem LocalStep.orders_acquires (h : LocalStep tables others s move s')
    (ho : ∀ t ∈ others, t.orders.WellFormed OrderRow.key tables.orders) :
    Acquires OrderRow.key (others.map Session.orders) s.orders s'.orders := by
  have hr : ∀ {u : Session} (p : Prog),
      Acquires OrderRow.key (others.map Session.orders) s.orders u.orders →
      Acquires OrderRow.key (others.map Session.orders) s.orders (u.resume p).orders := by
    intro u p hu
    rcases u.resume_orders p with h | h <;> rw [h]
    exacts [hu, .release]
  cases h with
  | insertNew _ h => exact hr _ (insertOrIgnore_acquires (by simpa using ho) h)
  | setStatus _ h => exact hr _ (update_acquires (by intro r; rfl) h)
  | _ => exact hr _ .refl

theorem LocalStep.outbox_acquires (h : LocalStep tables others s move s')
    (ho : ∀ t ∈ others, t.outbox.WellFormed OutboxRow.dedupKey tables.outbox) :
    Acquires OutboxRow.dedupKey (others.map Session.outbox) s.outbox s'.outbox := by
  have hr : ∀ {u : Session} (p : Prog),
      Acquires OutboxRow.dedupKey (others.map Session.outbox) s.outbox u.outbox →
      Acquires OutboxRow.dedupKey (others.map Session.outbox) s.outbox (u.resume p).outbox := by
    intro u p hu
    rcases u.resume_outbox p with h | h <;> rw [h]
    exacts [hu, .release]
  cases h with
  | add _ h => exact hr _ (insertOrIgnore_acquires (by simpa using ho) h)
  | markPublished _ h => exact hr _ (updateAll_acquires (by intro r; rfl) h)
  | claim _ h =>
    exact hr _ (lock_acquires fun r hr => (mem_unlocked.mp (h.subset r hr)).2.2)
  | _ => exact hr _ .refl

/-- What the database guarantees whatever the programs of the sessions are. -/
structure Core.Isolated (core : Core) : Prop where
  orders_nodup : (core.tables.orders.map OrderRow.key).Nodup
  outbox_nodup : (core.tables.outbox.map OutboxRow.dedupKey).Nodup
  orders_wellFormed : ∀ s ∈ core.sessions, s.orders.WellFormed OrderRow.key core.tables.orders
  outbox_wellFormed : ∀ s ∈ core.sessions,
    s.outbox.WellFormed OutboxRow.dedupKey core.tables.outbox
  orders_exclusive : Exclusive OrderRow.key (core.sessions.map Session.orders)
  outbox_exclusive : Exclusive OutboxRow.dedupKey (core.sessions.map Session.outbox)

theorem Core.Isolated.init (ho : (tables.orders.map OrderRow.key).Nodup)
    (hb : (tables.outbox.map OutboxRow.dedupKey).Nodup) :
    ({ tables := tables } : Core).Isolated :=
  ⟨ho, hb, by simp, by simp, .nil, .nil⟩

theorem mem_set_cases {l : List Session} {i : ℕ} (h : t ∈ l.set i s) :
    t = s ∨ ∃ j, j ≠ i ∧ l[j]? = some t := by
  obtain ⟨j, hj⟩ := List.getElem?_of_mem h
  rw [List.getElem?_set] at hj
  by_cases hij : i = j
  · rw [if_pos hij] at hj
    split at hj
    · exact Or.inl (Option.some.inj hj).symm
    · cases hj
  · rw [if_neg hij] at hj
    exact Or.inr ⟨j, Ne.symm hij, hj⟩

theorem getElem?_orders {i : ℕ} (hi : core.sessions[i]? = some s) :
    (core.sessions.map Session.orders)[i]? = some s.orders := by simp [hi]

theorem getElem?_outbox {i : ℕ} (hi : core.sessions[i]? = some s) :
    (core.sessions.map Session.outbox)[i]? = some s.outbox := by simp [hi]

@[simp] theorem Session.afterCommit_prog {prog : Prog} : (s.afterCommit prog).prog = prog :=
  Session.resume_prog

@[simp] theorem Session.afterCommit_claimed {prog : Prog} :
    (s.afterCommit prog).claimed = s.claimed := Session.resume_claimed

@[simp] theorem Session.afterCommit_handed {prog : Prog} :
    (s.afterCommit prog).handed = s.handed := Session.resume_handed

@[simp] theorem Session.afterCommit_call {prog : Prog} : (s.afterCommit prog).call = s.call :=
  Session.resume_call

theorem Core.Step.exists_call (h : core.Step threshold a core') (hs : s ∈ core.sessions) :
    ∃ s' ∈ core'.sessions, s'.call = s.call := by
  have hset : ∀ {i : ℕ} {u u' : Session}, core.sessions[i]? = some u → u'.call = u.call →
      ∃ s' ∈ core.sessions.set i u', s'.call = s.call := by
    intro i u u' hi hu
    obtain ⟨j, hj⟩ := List.getElem?_of_mem hs
    have hlt := (List.getElem?_eq_some_iff.mp hi).1
    by_cases hij : i = j
    · subst hij
      obtain rfl := Option.some.inj (hi.symm.trans hj)
      exact ⟨u', List.mem_of_getElem? (List.getElem?_set_self hlt), hu⟩
    · exact ⟨s, List.mem_of_getElem? ((List.getElem?_set_ne hij).trans hj), rfl⟩
  cases h with
  | start call now => exact ⟨s, List.mem_append_left _ hs, rfl⟩
  | perform hi h => exact hset hi h.call_eq
  | commit hi _ _ => exact hset hi Session.afterCommit_call

structure Session.Apart (s t : Session) : Prop where
  orders : ∀ k ∈ t.orders.owned OrderRow.key, k ∉ s.orders.written OrderRow.key
  outbox : ∀ k ∈ t.outbox.owned OutboxRow.dedupKey, k ∉ s.outbox.written OutboxRow.dedupKey

theorem Core.Isolated.apart (hc : core.Isolated) {i j : ℕ} (hij : i ≠ j)
    (hs : core.sessions[i]? = some s) (ht : core.sessions[j]? = some t) : s.Apart t where
  orders := fun k hk hk' => hc.orders_exclusive (Ne.symm hij)
    (getElem?_orders ht) (getElem?_orders hs) k hk (mem_owned.mpr (Or.inl hk'))
  outbox := fun k hk hk' => hc.outbox_exclusive (Ne.symm hij)
    (getElem?_outbox ht) (getElem?_outbox hs) k hk (mem_owned.mpr (Or.inl hk'))

theorem Core.Isolated.step (hc : core.Isolated) (h : core.Step threshold a core') :
    core'.Isolated := by
  cases h with
  | start call now =>
    have hm : ∀ t ∈ core.sessions ++ [Session.opened threshold call now],
        t ∈ core.sessions ∨ (t.orders = {} ∧ t.outbox = {}) := by
      intro t ht
      rcases List.mem_append.mp ht with ht | ht
      · exact Or.inl ht
      · rw [List.mem_singleton.mp ht]; exact Or.inr ⟨rfl, rfl⟩
    refine ⟨hc.orders_nodup, hc.outbox_nodup, fun t ht => ?_, fun t ht => ?_, ?_, ?_⟩
    · rcases hm t ht with ht | ⟨ht, -⟩
      exacts [hc.orders_wellFormed t ht, ht ▸ .empty]
    · rcases hm t ht with ht | ⟨-, ht⟩
      exacts [hc.outbox_wellFormed t ht, ht ▸ .empty]
    · rw [List.map_append]; exact hc.orders_exclusive.start
    · rw [List.map_append]; exact hc.outbox_exclusive.start
  | @perform i move s s' hi h =>
    have hs := List.mem_of_getElem? hi
    have ho : ∀ t ∈ core.sessions.eraseIdx i, t ∈ core.sessions :=
      fun t ht => List.mem_of_mem_eraseIdx ht
    refine ⟨hc.orders_nodup, hc.outbox_nodup, fun t ht => ?_, fun t ht => ?_, ?_, ?_⟩
    · rcases mem_set_cases ht with rfl | ⟨j, -, hj⟩
      · exact h.orders_wellFormed (hc.orders_wellFormed s hs)
      · exact hc.orders_wellFormed t (List.mem_of_getElem? hj)
    · rcases mem_set_cases ht with rfl | ⟨j, -, hj⟩
      · exact h.outbox_wellFormed (hc.outbox_wellFormed s hs)
      · exact hc.outbox_wellFormed t (List.mem_of_getElem? hj)
    · rw [List.map_set]
      refine hc.orders_exclusive.set (getElem?_orders hi) ?_
      rw [List.eraseIdx_map]
      exact h.orders_acquires fun t ht => hc.orders_wellFormed t (ho t ht)
    · rw [List.map_set]
      refine hc.outbox_exclusive.set (getElem?_outbox hi) ?_
      rw [List.eraseIdx_map]
      exact h.outbox_acquires fun t ht => hc.outbox_wellFormed t (ho t ht)
  | @commit i s next prog acknowledged hi hp hn =>
    refine ⟨nodup_commit hc.orders_nodup, nodup_commit hc.outbox_nodup,
      fun t ht => ?_, fun t ht => ?_, ?_, ?_⟩
    · rcases mem_set_cases ht with rfl | ⟨j, -, hj⟩
      · rw [Session.afterCommit_orders]; exact .empty
      · exact (hc.orders_wellFormed t (List.mem_of_getElem? hj)).mono
          fun k hk => mem_keys_commit.mpr (Or.inl hk)
    · rcases mem_set_cases ht with rfl | ⟨j, -, hj⟩
      · rw [Session.afterCommit_outbox]; exact .empty
      · exact (hc.outbox_wellFormed t (List.mem_of_getElem? hj)).mono
          fun k hk => mem_keys_commit.mpr (Or.inl hk)
    · rw [List.map_set, Session.afterCommit_orders]
      exact hc.orders_exclusive.set (getElem?_orders hi) .release
    · rw [List.map_set, Session.afterCommit_outbox]
      exact hc.outbox_exclusive.set (getElem?_outbox hi) .release

/--
A property of sessions survives a step if it holds of new sessions, survives the local
steps and the commit of its own session, and the commits of other sessions.
-/
theorem Core.Isolated.sessions_step {P : Tables → Session → Prop} (hc : core.Isolated)
    (h : core.Step threshold a core') (hP : ∀ s ∈ core.sessions, P core.tables s)
    (hstart : ∀ call now, a = .start call now →
      P core.tables (Session.opened threshold call now))
    (hlocal : ∀ i move s s', a = .perform i move → core.sessions[i]? = some s →
      LocalStep core.tables (core.sessions.eraseIdx i) s move s' → P core.tables s →
      P core.tables s')
    (hcommit : ∀ s next prog, s ∈ core.sessions → s.prog = .commit next →
      (prog = next ∨ ∃ m, prog = .raise (.other m)) → P core.tables s →
      P (s.committed core.tables) (s.afterCommit prog))
    (hstable : ∀ s t next, s ∈ core.sessions → t ∈ core.sessions → s.Apart t →
      s.prog = .commit next → P core.tables s → P core.tables t → P (s.committed core.tables) t) :
    ∀ s ∈ core'.sessions, P core'.tables s := by
  cases h with
  | start call now =>
    intro t ht
    rcases List.mem_append.mp ht with ht | ht
    · exact hP t ht
    · rw [List.mem_singleton.mp ht]; exact hstart call now rfl
  | perform hi h =>
    intro t ht
    rcases mem_set_cases ht with rfl | ⟨j, -, hj⟩
    · exact hlocal _ _ _ _ rfl hi h (hP _ (List.mem_of_getElem? hi))
    · exact hP t (List.mem_of_getElem? hj)
  | @commit i s next prog acknowledged hi hp hn =>
    have hs := List.mem_of_getElem? hi
    have hn' : prog = next ∨ ∃ m, prog = .raise (.other m) := by
      cases acknowledged <;> simp [hn]
    intro t ht
    rcases mem_set_cases ht with rfl | ⟨j, hj, ht⟩
    · exact hcommit s next prog hs hp hn' (hP s hs)
    · have ht' := List.mem_of_getElem? ht
      exact hstable s t next hs ht' (hc.apart (Ne.symm hj) hi ht) hp (hP s hs) (hP t ht')

end ProfiNotifications.OrderCore
