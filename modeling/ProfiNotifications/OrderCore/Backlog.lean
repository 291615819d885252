import Mathlib.Algebra.Order.BigOperators.Group.List
import Mathlib.Algebra.Order.Group.Nat
import ProfiNotifications.Foundations.Batch
import ProfiNotifications.OrderCore.Relay

/-! # A backlog with events that cannot be published

One relay repeats `run_once` over a fixed backlog and goes on after every exception. The
publish of some events always raises, that of all others succeeds. A run publishes and
marks a batch as a whole, so one event that raises holds up its whole batch: the others
are all published, each handed over once, only if they come in front and fill whole
batches.
-/

namespace ProfiNotifications.OrderCore

open Keyed ReadCommitted Transition

def Tables.pending (tables : Tables) : Finset OutboxRow :=
  (tables.outbox.filter fun r => r.status = .pending).toFinset

/-- The pending rows whose events a session has claimed. -/
def Session.batch (tables : Tables) (s : Session) : Finset OutboxRow :=
  tables.pending.filter fun r => r.dedupKey ∈ s.claimedIds

namespace OutboxRelay

/-- A move of a call that nothing interrupts, where the publish of `failing` ids raises. -/
def admitted (failing : String → Bool) (s : Session) : Move → Bool
  | .publish confirmed =>
    match s.prog with
    | .publish event _ => confirmed == !failing event.id
    | _ => false
  | .fail _ => false
  | _ => true

/-- What happens while `_run_forever` of one relay is all that runs. -/
def relaying (batchSize : ℕ) (failing : String → Bool) (core : Core) : Action → Bool
  | .start (.relay n) _ => n == batchSize && core.sessions.all fun s => s.prog.ended
  | .start _ _ => false
  | .perform i move =>
    match core.sessions[i]? with
    | some s => admitted failing s move
    | none => false
  | .commit _ acknowledged => acknowledged

/--
After some number of steps every pending event outside `failing` is published, and it
has been handed to the publisher once, then and ever after.
-/
def Undisturbed (threshold : ℤ) (batchSize : ℕ) (failing : String → Bool) (tables : Tables) :
    Prop :=
  ∃ n, ∀ (actions : List Action) (core : Core),
    run (guarded (Core.step threshold) (relaying batchSize failing)) { tables := tables }
      actions = some core →
    n ≤ actions.length →
    ∀ r ∈ tables.pending, failing r.dedupKey = false →
      (∃ r' ∈ core.tables.outbox, r'.toEvent = r.toEvent ∧ r'.status = .published) ∧
      core.handedCount r.dedupKey = 1

/-- The sound events come before all that fail and fill whole batches, or none fails. -/
abbrev InFront (batchSize : ℕ) (failing : String → Bool) (tables : Tables) : Prop :=
  Batch.Drains OutboxRow.createdAt (fun r => failing r.dedupKey = true) batchSize tables.pending

variable {threshold : ℤ} {b k : ℕ} {failing : String → Bool} {tables : Tables}
  {done : List Session} {s s' : Session} {core core' : Core} {a : Action} {move : Move}

/-! ## The pending rows -/

@[simp] theorem mem_pending {r : OutboxRow} :
    r ∈ tables.pending ↔ r ∈ tables.outbox ∧ r.status = .pending := by
  simp [Tables.pending]

theorem batch_subset : s.batch tables ⊆ tables.pending := Finset.filter_subset _ _

theorem batch_eq (hu : (tables.outbox.map OutboxRow.dedupKey).Nodup) {rs : List OutboxRow}
    (hr : ∀ r ∈ rs, r ∈ tables.pending) (hc : s.claimed = rs.map OutboxRow.toEvent) :
    s.batch tables = rs.toFinset := by
  ext r
  simp only [Session.batch, Finset.mem_filter, RelayOutbox.claimedIds_of_claimed hc, List.mem_map,
    List.mem_toFinset]
  constructor
  · rintro ⟨hp, r', hr', hk⟩
    obtain rfl := eq_of_key_eq hu (mem_pending.mp hp).1 (mem_pending.mp (hr r' hr')).1 hk.symm
    exact hr'
  · exact fun h => ⟨hr r h, r, h, rfl⟩

theorem mem_pending_of_holds {rs : List OutboxRow} (h : RelayOutbox.Holds tables s rs)
    {r : OutboxRow} (hr : r ∈ rs) : r ∈ tables.pending :=
  mem_pending.mpr ⟨(mem_of_lookup (h.committed r hr)).1, h.pending r hr⟩

theorem pending_committed (hu : (tables.outbox.map OutboxRow.dedupKey).Nodup)
    {rs : List OutboxRow} (held : RelayOutbox.Holds tables s rs)
    (hw : s.outbox.writes = rs.map (publishRow s.now)) :
    (s.committed tables).pending = tables.pending \ s.batch tables := by
  have hkeys : s.outbox.writes.map OutboxRow.dedupKey = rs.map OutboxRow.dedupKey := by
    rw [hw, List.map_map]
    rfl
  have hn : (s.outbox.writes.map OutboxRow.dedupKey).Nodup := hkeys ▸ held.nodup
  ext r
  rw [batch_eq hu (fun r => mem_pending_of_holds held) held.claimed, mem_pending,
    Finset.mem_sdiff, mem_pending, List.mem_toFinset]
  constructor
  · rintro ⟨hr, hp⟩
    rcases (mem_overlay hu hn).mp hr with hr | ⟨hr, hk⟩
    · rw [hw] at hr
      obtain ⟨r', -, rfl⟩ := List.mem_map.mp hr
      cases hp
    · exact ⟨⟨hr, hp⟩, fun hmem => hk (hkeys ▸ List.mem_map_of_mem hmem)⟩
  · rintro ⟨⟨hr, hp⟩, hmem⟩
    refine ⟨(mem_overlay hu hn).mpr (Or.inr ⟨hr, fun hk => hmem ?_⟩), hp⟩
    rw [hkeys] at hk
    obtain ⟨r', hr', hk⟩ := List.mem_map.mp hk
    exact eq_of_key_eq hu (mem_of_lookup (held.committed r' hr')).1 hr hk ▸ hr'

theorem claimable_alone (hd : ∀ t ∈ done, t.outbox = {}) :
    claimable tables.outbox (done.map Session.outbox) {} =
      tables.outbox.filter fun r => r.status = .pending := by
  have ho : ∀ k, ¬ OwnedElsewhere OutboxRow.dedupKey (done.map Session.outbox) k := by
    rintro k ⟨q, hq, hk⟩
    obtain ⟨t, ht, rfl⟩ := List.mem_map.mp hq
    rw [hd t ht] at hk
    cases hk
  simp [claimable, unlocked, ho, view]

/-! ## One call -/

def left : Prog → ℕ
  | .claimPending n _ => n + 3
  | .publish _ next => left next + 1
  | .markPublished _ _ => 2
  | .commit _ => 1
  | _ => 0

theorem left_publishAll (events : List PendingEvent) (next : Prog) :
    left (RelayOutbox.publishAll events next) = events.length + left next := by
  induction events with
  | nil => simp [RelayOutbox.publishAll]
  | cons e events ih =>
    simp only [RelayOutbox.publishAll, left, ih, List.length_cons]
    omega

/-- A call of the lone relay, with the oldest pending rows as its batch. -/
structure Relays (b : ℕ) (failing : String → Bool) (tables : Tables) (s : Session) : Prop where
  point : RelayOutbox.At tables s
  asked : s.claimed = [] → s.prog = RelayOutbox.runOnce b ∨ s.prog.ended = true
  oldest : s.prog.ended = false → s.claimed ≠ [] →
    Batch.Oldest OutboxRow.createdAt b tables.pending (s.batch tables)
  answered : ∀ h ∈ s.handed, h.2 = !failing h.1.id

/-- What a move of a call does to the call. -/
inductive Effect (b : ℕ) (failing : String → Bool) (tables : Tables) (s : Session) (move : Move)
    (s' : Session) : Prop
  | claim {rs : List OutboxRow} (hm : move = .claim rs) (hc : s.claimed = [])
      (ho : Batch.Oldest OutboxRow.createdAt b tables.pending rs.toFinset)
      (hb : s'.batch tables = rs.toFinset) (hl : left s'.prog + 1 ≤ left s.prog)
      (hr : s'.prog.raised = false) (he : s'.claimed = [] ↔ s'.prog.ended = true)
  | advance (hc : s'.claimed = s.claimed) (hn : s.claimed ≠ [])
      (hl : left s'.prog + 1 ≤ left s.prog) (he : s'.prog.ended = false)
  | refuse {e : PendingEvent} (hc : s'.claimed = s.claimed) (hr : s'.prog.raised = true)
      (he : e ∈ s.claimed) (hf : failing e.id = true)

theorem Relays.opened {now : ℕ} :
    Relays b failing tables (Session.opened threshold (.relay b) now) := by
  constructor
  · exact .idle b rfl rfl rfl rfl
  · exact fun _ => Or.inl rfl
  · exact fun _ h => absurd rfl h
  · rintro h ⟨⟩

theorem batch_congr (h : s'.claimed = s.claimed) : s'.batch tables = s.batch tables := by
  have hids : s'.claimedIds = s.claimedIds := congrArg (List.map PendingEvent.id) h
  ext r
  rw [Session.batch, Session.batch, Finset.mem_filter, Finset.mem_filter, hids]

theorem outbox_of_ended (h : RelayOutbox.At tables s) (he : s.prog.ended = true) :
    s.outbox = {} := by
  cases h with
  | idle _ hp => rw [hp] at he; cases he
  | publishing _ _ _ _ hp => rw [hp, RelayOutbox.publishAll_not_ended] at he; cases he
  | marked _ _ hp => rw [hp] at he; cases he
  | returned _ _ hb => exact hb
  | raised _ _ hb => exact hb

theorem Relays.limit_eq (hr : Relays b failing tables s) {n : ℕ}
    (hp : s.prog = RelayOutbox.runOnce n) (hc : s.claimed = []) : n = b := by
  rcases hr.asked hc with h | h
  · exact (Prog.claimPending.inj (hp.symm.trans h)).1
  · rw [hp] at h
    cases h

theorem Relays.claimed_ne_nil (hr : Relays b failing tables s) {todo : List PendingEvent}
    {ids : List String}
    (hp : s.prog = RelayOutbox.publishAll todo (.markPublished ids (.commit .ret))) :
    s.claimed ≠ [] := by
  intro hc
  rcases hr.asked hc with h | h
  · rw [hp] at h
    cases todo <;> cases h
  · rw [hp, RelayOutbox.publishAll_not_ended] at h
    cases h

theorem Relays.effect_claim (hr : Relays b failing tables s)
    (hu : (tables.outbox.map OutboxRow.dedupKey).Nodup) (hd : ∀ t ∈ done, t.outbox = {}) {n : ℕ}
    (hp : s.prog = RelayOutbox.runOnce n) (hb : s.outbox = {}) (hc : s.claimed = [])
    (h : LocalStep tables done s move s') (ha : admitted failing s move = true) :
    Effect b failing tables s move s' := by
  obtain rfl : n = b := hr.limit_eq hp hc
  cases h with
  | @claim limit next rs hp' h =>
    obtain ⟨rfl, rfl⟩ := Prog.claimPending.inj (hp.symm.trans hp')
    have hmem : ∀ r ∈ rs, r ∈ tables.pending := fun r hr =>
      have hm := RelayOutbox.mem_of_claimResult hb h hr
      mem_pending.mpr ⟨hm.1, hm.2.1⟩
    have hlen : rs.length ≤ n := by
      have := h.length
      omega
    have hold : Batch.Oldest OutboxRow.createdAt n tables.pending rs.toFinset := by
      have h := h
      rw [hb, ClaimResult, claimable_alone hd] at h
      exact .of_limited h (hu.of_map.filter _)
    have hbatch : ∀ p, Session.batch tables (Session.resume { s with
        outbox := lock OutboxRow.dedupKey s.outbox rs
        claimed := s.claimed ++ rs.map OutboxRow.toEvent } p) = rs.toFinset := by
      intro p
      exact batch_eq hu hmem (by rw [Session.resume_claimed, hc, List.nil_append])
    cases rs with
    | nil =>
      refine .claim rfl hc hold (hbatch _) ?_ rfl ?_
      · simp [left, hp, RelayOutbox.runOnce]
      · simp [hc, Prog.ended]
    | cons r rs =>
      refine .claim rfl hc hold (hbatch _) ?_ ?_ ?_
      · simp only [Session.resume_prog, List.map_cons, left_publishAll, left, hp,
          RelayOutbox.runOnce, List.length_cons, List.length_map] at hlen ⊢
        omega
      · simp [RelayOutbox.publishAll, Prog.raised]
      · simp [RelayOutbox.publishAll, Prog.ended]
  | fail => cases ha
  | _ => simp_all [RelayOutbox.runOnce]

theorem Relays.effect_publish (hr : Relays b failing tables s)
    (hroute : ∀ r ∈ tables.pending, failing r.dedupKey = false →
      ∃ d, FastStreamEventPublisher.route r.destination = .ok d)
    {rs : List OutboxRow} (held : RelayOutbox.Holds tables s rs) {e : PendingEvent}
    {todo : List PendingEvent} {ids : List String}
    (hp : s.prog = RelayOutbox.publishAll (e :: todo) (.markPublished ids (.commit .ret)))
    (hmem : e ∈ s.claimed)
    (h : LocalStep tables done s move s') (ha : admitted failing s move = true) :
    Effect b failing tables s move s' := by
  have hanswer : ∀ {c}, move = .publish c → c = !failing e.id := by
    rintro c rfl
    simpa [admitted, hp, RelayOutbox.publishAll] using ha
  cases h with
  | publish hp' h =>
    obtain ⟨-, rfl⟩ := Prog.publish.inj (hp.symm.trans hp')
    refine .advance (by simp) (hr.claimed_ne_nil hp) ?_ ?_
    · simp [left, hp, RelayOutbox.publishAll]
    · rw [Session.resume_prog]
      exact RelayOutbox.publishAll_not_ended _ _ _
  | unconfirmed hp' h =>
    refine .refuse (by simp) (by simp [Prog.raised]) hmem ?_
    simpa using (hanswer rfl).symm
  | unroutable hp' h =>
    refine .refuse (by simp) (by simp [Prog.raised]) hmem ?_
    obtain ⟨rfl, -⟩ := Prog.publish.inj (hp.symm.trans hp')
    rw [held.claimed] at hmem
    obtain ⟨r, hr, rfl⟩ := List.mem_map.mp hmem
    by_contra hf
    obtain ⟨d, hroute⟩ := hroute r (mem_pending_of_holds held hr) (Bool.eq_false_iff.mpr hf)
    exact absurd (h.symm.trans hroute) (by simp)
  | fail => cases ha
  | _ => simp_all [RelayOutbox.publishAll]

/-- The move of a call that is alone, and what it does. -/
theorem Relays.effect (hr : Relays b failing tables s)
    (hu : (tables.outbox.map OutboxRow.dedupKey).Nodup) (hd : ∀ t ∈ done, t.outbox = {})
    (hroute : ∀ r ∈ tables.pending, failing r.dedupKey = false →
      ∃ d, FastStreamEventPublisher.route r.destination = .ok d)
    (h : LocalStep tables done s move s') (ha : admitted failing s move = true) :
    Effect b failing tables s move s' := by
  cases hr.point with
  | idle n hp hb hc => exact hr.effect_claim hu hd hp hb hc h ha
  | publishing rs sent todo held hp hc =>
    cases todo with
    | nil =>
      cases h with
      | markPublished hp' h =>
        obtain ⟨-, rfl⟩ := Prog.markPublished.inj (hp.symm.trans hp')
        refine .advance (by simp) (hr.claimed_ne_nil hp) ?_ (by simp [Prog.ended])
        simp [left, hp, RelayOutbox.publishAll]
      | fail => cases ha
      | _ => simp_all [RelayOutbox.publishAll]
    | cons e todo =>
      have hmem : e ∈ s.claimed := hc ▸ List.mem_append_right _ List.mem_cons_self
      exact hr.effect_publish hroute held hp hmem h ha
  | marked rs held hp => cases h <;> simp_all [admitted]
  | returned rs hp => cases h <;> simp_all [Prog.ended]
  | raised e hp => cases h <;> simp_all [Prog.ended]

theorem answered_local (h : LocalStep tables done s move s')
    (ha : admitted failing s move = true) :
    ∀ x ∈ s'.handed, x ∈ s.handed ∨ x.2 = !failing x.1.id := by
  cases h with
  | publish hp _ =>
    intro x hx
    rw [Session.resume_handed, List.mem_append, List.mem_singleton] at hx
    rcases hx with hx | rfl
    · exact Or.inl hx
    · exact Or.inr (by simpa [admitted, hp] using ha)
  | unconfirmed hp _ =>
    intro x hx
    rw [Session.abort_handed, List.mem_append, List.mem_singleton] at hx
    rcases hx with hx | rfl
    · exact Or.inl hx
    · exact Or.inr (by simpa [admitted, hp] using ha)
  | _ => exact fun x hx => Or.inl (by simpa using hx)

theorem Relays.local (hr : Relays b failing tables s)
    (hu : (tables.outbox.map OutboxRow.dedupKey).Nodup)
    (h : LocalStep tables done s move s') (ha : admitted failing s move = true)
    (he : Effect b failing tables s move s') : Relays b failing tables s' := by
  have hanswered : ∀ x ∈ s'.handed, x.2 = !failing x.1.id :=
    fun x hx => (answered_local h ha x hx).elim (hr.answered x) id
  refine ⟨hr.point.local hu h, ?_, ?_, hanswered⟩
  · intro hc
    cases he with
    | claim _ _ _ _ _ _ he => exact Or.inr (he.mp hc)
    | advance hc' hn => exact absurd (hc'.symm.trans hc) hn
    | refuse hc' hr he => simp [hc'.symm.trans hc] at he
  · intro hopen hn
    cases he with
    | claim _ _ ho hb => exact hb ▸ ho
    | advance hc _ _ => exact batch_congr hc ▸ hr.oldest h.not_ended (hc ▸ hn)
    | refuse hc hr' he =>
      cases hp : s'.prog <;> simp [hp, Prog.raised, Prog.ended] at hr' hopen

theorem Relays.marked {next : Prog} (hr : Relays b failing tables s)
    (hu : (tables.outbox.map OutboxRow.dedupKey).Nodup) (hp : s.prog = .commit next) :
    next = .ret ∧ s.claimed ≠ [] ∧ (∀ e ∈ s.claimed, failing e.id = false) ∧
      (s.committed tables).pending = tables.pending \ s.batch tables := by
  have hn : s.claimed ≠ [] := by
    intro hc
    rcases hr.asked hc with h | h <;> rw [hp] at h <;> cases h
  cases hr.point with
  | idle _ hp' => exact absurd (hp.symm.trans hp') (by simp [RelayOutbox.runOnce])
  | publishing _ _ todo _ hp' =>
    exact absurd (hp.symm.trans hp') (by cases todo <;> simp [RelayOutbox.publishAll])
  | marked rs held hp' hh hw =>
    refine ⟨Prog.commit.inj (hp.symm.trans hp'), hn, fun e he => ?_, pending_committed hu held hw⟩
    have := hr.answered (e, true) (hh ▸ List.mem_map_of_mem he)
    simpa using this.symm
  | returned _ hp' => exact absurd (hp.symm.trans hp') (by simp)
  | raised _ hp' => exact absurd (hp.symm.trans hp') (by simp)

/-! ## One call after another -/

def Rests (s : Session) : Prop := s.prog.ended = true ∧ s.outbox = {}

/-- At most the last call is going on, and every sound event has a transport. -/
structure Going (b : ℕ) (failing : String → Bool) (core : Core) : Prop where
  inv : RelayOutbox.Invariant core
  turn : (∀ s ∈ core.sessions, Rests s) ∨ ∃ done s, core.sessions = done ++ [s] ∧
    (∀ t ∈ done, Rests t) ∧ s.prog.ended = false ∧ Relays b failing core.tables s
  routable : ∀ r ∈ core.tables.pending, failing r.dedupKey = false →
    ∃ d, FastStreamEventPublisher.route r.destination = .ok d

/-- A new call, a move of the last one, or its commit. -/
inductive Next (threshold : ℤ) (b : ℕ) (failing : String → Bool) (core : Core) (a : Action)
    (core' : Core) : Prop
  | start (now : ℕ) (hr : ∀ s ∈ core.sessions, Rests s)
      (hc : core' = { core with
        sessions := core.sessions ++ [Session.opened threshold (.relay b) now] })
  | move {done : List Session} {s s' : Session} {move : Move}
      (hs : core.sessions = done ++ [s]) (hd : ∀ t ∈ done, Rests t)
      (hr : Relays b failing core.tables s) (ha : a = .perform done.length move)
      (hl : LocalStep core.tables done s move s') (he : Effect b failing core.tables s move s')
      (hr' : Relays b failing core.tables s')
      (hc : core' = { core with sessions := done ++ [s'] })
  | commit {done : List Session} {s : Session} (hs : core.sessions = done ++ [s])
      (hd : ∀ t ∈ done, Rests t) (hr : Relays b failing core.tables s)
      (hp : s.prog = .commit .ret)
      (hc : core' = { tables := s.committed core.tables, sessions := done ++ [s.afterCommit .ret],
                      ingested := core.ingested ++ s.call.batch })

theorem Going.last (hg : Going b failing core) {i : ℕ} (hi : core.sessions[i]? = some s)
    (ho : s.prog.ended = false) : ∃ done, core.sessions = done ++ [s] ∧ i = done.length ∧
      (∀ t ∈ done, Rests t) ∧ Relays b failing core.tables s := by
  have hopen : ¬ Rests s := fun h => by simp [h.1] at ho
  rcases hg.turn with hr | ⟨done, t, ht, hd, -, hrel⟩
  · exact absurd (hr s (List.mem_of_getElem? hi)) hopen
  · rw [ht, List.getElem?_append] at hi
    split at hi
    · exact absurd (hd s (List.mem_of_getElem? hi)) hopen
    · obtain ⟨hlt, he⟩ := List.getElem?_eq_some_iff.mp hi
      have hlen : i = done.length := by
        simp only [List.length_singleton] at hlt
        omega
      subst hlen
      simp only [Nat.sub_self, List.getElem_cons_zero] at he
      exact ⟨done, he ▸ ht, rfl, hd, he ▸ hrel⟩

theorem eraseIdx_last (done : List Session) (s : Session) :
    (done ++ [s]).eraseIdx done.length = done := by
  simp [List.eraseIdx_append_of_length_le]

theorem set_last (done : List Session) (s s' : Session) :
    (done ++ [s]).set done.length s' = done ++ [s'] := by
  simp

theorem Going.next (hg : Going b failing core) (ha : relaying b failing core a = true)
    (h : core.Step threshold a core') : Next threshold b failing core a core' := by
  have hu := hg.inv.isolated.outbox_nodup
  cases h with
  | start call now =>
    cases call with
    | relay n =>
      simp only [relaying, Bool.and_eq_true, beq_iff_eq, List.all_eq_true] at ha
      obtain ⟨rfl, hall⟩ := ha
      rcases hg.turn with hr | ⟨done, s, hs, -, ho, -⟩
      · exact .start now hr rfl
      · rw [hall s (hs ▸ List.mem_append_right _ List.mem_cons_self)] at ho
        cases ho
    | _ => cases ha
  | @perform i move s s' hi hl =>
    obtain ⟨done, hs, rfl, hd, hr⟩ := hg.last hi hl.not_ended
    rw [hs, eraseIdx_last] at hl
    have hm : admitted failing s move = true := by simpa [relaying, hi] using ha
    have he := hr.effect hu (fun t ht => (hd t ht).2) hg.routable hl hm
    exact .move hs hd hr rfl hl he (hr.local hu hl hm he) (by rw [hs, set_last])
  | @commit i s next prog acknowledged hi hp hn =>
    obtain ⟨done, hs, rfl, hd, hr⟩ := hg.last hi (by rw [hp]; rfl)
    obtain rfl : acknowledged = true := ha
    obtain rfl : prog = next := hn
    obtain ⟨rfl, -⟩ := hr.marked hu hp
    exact .commit hs hd hr hp (by rw [hs, set_last])

theorem Going.init (ho : (tables.orders.map OrderRow.key).Nodup)
    (hu : (tables.outbox.map OutboxRow.dedupKey).Nodup)
    (hroute : ∀ r ∈ tables.pending, failing r.dedupKey = false →
      ∃ d, FastStreamEventPublisher.route r.destination = .ok d) :
    Going b failing { tables := tables } :=
  ⟨.init ho hu, Or.inl (by rintro s ⟨⟩), hroute⟩

theorem Going.step (hg : Going b failing core) (ha : relaying b failing core a = true)
    (h : core.Step threshold a core') : Going b failing core' := by
  have hadm : a.Admissible := by
    rintro call now rfl
    cases call with
    | producer prog => cases ha
    | _ => trivial
  have hinv := hg.inv.step hadm h
  have hu := hg.inv.isolated.outbox_nodup
  cases hg.next ha h with
  | start now hr hc =>
    subst hc
    exact ⟨hinv, Or.inr ⟨_, _, rfl, hr, rfl, .opened⟩, hg.routable⟩
  | @move done s s' move hs hd hr ha hl he hr' hc =>
    subst hc
    refine ⟨hinv, ?_, hg.routable⟩
    by_cases ho : s'.prog.ended = true
    · exact Or.inl (List.forall_mem_append.mpr
        ⟨hd, List.forall_mem_singleton.mpr ⟨ho, outbox_of_ended hr'.point ho⟩⟩)
    · exact Or.inr ⟨done, s', rfl, hd, Bool.eq_false_iff.mpr ho, hr'⟩
  | @commit done s hs hd hr hp hc =>
    subst hc
    refine ⟨hinv, Or.inl ?_, fun r hr' hf => ?_⟩
    · exact List.forall_mem_append.mpr ⟨hd, List.forall_mem_singleton.mpr ⟨rfl, by simp⟩⟩
    · obtain ⟨-, -, -, hpend⟩ := hr.marked hu hp
      rw [hpend] at hr'
      exact hg.routable r (Finset.mem_sdiff.mp hr').1 hf

/-! ## A backlog that drains -/

theorem handed_subset (h : LocalStep tables done s move s') : s.handed ⊆ s'.handed := by
  intro x hx
  cases h with
  | publish _ _ => simp [hx]
  | unconfirmed _ _ => simp [hx]
  | _ => simpa using hx

/-- Rows keep their events, and those published since have been handed over. -/
structure Since (tables : Tables) (core : Core) : Prop where
  kept : ∀ r ∈ tables.outbox, ∃ r' ∈ core.tables.outbox, r'.toEvent = r.toEvent
  sent : ∀ r ∈ core.tables.outbox, r.status = .published → r ∈ tables.outbox ∨
    ∃ s ∈ core.sessions, (r.toEvent, true) ∈ s.handed

theorem Next.handed_kept (hn : Next threshold b failing core a core') (hs : s ∈ core.sessions)
    {x : PendingEvent × Bool} (hx : x ∈ s.handed) : ∃ t ∈ core'.sessions, x ∈ t.handed := by
  cases hn with
  | start now _ hc => exact ⟨s, hc ▸ List.mem_append_left _ hs, hx⟩
  | @move done u u' _ hu _ _ _ hl _ _ hc =>
    subst hc
    rcases List.mem_append.mp (hu ▸ hs) with hs | hs
    · exact ⟨s, List.mem_append_left _ hs, hx⟩
    · obtain rfl := List.mem_singleton.mp hs
      exact ⟨u', List.mem_append_right _ List.mem_cons_self, handed_subset hl hx⟩
  | @commit done u hu _ _ _ hc =>
    subst hc
    rcases List.mem_append.mp (hu ▸ hs) with hs | hs
    · exact ⟨s, List.mem_append_left _ hs, hx⟩
    · obtain rfl := List.mem_singleton.mp hs
      exact ⟨_, List.mem_append_right _ List.mem_cons_self, by rwa [Session.afterCommit_handed]⟩

theorem Since.step (hs : Since tables core) (hi : RelayOutbox.Invariant core)
    (hn : Next threshold b failing core a core') (h : core.Step threshold a core') :
    Since tables core' := by
  obtain ⟨hkept, hsent⟩ := hi.published_by h
  constructor
  · intro r hr
    obtain ⟨r₁, hr₁, he₁⟩ := hs.kept r hr
    obtain ⟨r₂, hr₂, he₂⟩ := hkept r₁ hr₁
    exact ⟨r₂, hr₂, he₂.trans he₁⟩
  · intro r hr hp
    rcases hsent r hr hp with hr | ⟨i, s, c, -, hi, hx⟩
    · apply (hs.sent r hr hp).imp_right
      rintro ⟨s, hs, hx⟩
      exact hn.handed_kept hs hx
    · exact Or.inr (hn.handed_kept (List.mem_of_getElem? hi) hx)

/-- The steps that all calls together have left. -/
def stepsLeft (sessions : List Session) : ℕ := (sessions.map fun s => left s.prog).sum

def openCalls (sessions : List Session) : ℕ := sessions.countP fun s => !s.prog.ended

@[simp] theorem stepsLeft_append : stepsLeft (done ++ [s]) = stepsLeft done + left s.prog := by
  simp [stepsLeft]

@[simp] theorem openCalls_append :
    openCalls (done ++ [s]) = openCalls done + if s.prog.ended then 0 else 1 := by
  cases h : s.prog.ended <;> simp [openCalls, h]

abbrev soundRows (failing : String → Bool) (tables : Tables) : Finset OutboxRow :=
  Batch.sound (fun r => failing r.dedupKey = true) tables.pending

/--
What holds after `k` steps over a backlog that drains: a failed call has claimed failing
events only, and a complete call has taken a sound event out of the backlog.
-/
structure Draining (b : ℕ) (failing : String → Bool) (tables : Tables) (k : ℕ) (core : Core) :
    Prop where
  going : Going b failing core
  since : Since tables core
  front : InFront b failing core.tables
  failed : ∀ s ∈ core.sessions, s.prog.raised = true → ∀ e ∈ s.claimed, failing e.id = true
  steps : soundRows failing core.tables = ∅ ∨
    k + (b + 4) * (soundRows failing core.tables).card + stepsLeft core.sessions ≤
      (b + 4) * (soundRows failing tables).card + (b + 4) * openCalls core.sessions

theorem exists_mem_batch (h : RelayOutbox.At tables s) (ho : s.prog.ended = false)
    {e : PendingEvent} (he : e ∈ s.claimed) : ∃ r ∈ s.batch tables, r.toEvent = e := by
  have hheld : ∀ rs, RelayOutbox.Holds tables s rs → ∃ r ∈ s.batch tables, r.toEvent = e := by
    intro rs held
    rw [held.claimed] at he
    obtain ⟨r, hr, rfl⟩ := List.mem_map.mp he
    refine ⟨r, Finset.mem_filter.mpr ⟨mem_pending_of_holds held hr, ?_⟩, rfl⟩
    rw [held.ids]
    exact List.mem_map_of_mem hr
  cases h with
  | idle _ _ _ hc => rw [hc] at he; cases he
  | publishing rs _ _ held => exact hheld rs held
  | marked rs held => exact hheld rs held
  | returned _ hp => rw [hp] at ho; cases ho
  | raised _ hp => rw [hp] at ho; cases ho

theorem all_failing_of_refuse (hf : InFront b failing tables)
    (hr : Relays b failing tables s) (ho : s.prog.ended = false) {e : PendingEvent}
    (he : e ∈ s.claimed) (hfe : failing e.id = true) :
    ∀ r ∈ tables.pending, failing r.dedupKey = true := by
  rcases hf.batch (hr.oldest ho (List.ne_nil_of_mem he)) with hc | hall
  · obtain ⟨r, hrb, rfl⟩ := exists_mem_batch hr.point ho he
    exact absurd hfe (hc r hrb)
  · exact hall

theorem soundRows_eq_empty (h : ∀ r ∈ tables.pending, failing r.dedupKey = true) :
    soundRows failing tables = ∅ := by
  ext r
  simpa using fun h₁ h₂ => h r (mem_pending.mpr ⟨h₁, h₂⟩)

theorem Relays.batch_sound (hr : Relays b failing tables s)
    (hu : (tables.outbox.map OutboxRow.dedupKey).Nodup) {next : Prog}
    (hp : s.prog = .commit next) : ∀ r ∈ s.batch tables, ¬ failing r.dedupKey = true := by
  obtain ⟨-, -, hsound, -⟩ := hr.marked hu hp
  intro r hrb hfr
  obtain ⟨e, he, hid⟩ := List.mem_map.mp (Finset.mem_filter.mp hrb).2
  rw [← hid, hsound e he] at hfr
  cases hfr

theorem Relays.batch_of_commit (hr : Relays b failing tables s)
    (hu : (tables.outbox.map OutboxRow.dedupKey).Nodup) {next : Prog} (hp : s.prog = .commit next) :
    Batch.Oldest OutboxRow.createdAt b tables.pending (s.batch tables) ∧
      (∀ r ∈ s.batch tables, ¬ failing r.dedupKey = true) ∧ 0 < (s.batch tables).card := by
  obtain ⟨-, hne, -, -⟩ := hr.marked hu hp
  have hopen : s.prog.ended = false := by rw [hp]; rfl
  obtain ⟨e, he⟩ := List.exists_mem_of_ne_nil _ hne
  obtain ⟨r, hrb, -⟩ := exists_mem_batch hr.point hopen he
  exact ⟨hr.oldest hopen hne, hr.batch_sound hu hp, Finset.card_pos.mpr ⟨r, hrb⟩⟩

theorem Draining.front_next (hd : Draining b failing tables k core)
    (hn : Next threshold b failing core a core') : InFront b failing core'.tables := by
  cases hn with
  | start _ _ hc => exact hc ▸ hd.front
  | move _ _ _ _ _ _ _ hc => exact hc ▸ hd.front
  | @commit done s _ _ hrel hp hc =>
    subst hc
    have hu := hd.going.inv.isolated.outbox_nodup
    obtain ⟨hold, hclean, -⟩ := hrel.batch_of_commit hu hp
    obtain ⟨-, -, -, hpend⟩ := hrel.marked hu hp
    rw [InFront, hpend]
    exact hd.front.sdiff hold hclean

theorem Draining.failed_next (hd : Draining b failing tables k core)
    (hn : Next threshold b failing core a core') :
    ∀ s ∈ core'.sessions, s.prog.raised = true → ∀ e ∈ s.claimed, failing e.id = true := by
  cases hn with
  | start now hr hc =>
    subst hc
    exact List.forall_mem_append.mpr ⟨hd.failed, List.forall_mem_singleton.mpr (by rintro ⟨⟩)⟩
  | @move done s s' move hs hr hrel _ hl he hrel' hc =>
    subst hc
    obtain ⟨hdone, -⟩ := List.forall_mem_append.mp (hs ▸ hd.failed)
    refine List.forall_mem_append.mpr ⟨hdone, List.forall_mem_singleton.mpr fun hrt e' he' => ?_⟩
    cases he with
    | claim _ _ _ _ _ hr' => rw [hr'] at hrt; cases hrt
    | advance _ _ _ he => rw [Prog.raised_of_not_ended he] at hrt; cases hrt
    | refuse hc _ he hf =>
      have ho := hl.not_ended
      obtain ⟨r, hr, rfl⟩ := exists_mem_batch hrel.point ho (hc ▸ he')
      exact all_failing_of_refuse hd.front hrel ho he hf r (batch_subset hr)
  | @commit done s hs _ _ _ hc =>
    subst hc
    obtain ⟨hdone, -⟩ := List.forall_mem_append.mp (hs ▸ hd.failed)
    exact List.forall_mem_append.mpr ⟨hdone, List.forall_mem_singleton.mpr (by rintro ⟨⟩)⟩

theorem soundRows_of_idle {rs : List OutboxRow} (hb : 1 ≤ b)
    (ho : Batch.Oldest OutboxRow.createdAt b tables.pending rs.toFinset)
    (hbatch : s.batch tables = rs.toFinset) (hc : s.claimed = []) :
    soundRows failing tables = ∅ := by
  have hempty : s.claimedIds = [] := by rw [Session.claimedIds, hc]; rfl
  have hcard := ho.card_eq
  rw [← hbatch, Session.batch, hempty, Finset.filter_false_of_mem (by simp),
    Finset.card_empty] at hcard
  have hnone : tables.pending = ∅ := Finset.card_eq_zero.mp (by omega)
  exact soundRows_eq_empty (by rw [hnone]; rintro r ⟨⟩)

theorem Draining.steps_next (hd : Draining b failing tables k core) (hb : 1 ≤ b)
    (hn : Next threshold b failing core a core') :
    soundRows failing core'.tables = ∅ ∨
      k + 1 + (b + 4) * (soundRows failing core'.tables).card + stepsLeft core'.sessions ≤
        (b + 4) * (soundRows failing tables).card + (b + 4) * openCalls core'.sessions := by
  have hk := hd.steps
  cases hn with
  | start now hr hc =>
    subst hc
    refine hk.imp_right fun hk => ?_
    have hl : left (Session.opened threshold (.relay b) now).prog = b + 3 := rfl
    have he : (Session.opened threshold (.relay b) now).prog.ended = false := rfl
    rw [stepsLeft_append, openCalls_append, hl, he, if_neg Bool.false_ne_true, Nat.mul_add]
    dsimp only
    omega
  | @move done s s' move hs hr hrel _ hl he hrel' hc =>
    subst hc
    have ho := hl.not_ended
    rw [hs, stepsLeft_append, openCalls_append, ho, if_neg Bool.false_ne_true] at hk
    have hgo : left s'.prog + 1 ≤ left s.prog → s'.prog.ended = false →
        soundRows failing core.tables = ∅ ∨
          k + 1 + (b + 4) * (soundRows failing core.tables).card + stepsLeft (done ++ [s']) ≤
            (b + 4) * (soundRows failing tables).card + (b + 4) * openCalls (done ++ [s']) := by
      intro hle ho'
      rw [stepsLeft_append, openCalls_append, ho', if_neg Bool.false_ne_true]
      exact hk.imp_right fun hk => by omega
    cases he with
    | claim _ _ hold hbatch hle _ he =>
      by_cases ho' : s'.prog.ended = true
      · exact Or.inl (soundRows_of_idle hb hold hbatch (he.mpr ho'))
      · exact hgo hle (Bool.eq_false_iff.mpr ho')
    | advance _ _ hle ho' => exact hgo hle ho'
    | refuse _ _ he hf =>
      exact Or.inl (soundRows_eq_empty (all_failing_of_refuse hd.front hrel ho he hf))
  | @commit done s hs hr hrel hp hc =>
    subst hc
    have hu := hd.going.inv.isolated.outbox_nodup
    obtain ⟨-, -, -, hpend⟩ := hrel.marked hu hp
    obtain ⟨hold, hclean, hpos⟩ := hrel.batch_of_commit hu hp
    have hopen : s.prog.ended = false := by rw [hp]; rfl
    rw [hs, stepsLeft_append, openCalls_append, hopen, if_neg Bool.false_ne_true, hp, left] at hk
    rw [soundRows, hpend, stepsLeft_append, openCalls_append]
    refine hk.imp (fun hk => ?_) fun hk => ?_
    · refine Finset.subset_empty.mp fun r hr => ?_
      obtain ⟨hr, hf⟩ := Batch.mem_sound.mp hr
      exact hk ▸ Batch.mem_sound.mpr ⟨(Finset.mem_sdiff.mp hr).1, hf⟩
    · have hle : (b + 4) * (Batch.sound (fun r : OutboxRow => failing r.dedupKey = true)
          (core.tables.pending \ s.batch core.tables)).card + (b + 4) ≤
          (b + 4) * (soundRows failing core.tables).card := by
        rw [← hold.card_sound_sdiff hclean, Nat.mul_add]
        have := Nat.mul_le_mul_left (b + 4) hpos
        omega
      simp only [Session.afterCommit, Session.resume_prog, left, Prog.ended, if_true,
        Nat.mul_add] at hk ⊢
      omega

theorem Draining.step (hd : Draining b failing tables k core) (hb : 1 ≤ b)
    (ha : relaying b failing core a = true) (h : core.Step threshold a core') :
    Draining b failing tables (k + 1) core' := by
  have hn := hd.going.next ha h
  exact ⟨hd.going.step ha h, hd.since.step hd.going.inv hn h, hd.front_next hn,
    hd.failed_next hn, hd.steps_next hb hn⟩

theorem openCalls_le_one (hg : Going b failing core) : openCalls core.sessions ≤ 1 := by
  have hzero : ∀ {l : List Session}, (∀ t ∈ l, Rests t) → openCalls l = 0 := by
    intro l hl
    apply List.countP_eq_zero.mpr
    intro t ht
    simp [(hl t ht).1]
  rcases hg.turn with hr | ⟨done, s, hs, hd, -, -⟩
  · rw [hzero hr]
    exact Nat.zero_le 1
  · rw [hs, openCalls_append, hzero hd]
    split <;> omega

/-- Once no sound event is left, each has been published and handed over once. -/
theorem Draining.published (hd : Draining b failing tables k core)
    (hu : (tables.outbox.map OutboxRow.dedupKey).Nodup)
    (hnone : soundRows failing core.tables = ∅) {r : OutboxRow} (hr : r ∈ tables.pending)
    (hf : failing r.dedupKey = false) :
    (∃ r' ∈ core.tables.outbox, r'.toEvent = r.toEvent ∧ r'.status = .published) ∧
      core.handedCount r.dedupKey = 1 := by
  obtain ⟨hmem, hpend⟩ := mem_pending.mp hr
  obtain ⟨r', hr', he⟩ := hd.since.kept r hmem
  have hk : r'.dedupKey = r.dedupKey := congrArg PendingEvent.id he
  have hp : r'.status = .published := by
    cases hst : r'.status with
    | published => rfl
    | pending =>
      have hsound : r' ∈ soundRows failing core.tables :=
        Batch.mem_sound.mpr ⟨mem_pending.mpr ⟨hr', hst⟩, by rw [hk, hf]; exact Bool.false_ne_true⟩
      rw [hnone] at hsound
      cases hsound
  refine ⟨⟨r', hr', he, hp⟩, Nat.le_antisymm ?_ ?_⟩
  · have habort : core.abortedCount r.dedupKey = 0 := by
      apply List.countP_eq_zero.mpr
      intro s hs h
      simp only [Bool.and_eq_true, decide_eq_true_eq] at h
      obtain ⟨e, he, hid⟩ := List.mem_map.mp h.2
      have := hd.failed s hs h.1 e he
      rw [hid, hf] at this
      cases this
    have := hd.going.inv.handedCount_le r.dedupKey
    omega
  · rcases hd.since.sent r' hr' hp with h | ⟨s, hs, hx⟩
    · obtain rfl := eq_of_key_eq hu h hmem hk
      rw [hp] at hpend
      cases hpend
    · have hle : s.handedCount r.dedupKey ≤ core.handedCount r.dedupKey :=
        List.le_sum_of_mem (List.mem_map_of_mem hs)
      have hpos : 0 < s.handedCount r.dedupKey :=
        List.countP_pos_iff.mpr ⟨_, hx, decide_eq_true hk⟩
      omega

theorem undisturbed_of_inFront (hb : 1 ≤ b) (ho : (tables.orders.map OrderRow.key).Nodup)
    (hu : (tables.outbox.map OutboxRow.dedupKey).Nodup)
    (hroute : ∀ r ∈ tables.pending, failing r.dedupKey = false →
      ∃ d, FastStreamEventPublisher.route r.destination = .ok d)
    (hf : InFront b failing tables) : Undisturbed threshold b failing tables := by
  refine ⟨(b + 4) * (soundRows failing tables).card + (b + 4), ?_⟩
  intro actions core hrun hlen r hr hfr
  have hinit : Draining b failing tables 0 { tables := tables } := by
    refine ⟨.init ho hu hroute, ⟨fun r hr => ⟨r, hr, rfl⟩, fun r hr _ => Or.inl hr⟩, hf, ?_, ?_⟩
    · rintro s ⟨⟩
    · right
      simp [stepsLeft, openCalls]
  have hd := run_invariant (fun k core => Draining b failing tables k core)
    (fun k core a core' hd h =>
      have hg := guarded_eq_some h
      hd.step hb hg.1 (Core.step_cases hg.2)) hinit hrun
  refine hd.published hu ?_ hr hfr
  rcases hd.steps with h | h
  · exact h
  · have hone := Nat.mul_le_mul_left (b + 4) (openCalls_le_one hd.going)
    have hzero : (soundRows failing core.tables).card = 0 := by
      by_contra hpos
      have := Nat.mul_le_mul_left (b + 4) (Nat.one_le_iff_ne_zero.mpr hpos)
      omega
    exact Finset.card_eq_zero.mp hzero

/-! ## A backlog that does not drain -/

variable (tables) in
theorem markPublished_alone (hd : ∀ t ∈ done, t.outbox = {}) (tx : OutboxTx) (now : ℕ)
    (ids : List String) :
    ∃ tx', markPublished tables.outbox (done.map Session.outbox) tx now ids = some tx' := by
  have hquiet : ∀ q ∈ done.map Session.outbox, q = {} := by
    rintro q hq
    obtain ⟨t, ht, rfl⟩ := List.mem_map.mp hq
    exact hd t ht
  rw [markPublished, updateAll_quiet hquiet]
  induction ids generalizing tx with
  | nil => exact ⟨tx, rfl⟩
  | cons id ids ih =>
    have hone :
        ∃ r, update OutboxRow.dedupKey tables.outbox [] tx id (publishRow now) = some r := by
      unfold update
      split
      · exact ⟨_, rfl⟩
      · rw [if_neg (by simp [OwnedElsewhere])]
        exact ⟨_, rfl⟩
    obtain ⟨r, hr⟩ := hone
    obtain ⟨tx', h⟩ := ih r.1
    exact ⟨tx', by rw [updateAll, hr]; exact h⟩

theorem Relays.can_claim (hr : Relays b failing tables s)
    (hu : (tables.outbox.map OutboxRow.dedupKey).Nodup) (hd : ∀ t ∈ done, t.outbox = {}) {n : ℕ}
    (hp : s.prog = RelayOutbox.runOnce n) (hb : s.outbox = {}) (hc : s.claimed = [])
    {t : Finset OutboxRow} (ht : Batch.Oldest OutboxRow.createdAt b tables.pending t) :
    ∃ rows s', rows.toFinset = t ∧ s.perform tables done (.claim rows) = some s' := by
  obtain rfl : n = b := hr.limit_eq hp hc
  obtain ⟨rows, hrows, rfl⟩ := ht.exists_limited OutboxRow.dedupKey
    (hu.sublist (List.filter_sublist.map _))
  have hclaim : ClaimResult tables.outbox (done.map Session.outbox) s.outbox n rows := by
    rw [hb, ClaimResult, claimable_alone hd]
    exact hrows
  simp only [Session.perform, Session.claim, hp, RelayOutbox.runOnce]
  exact ⟨rows, _, rfl, if_pos hclaim⟩

variable (failing) in
theorem can_publish (hd : ∀ t ∈ done, t.outbox = {}) {todo : List PendingEvent}
    (hp : s.prog = RelayOutbox.publishAll todo (.markPublished s.claimedIds (.commit .ret))) :
    ∃ move s', s.perform tables done move = some s' ∧ admitted failing s move = true ∧
      ∀ rows, move ≠ .claim rows := by
  cases todo with
  | nil =>
    obtain ⟨tx, htx⟩ := markPublished_alone tables hd s.outbox s.now s.claimedIds
    have hmove : ∃ s', s.perform tables done .exec = some s' := by
      simp only [Session.perform, Session.exec, hp, RelayOutbox.publishAll, htx]
      exact ⟨_, rfl⟩
    obtain ⟨s', hs'⟩ := hmove
    exact ⟨.exec, s', hs', rfl, by rintro rows ⟨⟩⟩
  | cons e todo =>
    have hmove : ∃ s', s.publish (!failing e.id) = some s' := by
      simp only [Session.publish, hp, RelayOutbox.publishAll]
      split <;> exact ⟨_, rfl⟩
    obtain ⟨s', hs'⟩ := hmove
    refine ⟨.publish (!failing e.id), s', hs', ?_, by rintro rows ⟨⟩⟩
    simp [admitted, hp, RelayOutbox.publishAll]

variable (threshold) in
/-- The relay can always go on, with any batch of the oldest rows when it is about to claim. -/
theorem Going.continues (hg : Going b failing core) {t : Finset OutboxRow}
    (ht : Batch.Oldest OutboxRow.createdAt b core.tables.pending t) :
    ∃ a core', relaying b failing core a = true ∧ core.step threshold a = some core' ∧
      ∀ i rows, a = .perform i (.claim rows) → rows.toFinset = t := by
  rcases hg.turn with hr | ⟨done, s, hs, hd, ho, hrel⟩
  · refine ⟨.start (.relay b) 0, _, ?_, rfl, by rintro i rows ⟨⟩⟩
    simp only [relaying, Bool.and_eq_true, beq_self_eq_true, List.all_eq_true, true_and]
    exact fun s hs => (hr s hs).1
  have hi : core.sessions[done.length]? = some s := by
    rw [hs, List.getElem?_append_right (Nat.le_refl _)]
    simp
  have hquiet : ∀ t ∈ done, t.outbox = {} := fun t ht => (hd t ht).2
  have hperform : ∀ {move s'}, s.perform core.tables done move = some s' →
      core.step threshold (.perform done.length move) =
        some { core with sessions := core.sessions.set done.length s' } := by
    intro move s' h
    simp only [Core.step, hi, Option.bind_some]
    rw [hs, eraseIdx_last, h]
    rfl
  have hrelaying : ∀ {move}, relaying b failing core (.perform done.length move) =
      admitted failing s move := by
    intro move
    simp only [relaying, hi]
  cases hrel.point with
  | idle n hp hb hc =>
    obtain ⟨rows, s', rfl, hs'⟩ :=
      hrel.can_claim hg.inv.isolated.outbox_nodup hquiet hp hb hc ht
    refine ⟨.perform done.length (.claim rows), _, hrelaying, hperform hs', ?_⟩
    rintro i rows' ⟨⟩
    rfl
  | publishing rs sent todo held hp =>
    obtain ⟨move, s', hs', hadm, hno⟩ := can_publish failing hquiet hp
    refine ⟨.perform done.length move, _, hrelaying.trans hadm, hperform hs', ?_⟩
    rintro i rows ⟨⟩
    exact absurd rfl (hno rows)
  | marked rs held hp =>
    have hstep : ∃ core', core.step threshold (.commit done.length true) = some core' := by
      simp only [Core.step, hi, Option.bind_some, hp]
      exact ⟨_, rfl⟩
    obtain ⟨core', hstep⟩ := hstep
    exact ⟨.commit done.length true, core', rfl, hstep, by rintro i rows ⟨⟩⟩
  | returned rs hp => rw [hp] at ho; cases ho
  | raised e hp => rw [hp] at ho; cases ho

/-- A batch that will be given back, or that leaves a backlog which does not drain. -/
def Holding (b : ℕ) (failing : String → Bool) (tables : Tables) (t : Finset OutboxRow) : Prop :=
  (∃ r ∈ t, failing r.dedupKey = true) ∨
    ¬ Batch.Drains OutboxRow.createdAt (fun r => failing r.dedupKey = true) b (tables.pending \ t)

/-- The backlog does not drain, and whatever the open call does it will not after it. -/
structure Stuck (b : ℕ) (failing : String → Bool) (tables : Tables) (core : Core) : Prop where
  going : Going b failing core
  front : ¬ InFront b failing core.tables
  left : core.tables.pending ⊆ tables.pending
  holding : ∀ done s, core.sessions = done ++ [s] → s.prog.ended = false → s.claimed ≠ [] →
    Holding b failing core.tables (s.batch core.tables)

variable (threshold) in
theorem Stuck.continues (hs : Stuck b failing tables core) :
    ∃ a core', relaying b failing core a = true ∧ core.step threshold a = some core' ∧
      Stuck b failing tables core' := by
  obtain ⟨t, ht, hhold⟩ := Batch.exists_oldest_of_not_drains hs.front
  obtain ⟨a, core', ha, hstep, hclaim⟩ := hs.going.continues threshold ht
  have hgoing := hs.going.step ha (Core.step_cases hstep)
  refine ⟨a, core', ha, hstep, ?_⟩
  cases hs.going.next ha (Core.step_cases hstep) with
  | start now hr hc =>
    subst hc
    refine ⟨hgoing, hs.front, hs.left, fun done s hl ho hn => ?_⟩
    obtain ⟨-, hl⟩ := List.append_inj' hl rfl
    obtain rfl := List.singleton_inj.mp hl
    exact absurd rfl hn
  | @move done s s' move hl hd hrel haction hlocal he hrel' hc =>
    subst hc
    refine ⟨hgoing, hs.front, hs.left, fun done' u hu ho hn => ?_⟩
    obtain ⟨-, hu⟩ := List.append_inj' hu rfl
    obtain rfl := List.singleton_inj.mp hu
    cases he with
    | claim hm _ _ hb =>
      subst hm
      rw [hb, hclaim _ _ haction]
      exact hhold
    | advance hc hne =>
      rw [batch_congr hc]
      exact hs.holding done s hl hlocal.not_ended hne
    | refuse _ hr =>
      rw [Prog.raised_of_not_ended ho] at hr
      cases hr
  | @commit done s hl hd hrel hp hc =>
    subst hc
    have hu := hs.going.inv.isolated.outbox_nodup
    obtain ⟨-, hne, -, hpend⟩ := hrel.marked hu hp
    refine ⟨hgoing, ?_, ?_, fun done' u hu ho _ => ?_⟩
    · rw [InFront, hpend]
      rcases hs.holding done s hl (by rw [hp]; rfl) hne with ⟨r, hr, hf⟩ | h
      · exact absurd hf (hrel.batch_sound hu hp r hr)
      · exact h
    · rw [hpend]
      exact Finset.sdiff_subset.trans hs.left
    · obtain ⟨-, hu⟩ := List.append_inj' hu rfl
      obtain rfl := List.singleton_inj.mp hu
      cases ho

variable (threshold) in
/-- A run of any length that never drains the backlog. -/
theorem Stuck.exists_run (hs : Stuck b failing tables core) (n : ℕ) :
    ∃ actions core', run (guarded (Core.step threshold) (relaying b failing)) core actions =
      some core' ∧ actions.length = n ∧ Stuck b failing tables core' := by
  induction n generalizing core with
  | zero => exact ⟨[], core, rfl, rfl, hs⟩
  | succ n ih =>
    obtain ⟨a, core₁, ha, hstep, hs₁⟩ := hs.continues threshold
    obtain ⟨actions, core', hrun, hlen, hs'⟩ := ih hs₁
    refine ⟨a :: actions, core', ?_, by simp [hlen], hs'⟩
    rw [run, guarded, if_pos ha, hstep]
    exact hrun

theorem not_undisturbed_of_not_inFront (ho : (tables.orders.map OrderRow.key).Nodup)
    (hu : (tables.outbox.map OutboxRow.dedupKey).Nodup)
    (hroute : ∀ r ∈ tables.pending, failing r.dedupKey = false →
      ∃ d, FastStreamEventPublisher.route r.destination = .ok d)
    (hf : ¬ InFront b failing tables) : ¬ Undisturbed threshold b failing tables := by
  rintro ⟨n, hn⟩
  have hinit : Stuck b failing tables { tables := tables } := by
    refine ⟨.init ho hu hroute, hf, subset_rfl, fun done s hl => ?_⟩
    simp at hl
  obtain ⟨actions, core, hrun, hlen, hs⟩ := hinit.exists_run threshold n
  obtain ⟨r, hr, hfr⟩ := Batch.exists_sound_of_not_drains hs.front
  obtain ⟨⟨r', hr', he, hp⟩, -⟩ := hn actions core hrun hlen.ge r (hs.left hr)
    (Bool.eq_false_iff.mpr hfr)
  obtain ⟨hmem, hpend⟩ := mem_pending.mp hr
  obtain rfl := eq_of_key_eq hs.going.inv.isolated.outbox_nodup hr' hmem
    (congrArg PendingEvent.id he)
  rw [hp] at hpend
  cases hpend

/--
Every pending event whose publish succeeds is published and handed over exactly once,
in every run of the lone relay, if and only if those events come in front of all that
raise and fill whole batches, or none raises.
-/
theorem undisturbed_iff_inFront (threshold : ℤ) {b : ℕ} {failing : String → Bool}
    {tables : Tables} (hb : 1 ≤ b) (ho : (tables.orders.map OrderRow.key).Nodup)
    (hu : (tables.outbox.map OutboxRow.dedupKey).Nodup)
    (hroute : ∀ r ∈ tables.pending, failing r.dedupKey = false →
      ∃ d, FastStreamEventPublisher.route r.destination = .ok d) :
    Undisturbed threshold b failing tables ↔ InFront b failing tables := by
  constructor
  · intro h
    by_contra hf
    exact not_undisturbed_of_not_inFront ho hu hroute hf h
  · exact undisturbed_of_inFront hb ho hu hroute

/-- A sound event with an event behind it that cannot be published. -/
def heldUp : Tables where
  outbox := [outboxRow 0 .assessRequest "assess:profi:1" .null,
    outboxRow 1 .assessRequest "assess:profi:2" .null]

def secondFails (id : String) : Bool := id = "assess:profi:2"

theorem heldUp_routable (r : OutboxRow) (hr : r ∈ heldUp.pending) :
    ∃ d, FastStreamEventPublisher.route r.destination = .ok d := by
  have hmem := (mem_pending.mp hr).1
  simp only [heldUp, List.mem_cons, List.not_mem_nil, or_false] at hmem
  rcases hmem with rfl | rfl <;> exact ⟨.assessRequest, rfl⟩

/-- In batches of one event the first is published before the second is tried. -/
theorem undisturbed_heldUp_single : Undisturbed 70 1 secondFails heldUp :=
  (undisturbed_iff_inFront 70 (by decide) (by decide) (by decide)
    fun r hr _ => heldUp_routable r hr).mpr (Or.inr ⟨by decide, by decide⟩)

/-- In one batch with the second event, the first is never published. -/
theorem not_undisturbed_heldUp : ¬ Undisturbed 70 2 secondFails heldUp := by
  apply not_undisturbed_of_not_inFront (by decide) (by decide)
  · exact fun r hr _ => heldUp_routable r hr
  · rintro (h | ⟨-, h⟩)
    · exact h (outboxRow 1 .assessRequest "assess:profi:2" .null) (by decide) (by decide)
    · revert h
      decide

end OutboxRelay

end ProfiNotifications.OrderCore
