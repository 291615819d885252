import ProfiNotifications.OrderCore.System

/-! # Verdicts under concurrency

The guard of `ProcessAssessment.handle` reads the order without locking it, and the
update comes later. As long as no update overwrites an order that another handler has
notified about in between, the status, the score and the notify event of every order
come from one verdict; two handlers that both passed the guard break this.
-/

namespace ProfiNotifications.OrderCore

open Keyed ReadCommitted Transition

namespace ProcessAssessment

def key (v : AssessmentOutcome) : Source × String := (.profi, v.orderId)

def verdictRow (status : OrderStatus) (v : AssessmentOutcome) (r : OrderRow) : OrderRow :=
  { r with status := status, suitabilityScore := some v.suitabilityScore }

def notifyRow (now : ℕ) (v : AssessmentOutcome) : OutboxRow :=
  outboxRow now .notify (notifyKey (key v)) (notificationPayload v.notification)

/-- Status, score and notify event of an order fit together. -/
structure Consistent (threshold : ℤ) (verdict : AssessmentOutcome → Prop)
    (outbox : List OutboxRow) (r : OrderRow) : Prop where
  notified_iff : (∃ e ∈ outbox, e.dedupKey = notifyKey r.key) ↔ r.status = .notifyRequested
  same_verdict : ∀ e ∈ outbox, e.dedupKey = notifyKey r.key → ∃ v, verdict v ∧ key v = r.key ∧
    e.payload = notificationPayload v.notification ∧ r.suitabilityScore = some v.suitabilityScore
  notify_score : r.status = .notifyRequested →
    ∃ score, r.suitabilityScore = some score ∧ threshold ≤ score
  no_notify_score : r.status = .noNotify →
    ∃ score, r.suitabilityScore = some score ∧ score < threshold

/-- The verdicts given to the process calls of a state. -/
def Verdict (core : Core) (v : AssessmentOutcome) : Prop :=
  ∃ s ∈ core.sessions, s.call = .process v

def VerdictConsistent (threshold : ℤ) (core : Core) : Prop :=
  ∀ r ∈ core.tables.orders, Consistent threshold (Verdict core) core.tables.outbox r

/-- The verdict notifies with the score that is stored, or with the event that is queued. -/
def Repeats (threshold : ℤ) (tables : Tables) (v : AssessmentOutcome) (r : OrderRow) : Prop :=
  threshold ≤ v.suitabilityScore ∧ (r.suitabilityScore = some v.suitabilityScore ∨
    ∃ e ∈ tables.outbox, e.dedupKey = notifyKey r.key ∧
      e.payload = notificationPayload v.notification)

instance (threshold : ℤ) (tables : Tables) (v : AssessmentOutcome) (r : OrderRow) :
    Decidable (Repeats threshold tables v r) :=
  inferInstanceAs (Decidable (_ ∧ (_ ∨ ∃ e ∈ tables.outbox, _)))

def updates : Prog → Bool
  | .setStatus .. => true
  | _ => false

/--
The handler is about to update an order that is notified about already, with another
verdict: the order was in `assessRequested` when this handler read it.
-/
def overtakes (threshold : ℤ) (tables : Tables) (s : Session) : Bool :=
  match s.call with
  | .process v => updates s.prog && (lookup OrderRow.key tables.orders (key v)).any fun r =>
      r.status = .notifyRequested && !decide (Repeats threshold tables v r)
  | _ => false

/-- Only calls of `ProcessAssessment.handle` are started. -/
def processOnly : Action → Bool
  | .start (.process _) _ => true
  | .start _ _ => false
  | _ => true

/-- Steps of such calls that overtake no notification. -/
def inTurn (threshold : ℤ) (core : Core) (a : Action) : Bool :=
  processOnly a && match a with
    | .perform i .exec => !(core.sessions[i]?).any (overtakes threshold core.tables)
    | _ => true

variable {threshold : ℤ} {tables : Tables} {others : List Session} {s s' t : Session}
  {core core' : Core} {a : Action} {move : Move} {v : AssessmentOutcome}

/-- Where the handler of a verdict is, with what it has written so far. -/
inductive At (threshold : ℤ) (tables : Tables) (v : AssessmentOutcome) (s : Session) : Prop
  | reading (hp : s.prog = handle threshold v) (ho : s.orders = {}) (hb : s.outbox = {})
  | ignored (hp : s.prog = .commit .ret) (ho : s.orders = {}) (hb : s.outbox = {})
  | deciding (hp : s.prog = apply threshold v) (ho : s.orders = {}) (hb : s.outbox = {})
      (hk : key v ∈ tables.orders.map OrderRow.key)
  | updated (r : OrderRow)
      (hp : s.prog = addNotification .profi v.orderId v.notification (.commit .ret))
      (ho : s.orders = { writes := [verdictRow .notifyRequested v r] }) (hb : s.outbox = {})
      (hr : lookup OrderRow.key tables.orders (key v) = some r)
      (ht : threshold ≤ v.suitabilityScore)
      (hn : r.status = .notifyRequested → Repeats threshold tables v r)
  | queued (r : OrderRow) (hp : s.prog = .commit .ret)
      (ho : s.orders = { writes := [verdictRow .notifyRequested v r] })
      (hb : s.outbox = { writes := [notifyRow s.now v] })
      (hr : lookup OrderRow.key tables.orders (key v) = some r)
      (ht : threshold ≤ v.suitabilityScore)
      (hf : notifyKey (key v) ∉ tables.outbox.map OutboxRow.dedupKey)
  | found (r : OrderRow) (hp : s.prog = .commit .ret)
      (ho : s.orders = { writes := [verdictRow .notifyRequested v r] }) (hb : s.outbox = {})
      (hr : lookup OrderRow.key tables.orders (key v) = some r)
      (ht : threshold ≤ v.suitabilityScore)
      (hn : r.status = .notifyRequested → Repeats threshold tables v r)
      (hf : notifyKey (key v) ∈ tables.outbox.map OutboxRow.dedupKey)
  | rejected (r : OrderRow) (hp : s.prog = .commit .ret)
      (ho : s.orders = { writes := [verdictRow .noNotify v r] }) (hb : s.outbox = {})
      (hr : lookup OrderRow.key tables.orders (key v) = some r)
      (ht : v.suitabilityScore < threshold) (hn : r.status ≠ .notifyRequested)
  | ended (hp : s.prog.ended = true) (ho : s.orders = {}) (hb : s.outbox = {})

theorem At.abort {e : Failure} : At threshold tables v (s.abort e) :=
  .ended (by rw [Session.abort_prog]; rfl) rfl rfl

theorem key_eq_of_lookup {rows : List OrderRow} {k : Source × String} {r : OrderRow}
    (h : lookup OrderRow.key rows k = some r) : r.key = k := (mem_of_lookup h).2

/-- A handler goes from point to point as long as it overtakes nobody. -/
theorem At.local (h : LocalStep tables others s move s')
    (hover : ∀ r, move = .exec → updates s.prog = true →
      lookup OrderRow.key tables.orders (key v) = some r → r.status = .notifyRequested →
      Repeats threshold tables v r)
    (ha : At threshold tables v s) : At threshold tables v s' := by
  rcases h.inv with ⟨-, m, rfl⟩ | hi
  · exact .abort
  cases ha with
  | reading hp ho hb =>
    simp only [Session.After, hp, handle] at hi
    subst hi
    cases hg : get tables.orders s.orders .profi v.orderId with
    | none => exact .abort
    | some order =>
      have hk : key v ∈ tables.orders.map OrderRow.key := by
        obtain ⟨r, hr, -⟩ := Option.map_eq_some_iff.mp hg
        rw [ho] at hr
        exact mem_keys_of_lookup hr
      simp only
      split
      · have he : (apply threshold v).ended = false := by unfold apply; split <;> rfl
        rw [Session.resume_of_not_ended he]
        exact .deciding rfl ho hb hk
      · exact .ignored rfl ho hb
  | ignored hp => simp only [Session.After, hp] at hi
  | deciding hp ho hb hk =>
    obtain ⟨r, hr⟩ := exists_lookup_of_mem_keys hk
    have hrow : ∀ {st tx b},
        setStatus tables.orders (others.map Session.orders) s.orders .profi v.orderId st
          (some v.suitabilityScore) = some (tx, b) → tx = { writes := [verdictRow st v r] } := by
      intro st tx b h
      rw [ho] at h
      rcases update_cases h with ⟨-, -, hs⟩ | ⟨r', -, hs, -, rfl⟩
      · exact absurd (hs.symm.trans hr) (by simp)
      · obtain rfl := Option.some.inj (hs.symm.trans hr)
        rfl
    by_cases ht : threshold ≤ v.suitabilityScore
    · have hp' := hp
      rw [apply, if_pos (decideNotification_notify.mpr ht)] at hp'
      simp only [Session.After, hp'] at hi
      obtain ⟨tx, b, rfl, hu, rfl⟩ := hi
      exact .updated r rfl (hrow hu) hb hr ht (hover r rfl (by rw [hp']; rfl) hr)
    · have hp' := hp
      rw [apply, if_neg (by rwa [decideNotification_notify])] at hp'
      simp only [Session.After, hp'] at hi
      obtain ⟨tx, b, rfl, hu, rfl⟩ := hi
      refine .rejected r rfl (hrow hu) hb hr (by omega) fun hn => ?_
      exact ht (hover r rfl (by rw [hp']; rfl) hr hn).1
  | updated r hp ho hb hr ht hn =>
    simp only [Session.After, hp, addNotification] at hi
    obtain ⟨tx, b, hu, rfl⟩ := hi
    rw [hb] at hu
    rcases insertOrIgnore_cases hu with ⟨-, rfl, hk⟩ | ⟨-, rfl, hk, -, -⟩
    · exact .found r rfl ho rfl hr ht hn (hk.resolve_right (by simp))
    · exact .queued r rfl ho rfl hr ht hk
  | queued r hp => simp only [Session.After, hp] at hi
  | found r hp => simp only [Session.After, hp] at hi
  | rejected r hp => simp only [Session.After, hp] at hi
  | ended hp => rw [h.not_ended] at hp; cases hp

theorem At.commit {next prog : Prog} (hp : s.prog = .commit next)
    (hn : prog = next ∨ ∃ m, prog = .raise (.other m)) (ha : At threshold tables v s) :
    At threshold (s.committed tables) v (s.afterCommit prog) := by
  have hret : next = .ret := by
    cases ha with
    | reading h => exact absurd (hp.symm.trans h) (by simp [handle])
    | deciding h => exact absurd (hp.symm.trans h) (by unfold apply; split <;> simp)
    | updated _ h => exact absurd (hp.symm.trans h) (by simp [addNotification])
    | ended h => rw [hp] at h; cases h
    | ignored h => exact Prog.commit.inj (hp.symm.trans h)
    | queued _ h => exact Prog.commit.inj (hp.symm.trans h)
    | found _ h => exact Prog.commit.inj (hp.symm.trans h)
    | rejected _ h => exact Prog.commit.inj (hp.symm.trans h)
  subst hret
  refine .ended ?_ Session.afterCommit_orders Session.afterCommit_outbox
  rcases hn with rfl | ⟨m, rfl⟩ <;> rfl

theorem At.committed_outbox (ha : At threshold tables v s) :
    (s.committed tables).outbox = tables.outbox ∨
      (s.committed tables).outbox = tables.outbox ++ [notifyRow s.now v] ∧
      notifyKey (key v) ∉ tables.outbox.map OutboxRow.dedupKey := by
  simp only [Session.committed, ReadCommitted.commit, view]
  cases ha with
  | queued r _ _ hb _ _ hf => rw [hb]; exact Or.inr ⟨upsert_of_not_mem hf, hf⟩
  | _ => simp_all

theorem At.mem_outbox (ha : At threshold tables v s) {e : OutboxRow} (he : e ∈ tables.outbox) :
    e ∈ (s.committed tables).outbox := by
  rcases ha.committed_outbox with h | ⟨h, -⟩ <;> rw [h]
  exacts [he, List.mem_append_left _ he]

theorem Repeats.mono {tables' : Tables} {r : OrderRow} (h : Repeats threshold tables v r)
    (hm : ∀ e ∈ tables.outbox, e ∈ tables'.outbox) : Repeats threshold tables' v r :=
  ⟨h.1, h.2.imp_right fun ⟨e, he, hk⟩ => ⟨e, hm e he, hk⟩⟩

/-- The commit of another handler changes nothing at the point of this one. -/
theorem At.stable {w : AssessmentOutcome} (hs : At threshold tables w s)
    (ht : At threshold tables v t) (ha : s.Apart t) : At threshold (s.committed tables) v t := by
  have horder : ∀ {st r}, t.orders = { writes := [verdictRow st v r] } →
      lookup OrderRow.key tables.orders (key v) = some r →
      lookup OrderRow.key (s.committed tables).orders (key v) = some r := by
    intro st r ho hr
    refine (lookup_commit_of_not_written (ha.orders _ ?_)).trans hr
    rw [ho, ← key_eq_of_lookup hr]
    exact List.mem_cons_self
  cases ht with
  | reading hp ho hb => exact .reading hp ho hb
  | ignored hp ho hb => exact .ignored hp ho hb
  | deciding hp ho hb hk => exact .deciding hp ho hb (mem_keys_commit.mpr (Or.inl hk))
  | updated r hp ho hb hr ht hn =>
    exact .updated r hp ho hb (horder ho hr) ht fun h => (hn h).mono fun _ => hs.mem_outbox
  | queued r hp ho hb hr ht hf =>
    refine .queued r hp ho hb (horder ho hr) ht fun h => ?_
    rcases mem_keys_commit.mp h with h | h
    · exact hf h
    · exact ha.outbox _ (by rw [hb]; exact List.mem_cons_self) h
  | found r hp ho hb hr ht hn hf =>
    exact .found r hp ho hb (horder ho hr) ht (fun h => (hn h).mono fun _ => hs.mem_outbox)
      (mem_keys_commit.mpr (Or.inl hf))
  | rejected r hp ho hb hr ht hn => exact .rejected r hp ho hb (horder ho hr) ht hn
  | ended hp ho hb => exact .ended hp ho hb

section Consistent

variable {verdict verdict' : AssessmentOutcome → Prop} {outbox : List OutboxRow} {r : OrderRow}

theorem Consistent.mono (h : Consistent threshold verdict outbox r)
    (hv : ∀ v, verdict v → verdict' v) : Consistent threshold verdict' outbox r :=
  ⟨h.notified_iff, fun e he hk => (h.same_verdict e he hk).imp fun v hv' => ⟨hv v hv'.1, hv'.2⟩,
    h.notify_score, h.no_notify_score⟩

theorem Consistent.append (h : Consistent threshold verdict outbox r) {e : OutboxRow}
    (he : e.dedupKey ≠ notifyKey r.key) : Consistent threshold verdict (outbox ++ [e]) r := by
  have hm : ∀ e' ∈ outbox ++ [e], e'.dedupKey = notifyKey r.key → e' ∈ outbox := by
    intro e' he' hk
    rcases List.mem_append.mp he' with he' | he'
    · exact he'
    · rw [List.mem_singleton.mp he'] at hk; exact absurd hk he
  refine ⟨?_, fun e' he' hk => h.same_verdict e' (hm e' he' hk) hk, h.notify_score,
    h.no_notify_score⟩
  rw [← h.notified_iff]
  constructor
  · rintro ⟨e', he', hk⟩; exact ⟨e', hm e' he' hk, hk⟩
  · rintro ⟨e', he', hk⟩; exact ⟨e', List.mem_append_left _ he', hk⟩

theorem Consistent.notify (hv : verdict v) (hk : key v = r.key)
    (ht : threshold ≤ v.suitabilityScore) {now : ℕ}
    (hf : notifyKey (key v) ∉ outbox.map OutboxRow.dedupKey) :
    Consistent threshold verdict (outbox ++ [notifyRow now v])
      (verdictRow .notifyRequested v r) := by
  refine ⟨iff_of_true ⟨notifyRow now v, by simp, congrArg notifyKey hk⟩ rfl, fun e he hke => ?_,
    fun _ => ⟨_, rfl, ht⟩, nofun⟩
  rcases List.mem_append.mp he with he | he
  · rw [hk] at hf; exact absurd (hke ▸ List.mem_map_of_mem he) hf
  · rw [List.mem_singleton.mp he]; exact ⟨v, hv, hk, rfl, rfl⟩

theorem Consistent.repeat (h : Consistent threshold verdict tables.outbox r) (hv : verdict v)
    (hk : key v = r.key) (hs : r.status = .notifyRequested) (hr : Repeats threshold tables v r)
    (hu : (tables.outbox.map OutboxRow.dedupKey).Nodup) :
    Consistent threshold verdict tables.outbox (verdictRow .notifyRequested v r) := by
  refine ⟨iff_of_true (h.notified_iff.mpr hs) rfl, fun e he hke => ?_,
    fun _ => ⟨_, rfl, hr.1⟩, nofun⟩
  rcases hr.2 with hsc | ⟨e', he', hke', hp⟩
  · obtain ⟨v', hv', hk', hp', hs'⟩ := h.same_verdict e he hke
    exact ⟨v', hv', hk', hp', hsc.symm.trans hs'⟩
  · obtain rfl := eq_of_key_eq hu he he' (hke.trans hke'.symm)
    exact ⟨v, hv, hk, hp, rfl⟩

theorem Consistent.reject (h : Consistent threshold verdict outbox r)
    (ht : v.suitabilityScore < threshold) (hs : r.status ≠ .notifyRequested) :
    Consistent threshold verdict outbox (verdictRow .noNotify v r) := by
  have hno : ¬ ∃ e ∈ outbox, e.dedupKey = notifyKey r.key := fun he => hs (h.notified_iff.mp he)
  exact ⟨iff_of_false hno (by simp [verdictRow]), fun e he hk => absurd ⟨e, he, hk⟩ hno,
    nofun, fun _ => ⟨_, rfl, ht⟩⟩

end Consistent

/-- The commit of a handler keeps every order consistent. -/
theorem At.consistent_commit {verdict : AssessmentOutcome → Prop}
    (ho : (tables.orders.map OrderRow.key).Nodup)
    (hb : (tables.outbox.map OutboxRow.dedupKey).Nodup)
    (hc : ∀ r ∈ tables.orders, Consistent threshold verdict tables.outbox r) (hv : verdict v)
    {next : Prog} (hp : s.prog = .commit next) (ha : At threshold tables v s) :
    ∀ r ∈ (s.committed tables).orders,
      Consistent threshold verdict (s.committed tables).outbox r := by
  have hout : s.outbox = {} → (s.committed tables).outbox = tables.outbox := by
    intro h; simp only [Session.committed, h]; rfl
  have hnone : s.orders = {} → s.outbox = {} → ∀ r ∈ (s.committed tables).orders,
      Consistent threshold verdict (s.committed tables).outbox r := by
    intro h h' r hr
    rw [hout h']
    simp only [Session.committed, h] at hr
    exact hc r hr
  have hone : ∀ {st r₀}, s.orders = { writes := [verdictRow st v r₀] } →
      lookup OrderRow.key tables.orders (key v) = some r₀ →
      Consistent threshold verdict (s.committed tables).outbox (verdictRow st v r₀) →
      ∀ r ∈ (s.committed tables).orders,
        Consistent threshold verdict (s.committed tables).outbox r := by
    intro st r₀ h h₀ hw r hr
    simp only [Session.committed, h] at hr
    rcases (mem_upsert ho).mp hr with rfl | ⟨hr, hne⟩
    · exact hw
    · rcases ha.committed_outbox with h | ⟨h, -⟩ <;> rw [h]
      · exact hc r hr
      · refine (hc r hr).append fun hk => hne ?_
        exact (notifyKey_injective hk).symm.trans (key_eq_of_lookup h₀).symm
  cases ha with
  | reading _ ho' hb' => exact hnone ho' hb'
  | ignored _ ho' hb' => exact hnone ho' hb'
  | deciding _ ho' hb' => exact hnone ho' hb'
  | ended _ ho' hb' => exact hnone ho' hb'
  | updated _ hp' => exact absurd (hp.symm.trans hp') (by simp [addNotification])
  | queued r _ ho' hb' hr ht hf =>
    apply hone ho' hr
    have happ : (s.committed tables).outbox = tables.outbox ++ [notifyRow s.now v] := by
      simp only [Session.committed, hb']
      exact upsert_of_not_mem hf
    rw [happ]
    exact .notify hv (key_eq_of_lookup hr).symm ht hf
  | found r _ ho' hb' hr ht hn hf =>
    apply hone ho' hr
    rw [hout hb']
    have hcr := hc r (mem_of_lookup hr).1
    have hs : r.status = .notifyRequested := by
      obtain ⟨e, he, hk⟩ := List.mem_map.mp hf
      exact hcr.notified_iff.mp ⟨e, he, hk.trans (by rw [key_eq_of_lookup hr])⟩
    exact hcr.repeat hv (key_eq_of_lookup hr).symm hs (hn hs) hb
  | rejected r _ ho' hb' hr ht hn =>
    apply hone ho' hr
    rw [hout hb']
    exact (hc r (mem_of_lookup hr).1).reject ht hn

def Handling (threshold : ℤ) (tables : Tables) (s : Session) : Prop :=
  ∃ v, s.call = .process v ∧ At threshold tables v s

/-- Every session handles a verdict, and every order is consistent. -/
structure Invariant (threshold : ℤ) (core : Core) : Prop where
  isolated : core.Isolated
  points : ∀ s ∈ core.sessions, Handling threshold core.tables s
  consistent : VerdictConsistent threshold core

theorem inTurn_start {call : Call} {now : ℕ}
    (h : inTurn threshold core (.start call now) = true) : ∃ v, call = .process v := by
  cases call <;> simp_all [inTurn, processOnly]

theorem inTurn_exec {i : ℕ} {r : OrderRow} (h : inTurn threshold core (.perform i .exec) = true)
    (hs : core.sessions[i]? = some s) (hc : s.call = .process v) (hu : updates s.prog = true)
    (hr : lookup OrderRow.key core.tables.orders (key v) = some r)
    (hst : r.status = .notifyRequested) : Repeats threshold core.tables v r := by
  simpa [inTurn, processOnly, hs, overtakes, hc, hu, hr, hst] using h

theorem Invariant.step (hi : Invariant threshold core) (ha : inTurn threshold core a = true)
    (h : core.Step threshold a core') : Invariant threshold core' := by
  have hv : ∀ v, Verdict core v → Verdict core' v := by
    rintro v ⟨s, hs, hc⟩
    obtain ⟨s', hs', hc'⟩ := h.exists_call hs
    exact ⟨s', hs', hc'.trans hc⟩
  refine ⟨hi.isolated.step h, ?_, ?_⟩
  · refine hi.isolated.sessions_step h hi.points ?_ ?_ ?_ ?_
    · rintro call now rfl
      obtain ⟨v, rfl⟩ := inTurn_start ha
      exact ⟨v, rfl, .reading rfl rfl rfl⟩
    · rintro i move s s' rfl hs hl ⟨v, hc, hat⟩
      refine ⟨v, hl.call_eq.trans hc, hat.local hl fun r hm hu hr hst => ?_⟩
      subst hm
      exact inTurn_exec ha hs hc hu hr hst
    · rintro s next prog - hs hpr ⟨v, hc, hat⟩
      exact ⟨v, Session.afterCommit_call.trans hc, hat.commit hs hpr⟩
    · rintro s t next - - hap - ⟨v, -, hs⟩ ⟨w, hc, ht⟩
      exact ⟨w, hc, hs.stable ht hap⟩
  · have hcv : ∀ r ∈ core.tables.orders,
        Consistent threshold (Verdict core') core.tables.outbox r :=
      fun r hr => (hi.consistent r hr).mono hv
    intro r hr
    cases h with
    | start => exact hcv r hr
    | perform => exact hcv r hr
    | commit hs hpr =>
      obtain ⟨v, hc, hat⟩ := hi.points _ (List.mem_of_getElem? hs)
      exact hat.consistent_commit hi.isolated.orders_nodup hi.isolated.outbox_nodup hcv
        (hv v ⟨_, List.mem_of_getElem? hs, hc⟩) hpr r hr

/--
From orders that wait for their verdict and have no notify event, every interleaving of
verdicts in which no update overtakes a notification keeps every order consistent.
-/
theorem verdictConsistent_of_not_overtaken
    (ho : (tables.orders.map OrderRow.key).Nodup)
    (hb : (tables.outbox.map OutboxRow.dedupKey).Nodup)
    (hw : ∀ r ∈ tables.orders, r.status = .assessRequested)
    (hn : ∀ r ∈ tables.orders, ∀ e ∈ tables.outbox, e.dedupKey ≠ notifyKey r.key)
    (h : Reach (Core.step threshold) (fun core a => inTurn threshold core a = true)
      { tables := tables } core) : VerdictConsistent threshold core := by
  have hinit : Invariant threshold { tables := tables } := by
    refine ⟨.init ho hb, by simp, fun r hr => ?_⟩
    have hs := hw r hr
    refine ⟨iff_of_false ?_ (by simp [hs]), fun e he hk => absurd hk (hn r hr e he), ?_, ?_⟩
    · rintro ⟨e, he, hk⟩; exact hn r hr e he hk
    · simp [hs]
    · simp [hs]
  exact (h.invariant hinit fun _ _ _ _ hi ha hs => hi.step ha (Core.step_cases hs)).consistent

def raceOrder : OrderRow := newOrderRow { source := .profi, externalId := "1", payload := .null }

def raceYes : AssessmentOutcome := ⟨"1", 80, { text := "yes" }, by decide, by decide⟩

def raceNo : AssessmentOutcome := ⟨"1", 10, { text := "no" }, by decide, by decide⟩

/-- A rejection, a notification and its second delivery: all of them read the order before any
of them updates it, and the notification does not come before the rejection. -/
def inOrder : List Action :=
  [.start (.process raceNo) 0, .start (.process raceYes) 0, .start (.process raceYes) 0,
    .perform 0 .exec, .perform 1 .exec, .perform 2 .exec, .perform 0 .exec, .commit 0 true,
    .perform 1 .exec, .perform 1 .exec, .commit 1 true, .perform 2 .exec, .perform 2 .exec,
    .commit 2 true]

/-- Both handlers read the order before either of them updates it. -/
def race : List Action :=
  [.start (.process raceYes) 0, .start (.process raceNo) 0, .perform 0 .exec, .perform 1 .exec,
    .perform 0 .exec, .perform 0 .exec, .commit 0 true, .perform 1 .exec, .commit 1 true]

theorem verdictConsistent_inOrder :
    ∃ core, VerdictConsistent 70 core ∧
      core.tables.orders = [verdictRow .notifyRequested raceYes raceOrder] ∧
      core.tables.outbox = [notifyRow 0 raceYes] := by
  have hrun : run (guarded (Core.step 70) (inTurn 70)) { tables := { orders := [raceOrder] } }
      inOrder = some
        { tables := ⟨[verdictRow .notifyRequested raceYes raceOrder], [notifyRow 0 raceYes]⟩
          sessions := [{ call := .process raceNo, now := 0, prog := .ret },
            { call := .process raceYes, now := 0, prog := .ret },
            { call := .process raceYes, now := 0, prog := .ret }] } := rfl
  exact ⟨_, verdictConsistent_of_not_overtaken (by decide) (by decide) (by decide) (by decide)
    (Reach.of_run hrun), rfl, rfl⟩

/--
The rejection overwrites the notification that was committed first, and the notify
event stays.
-/
theorem not_verdictConsistent_race :
    ¬ ∀ (threshold : ℤ) (tables : Tables) (core : Core),
      (tables.orders.map OrderRow.key).Nodup → (tables.outbox.map OutboxRow.dedupKey).Nodup →
      (∀ r ∈ tables.orders, r.status = .assessRequested) →
      (∀ r ∈ tables.orders, ∀ e ∈ tables.outbox, e.dedupKey ≠ notifyKey r.key) →
      Reach (Core.step threshold) (fun _ a => processOnly a = true) { tables := tables } core →
      (∀ s ∈ core.sessions, s.prog.ended = true) → VerdictConsistent threshold core := by
  intro h
  have hrun : run (guarded (Core.step 70) fun _ => processOnly)
      { tables := { orders := [raceOrder] } } race = some
        { tables := ⟨[verdictRow .noNotify raceNo raceOrder], [notifyRow 0 raceYes]⟩
          sessions := [{ call := .process raceYes, now := 0, prog := .ret },
            { call := .process raceNo, now := 0, prog := .ret }] } := rfl
  have hc := h 70 _ _ (by decide) (by decide) (by decide) (by decide) (Reach.of_run hrun)
    (by simp [Prog.ended])
  have hs := (hc _ List.mem_cons_self).notified_iff.mp ⟨_, List.mem_cons_self, rfl⟩
  cases hs

end ProcessAssessment

end ProfiNotifications.OrderCore
