import ProfiNotifications.OrderCore.System

/-! # The outbox relay

A run of the relay holds the locks of the rows it claimed while it publishes them, and
marks them in the same transaction. Whatever other runs and producers do meanwhile, a
row becomes published only through the run that has handed its event over, and two
runs that have not failed never claim one row.
-/

namespace ProfiNotifications.OrderCore

open Keyed ReadCommitted Transition

/-- Calls whose programs leave claiming, publishing and marking to the relay. -/
def Call.Admissible : Call → Prop
  | .producer prog => prog.Producer
  | _ => True

def Action.Admissible (a : Action) : Prop := ∀ call now, a = .start call now → call.Admissible

theorem Action.admissible_of_service {a : Action} (h : a.service = true) : a.Admissible := by
  rintro call now rfl
  cases call with
  | producer prog => cases h
  | _ => trivial

def Session.claimedIds (s : Session) : List String := s.claimed.map PendingEvent.id

/-- How often the event with an id has been handed to the publisher. -/
def Session.handedCount (s : Session) (id : String) : ℕ := s.handed.countP fun h => h.1.id = id

def Core.handedCount (core : Core) (id : String) : ℕ :=
  (core.sessions.map fun s => s.handedCount id).sum

/-- The number of aborted or crashed runs that had claimed the event with an id. -/
def Core.abortedCount (core : Core) (id : String) : ℕ :=
  core.sessions.countP fun s => s.prog.raised && decide (id ∈ s.claimedIds)

namespace RelayOutbox

variable {threshold : ℤ} {tables : Tables} {others : List Session} {s s' t : Session}
  {core core' : Core} {a : Action} {move : Move} {rs : List OutboxRow}

/-! ## The points of a run -/

/-- The session has claimed these rows, and they are still pending and locked. -/
structure Holds (tables : Tables) (s : Session) (rs : List OutboxRow) : Prop where
  claimed : s.claimed = rs.map OutboxRow.toEvent
  nodup : (rs.map OutboxRow.dedupKey).Nodup
  locked : ∀ r ∈ rs, r.dedupKey ∈ s.outbox.locks
  committed : ∀ r ∈ rs, lookup OutboxRow.dedupKey tables.outbox r.dedupKey = some r
  pending : ∀ r ∈ rs, r.status = .pending

/-- Where a run of the relay is. -/
inductive At (tables : Tables) (s : Session) : Prop
  | idle (n : ℕ) (hp : s.prog = runOnce n) (hb : s.outbox = {}) (hc : s.claimed = [])
      (hh : s.handed = [])
  | publishing (rs : List OutboxRow) (done todo : List PendingEvent) (held : Holds tables s rs)
      (hp : s.prog = publishAll todo (.markPublished s.claimedIds (.commit .ret)))
      (hc : s.claimed = done ++ todo) (hh : s.handed = done.map fun e => (e, true))
      (hw : s.outbox.writes = [])
  | marked (rs : List OutboxRow) (held : Holds tables s rs) (hp : s.prog = .commit .ret)
      (hh : s.handed = s.claimed.map fun e => (e, true))
      (hw : s.outbox.writes = rs.map (publishRow s.now))
  | returned (rs : List OutboxRow) (hp : s.prog = .ret) (hb : s.outbox = {})
      (hc : s.claimed = rs.map OutboxRow.toEvent) (hn : (rs.map OutboxRow.dedupKey).Nodup)
      (hh : s.handed = s.claimed.map fun e => (e, true))
      (hr : ∀ r ∈ rs, r ∈ tables.outbox ∧ r.status = .published)
  | raised (e : Failure) (hp : s.prog = .raise e) (hb : s.outbox = {})
      (hn : s.claimedIds.Nodup) (hh : s.handed.map Prod.fst <+: s.claimed)

/-- A session that only writes new pending events. -/
structure Produces (tables : Tables) (s : Session) : Prop where
  prog : s.prog.Producer
  claimed : s.claimed = []
  handed : s.handed = []
  locks : s.outbox.locks = []
  writes : ∀ w ∈ s.outbox.writes,
    w.status = .pending ∧ w.dedupKey ∉ tables.outbox.map OutboxRow.dedupKey

/-- A session relays, or produces. -/
def Point (tables : Tables) (s : Session) : Prop := At tables s ∨ Produces tables s

theorem claimedIds_of_claimed (h : s.claimed = rs.map OutboxRow.toEvent) :
    s.claimedIds = rs.map OutboxRow.dedupKey := by
  rw [Session.claimedIds, h, List.map_map]; rfl

theorem Holds.ids (h : Holds tables s rs) : s.claimedIds = rs.map OutboxRow.dedupKey :=
  claimedIds_of_claimed h.claimed

theorem Holds.congr (h : Holds tables s rs) (hc : s'.claimed = s.claimed)
    (hl : s'.outbox.locks = s.outbox.locks) : Holds tables s' rs :=
  ⟨hc.trans h.claimed, h.nodup, fun r hr => hl ▸ h.locked r hr, h.committed, h.pending⟩

theorem Produces.resume {prog : Prog} (h : Produces tables s) (hp : prog.Producer) :
    Produces tables (s.resume prog) := by
  refine ⟨by simpa using hp, by simpa using h.claimed, by simpa using h.handed, ?_, ?_⟩ <;>
    rcases s.resume_outbox prog with hb | hb <;> rw [hb]
  exacts [h.locks, h.writes, by simp]

theorem Produces.local (h : LocalStep tables others s move s') (hs : Produces tables s) :
    Produces tables s' := by
  rcases h.inv with ⟨-, m, rfl⟩ | hi
  · exact hs.resume (.raise _)
  obtain ⟨hp, hc, hh, hl, hw⟩ := hs
  cases hprog : s.prog with
  | insertNew order next =>
    simp only [Session.After, hprog] at hi
    obtain ⟨tx, b, -, rfl⟩ := hi
    rw [hprog] at hp
    cases hp with
    | insertNew hn => exact .resume ⟨.insertNew hn, hc, hh, hl, hw⟩ (hn b)
  | get source externalId next =>
    simp only [Session.After, hprog] at hi
    subst hi
    rw [hprog] at hp
    cases hp with
    | get hn => exact .resume ⟨hprog ▸ .get hn, hc, hh, hl, hw⟩ (hn _)
  | setStatus source externalId status score next =>
    simp only [Session.After, hprog] at hi
    obtain ⟨tx, b, -, -, rfl⟩ := hi
    rw [hprog] at hp
    cases hp with
    | setStatus hn => exact .resume ⟨.setStatus hn, hc, hh, hl, hw⟩ (hn b)
  | add destination dedupKey payload next =>
    simp only [Session.After, hprog] at hi
    obtain ⟨tx, b, hu, rfl⟩ := hi
    rw [hprog] at hp
    cases hp with
    | add hn =>
      refine .resume ⟨.add hn, hc, hh, ?_, ?_⟩ hn
      · rcases insertOrIgnore_cases hu with ⟨-, rfl, -⟩ | ⟨-, rfl, -⟩ <;> exact hl
      · rcases insertOrIgnore_cases hu with ⟨-, rfl, -⟩ | ⟨-, rfl, hk, -, -⟩
        · exact hw
        · intro w hw'
          rcases List.mem_append.mp hw' with hw' | hw'
          · exact hw w hw'
          · rw [List.mem_singleton.mp hw']; exact ⟨rfl, hk⟩
  | claimPending => rw [hprog] at hp; cases hp
  | publish => rw [hprog] at hp; cases hp
  | markPublished => rw [hprog] at hp; cases hp
  | _ => simp only [Session.After, hprog] at hi

theorem publishAll_not_ended (events : List PendingEvent) (ids : List String) (next : Prog) :
    (publishAll events (.markPublished ids next)).ended = false := by
  cases events <;> rfl

theorem At.abort (hn : s.claimedIds.Nodup) (hh : s.handed.map Prod.fst <+: s.claimed)
    {e : Failure} : At tables (s.abort e) :=
  .raised e (by simp) rfl (by simpa [Session.claimedIds] using hn) (by simpa using hh)

theorem At.claimed_nodup (h : At tables s) : s.claimedIds.Nodup := by
  cases h with
  | idle _ _ _ hc => rw [Session.claimedIds, hc]; exact List.nodup_nil
  | publishing _ _ _ held => rw [held.ids]; exact held.nodup
  | marked _ held => rw [held.ids]; exact held.nodup
  | returned _ _ _ hc hn => rw [claimedIds_of_claimed hc]; exact hn
  | raised _ _ _ hn => exact hn

theorem At.handed_prefix (h : At tables s) : s.handed.map Prod.fst <+: s.claimed := by
  cases h with
  | idle _ _ _ _ hh => rw [hh]; exact List.nil_prefix
  | publishing _ _ _ _ _ hc hh =>
    rw [hh, hc, List.map_map]
    simp [Function.comp_def]
  | marked _ _ _ hh => rw [hh, List.map_map]; simp [Function.comp_def]
  | returned _ _ _ _ _ hh => rw [hh, List.map_map]; simp [Function.comp_def]
  | raised _ _ _ _ hh => exact hh

theorem mem_of_claimResult {n : ℕ} (hb : s.outbox = {})
    (h : ClaimResult tables.outbox (others.map Session.outbox) s.outbox n rs) {r : OutboxRow}
    (hr : r ∈ rs) : r ∈ tables.outbox ∧ r.status = .pending ∧
      ¬ OwnedElsewhere OutboxRow.dedupKey (others.map Session.outbox) r.dedupKey := by
  obtain ⟨hv, hp, ho⟩ := mem_unlocked.mp (h.subset r hr)
  rw [hb] at hv
  exact ⟨hv, by simpa using hp, ho⟩

/-- A run of the relay goes from point to point. -/
theorem At.local (hu : (tables.outbox.map OutboxRow.dedupKey).Nodup)
    (h : LocalStep tables others s move s') (ha : At tables s) : At tables s' := by
  rcases h.inv with ⟨-, m, rfl⟩ | hi
  · exact .abort ha.claimed_nodup ha.handed_prefix
  cases ha with
  | idle n hp hb hc hh =>
    simp only [Session.After, hp, runOnce] at hi
    obtain ⟨rs, hr, rfl⟩ := hi
    have hclaim := fun r hr' => mem_of_claimResult hb hr (r := r) hr'
    cases rs with
    | nil => exact .returned [] rfl rfl (by simp [hc]) (by simp) (by simp [hc, hh]) (by simp)
    | cons r rs =>
      show At tables (Session.resume _ (publishAll ((r :: rs).map OutboxRow.toEvent)
        (.markPublished (((r :: rs).map OutboxRow.toEvent).map PendingEvent.id) (.commit .ret))))
      rw [Session.resume_of_not_ended (publishAll_not_ended _ _ _)]
      refine .publishing (r :: rs) [] ((r :: rs).map OutboxRow.toEvent) ⟨?_, hr.nodup, ?_, ?_, ?_⟩
        ?_ (by rw [hc]) (by simp [hh]) (by rw [hb]; rfl)
      · rw [hc, List.nil_append]
      · exact fun r hr' => List.mem_append_right _ (List.mem_map_of_mem hr')
      · exact fun r hr' => lookup_of_mem hu (hclaim r hr').1
      · exact fun r hr' => (hclaim r hr').2.1
      · simp only [Session.claimedIds, hc, List.nil_append]
  | publishing rs done todo held hp hc hh hw =>
    cases todo with
    | nil =>
      simp only [Session.After, hp, publishAll] at hi
      obtain ⟨tx, hm, rfl⟩ := hi
      rw [held.ids] at hm
      have htx := updateAll_writes (by intro r; rfl) held.nodup
        (fun r _ => by rw [Pending.written, hw]; exact List.not_mem_nil) held.committed hm
      refine .marked rs (held.congr rfl (by rw [htx]; rfl)) rfl ?_ ?_
      · rw [List.append_nil] at hc
        exact hc ▸ hh
      · rw [htx, hw, List.nil_append]
        rfl
    | cons event todo =>
      simp only [Session.After, hp, publishAll] at hi
      rcases hi with rfl | rfl
      · rw [Session.resume_of_not_ended (publishAll_not_ended _ _ _)]
        exact .publishing rs (done ++ [event]) todo (held.congr rfl rfl) rfl (by simp [hc])
          (by simp [hh]) hw
      · have hn : s.claimedIds.Nodup := held.ids ▸ held.nodup
        refine .abort ?_ (by simp [hh, hc, Function.comp_def])
        exact hn
  | marked rs held hp => simp only [Session.After, hp] at hi
  | returned rs hp => simp only [Session.After, hp] at hi
  | raised e hp => simp only [Session.After, hp] at hi

/-! ## Commits -/

theorem Point.overwrites (h : Point tables s) {w r : OutboxRow} (hw : w ∈ s.outbox.writes)
    (hr : r ∈ tables.outbox) (hk : r.dedupKey = w.dedupKey)
    (hu : (tables.outbox.map OutboxRow.dedupKey).Nodup) :
    r.status = .pending ∧ w.toEvent = r.toEvent := by
  rcases h with h | h
  · cases h with
    | idle _ _ hb => simp [hb] at hw
    | publishing _ _ _ _ _ _ _ hw' => simp [hw'] at hw
    | marked rs held _ _ hw' =>
      rw [hw'] at hw
      obtain ⟨r', hr', rfl⟩ := List.mem_map.mp hw
      obtain rfl := eq_of_key_eq hu hr (mem_of_lookup (held.committed r' hr')).1 hk
      exact ⟨held.pending r hr', rfl⟩
    | returned _ _ hb => simp [hb] at hw
    | raised _ _ hb => simp [hb] at hw
  · exact absurd (hk ▸ List.mem_map_of_mem hr) (h.writes w hw).2

theorem Point.published_stays (h : Point tables s)
    (hu : (tables.outbox.map OutboxRow.dedupKey).Nodup)
    (hs : s.outbox.WellFormed OutboxRow.dedupKey tables.outbox) {r : OutboxRow}
    (hr : r ∈ tables.outbox) (hp : r.status = .published) :
    r ∈ (s.committed tables).outbox := by
  refine (mem_overlay hu hs.nodup).mpr (Or.inr ⟨hr, fun hk => ?_⟩)
  obtain ⟨w, hw, hk⟩ := List.mem_map.mp hk
  rw [(h.overwrites hw hr hk.symm hu).1] at hp
  cases hp

theorem Point.event_stays (h : Point tables s)
    (hu : (tables.outbox.map OutboxRow.dedupKey).Nodup)
    (hs : s.outbox.WellFormed OutboxRow.dedupKey tables.outbox) {r : OutboxRow}
    (hr : r ∈ tables.outbox) :
    ∃ r' ∈ (s.committed tables).outbox, r'.toEvent = r.toEvent := by
  by_cases hk : r.dedupKey ∈ s.outbox.written OutboxRow.dedupKey
  · obtain ⟨w, hw, hk⟩ := List.mem_map.mp hk
    exact ⟨w, (mem_overlay hu hs.nodup).mpr (Or.inl hw), (h.overwrites hw hr hk.symm hu).2⟩
  · exact ⟨r, (mem_overlay hu hs.nodup).mpr (Or.inr ⟨hr, hk⟩), rfl⟩

theorem Point.published_by (h : Point tables s)
    (hu : (tables.outbox.map OutboxRow.dedupKey).Nodup)
    (hs : s.outbox.WellFormed OutboxRow.dedupKey tables.outbox) {r : OutboxRow}
    (hr : r ∈ (s.committed tables).outbox) (hp : r.status = .published) :
    r ∈ tables.outbox ∨ (r.toEvent, true) ∈ s.handed := by
  rcases (mem_overlay hu hs.nodup).mp hr with hr | ⟨hr, -⟩
  · right
    rcases h with h | h
    · cases h with
      | idle _ _ hb => simp [hb] at hr
      | publishing _ _ _ _ _ _ _ hw' => simp [hw'] at hr
      | marked rs held _ hh hw =>
        rw [hw] at hr
        obtain ⟨r', hr', rfl⟩ := List.mem_map.mp hr
        rw [hh, held.claimed]
        exact List.mem_map.mpr ⟨_, List.mem_map_of_mem hr', rfl⟩
      | returned _ _ hb => simp [hb] at hr
      | raised _ _ hb => simp [hb] at hr
    · rw [(h.writes r hr).1] at hp
      cases hp
  · exact Or.inl hr

theorem Holds.stable (h : Holds tables t rs) (ha : s.Apart t) :
    Holds (s.committed tables) t rs := by
  refine ⟨h.claimed, h.nodup, h.locked, fun r hr => ?_, h.pending⟩
  refine (lookup_commit_of_not_written (ha.outbox _ ?_)).trans (h.committed r hr)
  exact mem_owned.mpr (Or.inr (h.locked r hr))

theorem Point.stable (hs : Point tables s) (ht : Point tables t) (ha : s.Apart t)
    (hu : (tables.outbox.map OutboxRow.dedupKey).Nodup)
    (hw : s.outbox.WellFormed OutboxRow.dedupKey tables.outbox) :
    Point (s.committed tables) t := by
  rcases ht with ht | ht
  · left
    cases ht with
    | idle n hp hb hc hh => exact .idle n hp hb hc hh
    | publishing rs done todo held hp hc hh hw =>
      exact .publishing rs done todo (held.stable ha) hp hc hh hw
    | marked rs held hp hh hw => exact .marked rs (held.stable ha) hp hh hw
    | returned rs hp hb hc hn hh hr =>
      exact .returned rs hp hb hc hn hh fun r h =>
        ⟨hs.published_stays hu hw (hr r h).1 (hr r h).2, (hr r h).2⟩
    | raised e hp hb hn hh => exact .raised e hp hb hn hh
  · right
    refine ⟨ht.prog, ht.claimed, ht.handed, ht.locks,
      fun w hw' => ⟨(ht.writes w hw').1, fun hk => ?_⟩⟩
    rcases mem_keys_commit.mp hk with hk | hk
    · exact (ht.writes w hw').2 hk
    · exact ha.outbox _ (mem_owned.mpr (Or.inl (List.mem_map_of_mem hw'))) hk

theorem Point.commit {next prog : Prog} (h : Point tables s)
    (hu : (tables.outbox.map OutboxRow.dedupKey).Nodup)
    (hw : s.outbox.WellFormed OutboxRow.dedupKey tables.outbox) (hp : s.prog = .commit next)
    (hn : prog = next ∨ ∃ m, prog = .raise (.other m)) :
    Point (s.committed tables) (s.afterCommit prog) := by
  rcases h with h | h
  · left
    cases h with
    | idle _ hp' => exact absurd (hp.symm.trans hp') (by simp [runOnce])
    | publishing _ _ todo _ hp' =>
      exact absurd (hp.symm.trans hp') (by cases todo <;> simp [publishAll])
    | marked rs held hp' hh hw' =>
      have ha : At tables s := .marked rs held hp' hh hw'
      obtain rfl := Prog.commit.inj (hp.symm.trans hp')
      rcases hn with rfl | ⟨m, rfl⟩
      · refine .returned (rs.map (publishRow s.now)) rfl rfl ?_ ?_ hh ?_
        · exact held.claimed.trans (by rw [List.map_map]; rfl)
        · rw [List.map_map]; exact held.nodup
        · intro r hr
          refine ⟨(mem_overlay hu hw.nodup).mpr (Or.inl (hw' ▸ hr)), ?_⟩
          obtain ⟨r', -, rfl⟩ := List.mem_map.mp hr
          rfl
      · exact .raised _ rfl rfl ha.claimed_nodup ha.handed_prefix
    | returned _ hp' => exact absurd (hp.symm.trans hp') (by simp)
    | raised _ hp' => exact absurd (hp.symm.trans hp') (by simp)
  · right
    have hprod : prog.Producer := by
      rcases hn with rfl | ⟨m, rfl⟩
      · have := h.prog
        rw [hp] at this
        cases this with
        | commit hn => exact hn
      · exact .raise _
    exact ⟨by simpa [Session.afterCommit] using hprod,
      by simpa [Session.afterCommit] using h.claimed,
      by simpa [Session.afterCommit] using h.handed, by simp, by simp⟩

theorem Point.handed_claimed (h : Point tables s) {e : PendingEvent × Bool}
    (he : e ∈ s.handed) : e.1 ∈ s.claimed := by
  rcases h with h | h
  · exact h.handed_prefix.subset (List.mem_map_of_mem he)
  · rw [h.handed] at he
    cases he

/-! ## Runs -/

theorem Point.opened {call : Call} {now : ℕ} (h : call.Admissible) :
    Point tables (Session.opened threshold call now) := by
  cases call with
  | relay n => exact Or.inl (.idle n rfl rfl rfl rfl)
  | ingest batch => exact Or.inr ⟨IngestOrders.handle_producer batch, rfl, rfl, rfl, by
      simp [Session.opened]⟩
  | process v => exact Or.inr ⟨ProcessAssessment.handle_producer threshold v, rfl, rfl, rfl, by
      simp [Session.opened]⟩
  | producer prog => exact Or.inr ⟨h, rfl, rfl, rfl, by simp [Session.opened]⟩

theorem Point.local (hu : (tables.outbox.map OutboxRow.dedupKey).Nodup)
    (h : LocalStep tables others s move s') (hs : Point tables s) : Point tables s' :=
  hs.imp (At.local hu h) (Produces.local h)

theorem Point.claims (h : LocalStep tables others s move s') (hs : Point tables s)
    {e : PendingEvent} (he : e ∈ s'.claimed) : e ∈ s.claimed ∨ ∃ r ∈ tables.outbox, r.toEvent = e ∧
      r.status = .pending ∧
        ¬ OwnedElsewhere OutboxRow.dedupKey (others.map Session.outbox) e.id := by
  cases h with
  | claim hp h =>
    rename_i limit next rows
    rw [Session.resume_claimed, List.mem_append] at he
    refine he.imp_right fun he => ?_
    obtain ⟨r, hr, rfl⟩ := List.mem_map.mp he
    have hb : s.outbox = {} := by
      rcases hs with hs | hs
      · cases hs with
        | idle _ _ hb => exact hb
        | publishing _ _ todo _ hp' =>
          exact absurd (hp.symm.trans hp') (by cases todo <;> simp [publishAll])
        | marked _ _ hp' => exact absurd (hp.symm.trans hp') (by simp)
        | returned _ _ hb => exact hb
        | raised _ _ hb => exact hb
      · have := hs.prog
        rw [hp] at this
        cases this
    obtain ⟨hm, hst, ho⟩ := mem_of_claimResult hb h hr
    exact ⟨r, hm, rfl, hst, ho⟩
  | _ => exact Or.inl (by simpa using he)

theorem Point.keeps (h : Point tables s) (hr : s.prog.raised = false) {id : String}
    (hid : id ∈ s.claimedIds) : id ∈ s.outbox.locks ∨
      ∃ r ∈ tables.outbox, r.dedupKey = id ∧ r.status = .published := by
  rcases h with h | h
  · have hheld : ∀ {rs}, Holds tables s rs → id ∈ s.outbox.locks := by
      intro rs held
      rw [held.ids] at hid
      obtain ⟨r, hr, rfl⟩ := List.mem_map.mp hid
      exact held.locked r hr
    cases h with
    | idle _ _ _ hc => simp [Session.claimedIds, hc] at hid
    | publishing _ _ _ held => exact Or.inl (hheld held)
    | marked _ held => exact Or.inl (hheld held)
    | returned rs _ _ hc _ _ hp =>
      rw [claimedIds_of_claimed hc] at hid
      obtain ⟨r, hr, rfl⟩ := List.mem_map.mp hid
      exact Or.inr ⟨r, (hp r hr).1, rfl, (hp r hr).2⟩
    | raised e hp => rw [hp] at hr; cases hr
  · simp [Session.claimedIds, h.claimed] at hid

/-- Two sessions that have not failed never claim the same row. -/
def DisjointClaims (sessions : List Session) : Prop :=
  ∀ ⦃i j : ℕ⦄ ⦃s t : Session⦄, i ≠ j → sessions[i]? = some s → sessions[j]? = some t →
    s.prog.raised = false → t.prog.raised = false → ∀ id ∈ s.claimedIds, id ∉ t.claimedIds

theorem DisjointClaims.start {l : List Session} (h : DisjointClaims l) {call : Call} {now : ℕ} :
    DisjointClaims (l ++ [Session.opened threshold call now]) := by
  have hlast : ∀ {i : ℕ} {u : Session}, (l ++ [Session.opened threshold call now])[i]? = some u →
      l[i]? = some u ∨ u.claimedIds = [] := by
    intro i u hu
    rw [List.getElem?_append] at hu
    split at hu
    · exact Or.inl hu
    · exact Or.inr (List.mem_singleton.mp (List.mem_of_getElem? hu) ▸ rfl)
  intro i j u w hij hu hw hru hrw id hid hid'
  rcases hlast hu with hu | hu
  · rcases hlast hw with hw | hw
    · exact h hij hu hw hru hrw id hid hid'
    · rw [hw] at hid'; cases hid'
  · rw [hu] at hid; cases hid

theorem DisjointClaims.set {l : List Session} (h : DisjointClaims l) {i : ℕ}
    (hi : l[i]? = some s) (hnew : ∀ j t, j ≠ i → l[j]? = some t → s'.prog.raised = false →
      t.prog.raised = false → ∀ id ∈ s'.claimedIds, id ∉ t.claimedIds) :
    DisjointClaims (l.set i s') := by
  have hlt := (List.getElem?_eq_some_iff.mp hi).1
  intro a b u w hab hu hw hru hrw id hid hid'
  rw [List.getElem?_set] at hu hw
  by_cases hia : i = a
  · subst hia
    rw [if_pos rfl, if_pos hlt] at hu
    rw [if_neg hab] at hw
    obtain rfl := Option.some.inj hu
    exact hnew b w (Ne.symm hab) hw hru hrw id hid hid'
  · rw [if_neg hia] at hu
    by_cases hib : i = b
    · subst hib
      rw [if_pos rfl, if_pos hlt] at hw
      obtain rfl := Option.some.inj hw
      exact hnew a u hab hu hrw hru id hid' hid
    · rw [if_neg hib] at hw
      exact h hab hu hw hru hrw id hid hid'

structure Invariant (core : Core) : Prop where
  isolated : core.Isolated
  points : ∀ s ∈ core.sessions, Point core.tables s
  disjoint : DisjointClaims core.sessions

theorem Invariant.init (ho : (tables.orders.map OrderRow.key).Nodup)
    (hu : (tables.outbox.map OutboxRow.dedupKey).Nodup) : Invariant { tables := tables } :=
  ⟨.init ho hu, by simp, by intro i j s t _ hs; simp at hs⟩

theorem Invariant.step (hi : Invariant core) (ha : a.Admissible)
    (h : core.Step threshold a core') : Invariant core' := by
  obtain ⟨hc, hp, hd⟩ := hi
  refine ⟨hc.step h, ?_, ?_⟩
  · refine hc.sessions_step h hp ?_ ?_ ?_ ?_
    · exact fun call now he => .opened (ha call now he)
    · exact fun i move s s' _ _ hl hs => hs.local hc.outbox_nodup hl
    · exact fun s next prog hs hpr hn hpt =>
        hpt.commit hc.outbox_nodup (hc.outbox_wellFormed s hs) hpr hn
    · exact fun s t next hs _ hap _ hps hpt =>
        hps.stable hpt hap hc.outbox_nodup (hc.outbox_wellFormed s hs)
  · cases h with
    | start call now => exact hd.start
    | @perform i move s s' hs hl =>
      refine hd.set hs fun j t hj ht hrs hrt id hid hid' => ?_
      have hps := hp s (List.mem_of_getElem? hs)
      have hpt := hp t (List.mem_of_getElem? ht)
      obtain ⟨e, he, rfl⟩ := List.mem_map.mp hid
      rcases hps.claims hl he with he | ⟨r, hr, rfl, hst, ho⟩
      · exact hd (Ne.symm hj) hs ht (Prog.raised_of_not_ended hl.not_ended) hrt _
          (List.mem_map_of_mem he) hid'
      · rcases hpt.keeps hrt hid' with hlock | ⟨r', hr', hk', hst'⟩
        · refine ho ⟨t.outbox, ?_, mem_owned.mpr (Or.inr hlock)⟩
          exact List.mem_map_of_mem (List.mem_eraseIdx_iff_getElem?.mpr ⟨j, hj, ht⟩)
        · obtain rfl := eq_of_key_eq hc.outbox_nodup hr hr' hk'.symm
          rw [hst] at hst'
          cases hst'
    | @commit i s next prog acknowledged hs hpr hn =>
      refine hd.set hs fun j t hj ht hrs hrt id hid hid' => ?_
      rw [Session.claimedIds, Session.afterCommit_claimed] at hid
      exact hd (Ne.symm hj) hs ht (by rw [hpr]; rfl) hrt id hid hid'

theorem Invariant.of_reach (hi : Invariant core)
    (h : Reach (Core.step threshold) (fun _ a => a.Admissible) core core') : Invariant core' :=
  h.invariant hi fun _ _ _ _ hi ha hs => hi.step ha (Core.step_cases hs)

/-! ## Counting -/

theorem countP_le_one {α : Type*} {p : α → Bool} {l : List α}
    (h : ∀ ⦃i j : ℕ⦄ ⦃a b : α⦄, i ≠ j → l[i]? = some a → l[j]? = some b → p a = true →
      p b = false) : l.countP p ≤ 1 := by
  induction l with
  | nil => simp
  | cons a l ih =>
    have ih := ih fun i j b c hij hb hc => @h (i + 1) (j + 1) b c (by omega) hb hc
    by_cases ha : p a = true
    · have hz : l.countP p = 0 := by
        refine List.countP_eq_zero.mpr fun b hb => ?_
        obtain ⟨j, hj⟩ := List.getElem?_of_mem hb
        simp [@h 0 (j + 1) a b (by omega) rfl hj ha]
      rw [List.countP_cons_of_pos ha, hz]
    · rwa [List.countP_cons_of_neg ha]

/-- A session hands over what it has claimed, at most once. -/
theorem Point.handedCount_le (h : Point tables s) (id : String) :
    s.handedCount id ≤ if id ∈ s.claimedIds then 1 else 0 := by
  rcases h with h | h
  · have hsub : s.handedCount id ≤ s.claimedIds.count id := by
      have hle : (s.handed.map Prod.fst).countP (fun e => decide (e.id = id)) ≤
          s.claimed.countP fun e => decide (e.id = id) := h.handed_prefix.sublist.countP_le
      rw [List.countP_map] at hle
      rw [Session.claimedIds, List.count, List.countP_map]
      simpa [Session.handedCount, Function.comp_def, beq_eq_decide] using hle
    split
    · exact hsub.trans (List.nodup_iff_count_le_one.mp h.claimed_nodup id)
    · rename_i hid
      rwa [List.count_eq_zero.mpr hid] at hsub
  · simp [Session.handedCount, h.handed]

theorem handedCount_le_countP {sessions : List Session}
    (h : ∀ s ∈ sessions, Point tables s) (id : String) :
    (sessions.map fun s => s.handedCount id).sum ≤
      sessions.countP (fun s => !s.prog.raised && decide (id ∈ s.claimedIds)) +
        sessions.countP fun s => s.prog.raised && decide (id ∈ s.claimedIds) := by
  induction sessions with
  | nil => simp
  | cons s sessions ih =>
    have ih := ih fun t ht => h t (List.mem_cons_of_mem _ ht)
    have hs := (h s List.mem_cons_self).handedCount_le id
    rw [List.map_cons, List.sum_cons, List.countP_cons, List.countP_cons]
    cases s.prog.raised <;> by_cases hid : id ∈ s.claimedIds <;> simp [hid] at hs ⊢ <;> omega

theorem Invariant.handedCount_le (hi : Invariant core) (id : String) :
    core.handedCount id ≤ 1 + core.abortedCount id := by
  have hone : core.sessions.countP
      (fun s => !s.prog.raised && decide (id ∈ s.claimedIds)) ≤ 1 := by
    refine countP_le_one fun i j s t hij hs ht h => ?_
    simp only [Bool.and_eq_true, Bool.not_eq_true', decide_eq_true_eq] at h
    rcases hrt : t.prog.raised with _ | _
    · simp [hi.disjoint hij hs ht h.1 hrt id h.2]
    · rfl
  have hle := handedCount_le_countP hi.points id
  simp only [Core.handedCount, Core.abortedCount]
  omega

theorem Point.hands (h : LocalStep tables others s move s') (hs : Point tables s) (id : String) :
    s'.handedCount id = s.handedCount id ∨
      ∃ r ∈ tables.outbox, r.dedupKey = id ∧ r.status = .pending := by
  have hpub : ∀ {event : PendingEvent} {next : Prog} (ok : Bool), s.prog = .publish event next →
      (s.handed ++ [(event, ok)]).countP (fun h => decide (h.1.id = id)) = s.handedCount id ∨
        ∃ r ∈ tables.outbox, r.dedupKey = id ∧ r.status = .pending := by
    intro event next ok hp
    by_cases hid : event.id = id
    · right
      rcases hs with hs | hs
      · cases hs with
        | idle _ hp' => exact absurd (hp.symm.trans hp') (by simp [runOnce])
        | publishing rs done todo held hp' hc =>
          have hmem : event ∈ s.claimed := by
            cases todo with
            | nil => exact absurd (hp.symm.trans hp') (by simp [publishAll])
            | cons e todo =>
              obtain ⟨rfl, -⟩ := Prog.publish.inj (hp.symm.trans hp')
              rw [hc]; simp
          rw [held.claimed] at hmem
          obtain ⟨r, hr, rfl⟩ := List.mem_map.mp hmem
          exact ⟨r, (mem_of_lookup (held.committed r hr)).1, hid, held.pending r hr⟩
        | marked _ _ hp' => exact absurd (hp.symm.trans hp') (by simp)
        | returned _ hp' => exact absurd (hp.symm.trans hp') (by simp)
        | raised _ hp' => exact absurd (hp.symm.trans hp') (by simp)
      · have := hs.prog
        rw [hp] at this
        cases this
    · left
      simp [Session.handedCount, hid]
  cases h with
  | publish hp _ => simpa [Session.handedCount] using hpub true hp
  | unconfirmed hp _ => simpa [Session.handedCount] using hpub false hp
  | _ => left; simp [Session.handedCount]

theorem sum_set_eq {f : Session → ℕ} {l : List Session} {i : ℕ} (hi : l[i]? = some s)
    (hf : f s' = f s) : ((l.set i s').map f).sum = (l.map f).sum := by
  obtain ⟨hlt, rfl⟩ := List.getElem?_eq_some_iff.mp hi
  have hlt' : i < (l.map f).length := by simpa using hlt
  have hget : f l[i] = (l.map f)[i] := by simp
  rw [List.map_set, hf, hget, List.set_getElem_self]

/-- A published row stays as it is, and its event is not handed over again. -/
theorem Invariant.published_step (hi : Invariant core) (h : core.Step threshold a core')
    {r : OutboxRow} (hr : r ∈ core.tables.outbox) (hp : r.status = .published) :
    r ∈ core'.tables.outbox ∧
      core'.handedCount r.dedupKey = core.handedCount r.dedupKey := by
  cases h with
  | start call now => exact ⟨hr, by simp [Core.handedCount, Session.opened, Session.handedCount]⟩
  | perform hs hl =>
    refine ⟨hr, sum_set_eq hs ?_⟩
    rcases (hi.points _ (List.mem_of_getElem? hs)).hands hl r.dedupKey with h | ⟨r', hr', hk, hst⟩
    · exact h
    · obtain rfl := eq_of_key_eq hi.isolated.outbox_nodup hr' hr hk
      rw [hst] at hp
      cases hp
  | commit hs hpr hn =>
    have hm := List.mem_of_getElem? hs
    refine ⟨(hi.points _ hm).published_stays hi.isolated.outbox_nodup
      (hi.isolated.outbox_wellFormed _ hm) hr hp, sum_set_eq hs ?_⟩
    rw [Session.handedCount, Session.afterCommit_handed, Session.handedCount]

theorem Invariant.published_reach (hi : Invariant core)
    (h : Reach (Core.step threshold) (fun _ a => a.Admissible) core core') {r : OutboxRow}
    (hr : r ∈ core.tables.outbox) (hp : r.status = .published) :
    r ∈ core'.tables.outbox ∧
      core'.handedCount r.dedupKey = core.handedCount r.dedupKey := by
  induction h with
  | refl => exact ⟨hr, rfl⟩
  | tail h' _ hs ih =>
    obtain ⟨hm, he⟩ := (hi.of_reach h').published_step (Core.step_cases hs) ih.1 hp
    exact ⟨hm, he.trans ih.2⟩

theorem Invariant.published_by (hi : Invariant core) (h : core.Step threshold a core') :
    (∀ r ∈ core.tables.outbox, ∃ r' ∈ core'.tables.outbox, r'.toEvent = r.toEvent) ∧
    ∀ r ∈ core'.tables.outbox, r.status = .published → r ∈ core.tables.outbox ∨
      ∃ i s acknowledged, a = .commit i acknowledged ∧ core.sessions[i]? = some s ∧
        (r.toEvent, true) ∈ s.handed := by
  cases h with
  | start => exact ⟨fun r hr => ⟨r, hr, rfl⟩, fun r hr _ => Or.inl hr⟩
  | perform => exact ⟨fun r hr => ⟨r, hr, rfl⟩, fun r hr _ => Or.inl hr⟩
  | @commit i s next prog acknowledged hs hpr hn =>
    have hm := List.mem_of_getElem? hs
    have hw := hi.isolated.outbox_wellFormed s hm
    have hpt := hi.points s hm
    refine ⟨fun r hr => hpt.event_stays hi.isolated.outbox_nodup hw hr, fun r hr hp => ?_⟩
    exact (hpt.published_by hi.isolated.outbox_nodup hw hr hp).imp_right fun h =>
      ⟨i, s, acknowledged, rfl, hs, h⟩

/--
Safety of the relay in every interleaving of runs and producers: nothing is published
that was not handed over, no two runs hold a row at once, failed runs alone cause
duplicates, and what is published stays published.
-/
theorem relay_safe (ho : (tables.orders.map OrderRow.key).Nodup)
    (hu : (tables.outbox.map OutboxRow.dedupKey).Nodup)
    (h : Reach (Core.step threshold) (fun _ a => a.Admissible) { tables := tables } core) :
    (∀ a core', a.Admissible → core.step threshold a = some core' →
      (∀ r ∈ core.tables.outbox, ∃ r' ∈ core'.tables.outbox, r'.toEvent = r.toEvent) ∧
      ∀ r ∈ core'.tables.outbox, r.status = .published → r ∈ core.tables.outbox ∨
        ∃ i s acknowledged, a = .commit i acknowledged ∧ core.sessions[i]? = some s ∧
          (r.toEvent, true) ∈ s.handed) ∧
    (∀ (i j : ℕ) (s t : Session), i ≠ j → core.sessions[i]? = some s → core.sessions[j]? = some t →
      s.prog.ended = false → t.prog.ended = false → ∀ id ∈ s.claimedIds, id ∉ t.claimedIds) ∧
    (∀ id, core.handedCount id ≤ 1 + core.abortedCount id) ∧
    (∀ r ∈ core.tables.outbox, r.status = .published → ∀ core',
      Reach (Core.step threshold) (fun _ a => a.Admissible) core core' →
      r ∈ core'.tables.outbox ∧
        core'.handedCount r.dedupKey = core.handedCount r.dedupKey) := by
  have hi := (Invariant.init ho hu).of_reach h
  refine ⟨fun a core' _ hs => hi.published_by (Core.step_cases hs), ?_, hi.handedCount_le,
    fun r hr hp core' hr' => hi.published_reach hr' hr hp⟩
  intro i j s t hij hs ht hes het
  exact hi.disjoint hij hs ht (Prog.raised_of_not_ended hes) (Prog.raised_of_not_ended het)

def pendingRow : OutboxRow := outboxRow 0 .assessRequest "assess:profi:1" .null

/-- Two runs over one row: the first fails after its publish, the second marks it. -/
def secondRun : List Action :=
  [.start (.relay 1) 1, .perform 0 (.claim [pendingRow]), .perform 0 (.publish true),
    .perform 0 (.fail "connection"), .start (.relay 1) 2, .perform 1 (.claim [pendingRow]),
    .perform 1 (.publish true), .perform 1 .exec, .commit 1 true]

theorem relay_safe_secondRun :
    ∃ core : Core, core.tables.outbox = [publishRow 2 pendingRow] ∧
      core.handedCount "assess:profi:1" = 2 ∧ core.abortedCount "assess:profi:1" = 1 ∧
      ∀ id, core.handedCount id ≤ 1 + core.abortedCount id := by
  have hrun : run (guarded (Core.step 70) fun _ a => a.service)
      { tables := { outbox := [pendingRow] } } secondRun = some
        { tables := { outbox := [publishRow 2 pendingRow] }
          sessions := [
            { call := .relay 1, now := 1, prog := .raise (.other "connection")
              claimed := [pendingRow.toEvent], handed := [(pendingRow.toEvent, true)] },
            { call := .relay 1, now := 2, prog := .ret
              claimed := [pendingRow.toEvent], handed := [(pendingRow.toEvent, true)] }] } := rfl
  have hreach := (Reach.of_run hrun).mono fun _ a h => Action.admissible_of_service (a := a) h
  exact ⟨_, rfl, rfl, rfl, (relay_safe (by decide) (by decide) hreach).2.2.1⟩

end RelayOutbox

end ProfiNotifications.OrderCore
