import ProfiNotifications.AuthWorker.Usecase

/-! # A refresh cycle is all or nothing

A cycle that fails leaves the cookie file as it was, whatever the renewal did to the jar.
A cycle that succeeds has saved a jar whose lifetime survives the reload, so the clients
that read the file next are told the lifetime that the cycle reported.
-/

namespace ProfiNotifications.AuthWorker

variable {Bytes : Type}

theorem result_withLock {α : Type} {lock : LockOutcome} (h : lock.acquire = .ok ())
    (dir : Directory Bytes) (body : Directory Bytes → Except AuthError α × Directory Bytes) :
    (withLock lock dir body).result = (body dir).1 ∧
      (withLock lock dir body).directory = (body dir).2 := by
  unfold withLock
  split
  · rename_i e he
    rw [h] at he; cases he
  · exact ⟨rfl, rfl⟩

theorem countP_release_withLock {α : Type} (lock : LockOutcome) (dir : Directory Bytes)
    (body : Directory Bytes → Except AuthError α × Directory Bytes) :
    (withLock lock dir body).calls.countP LockCall.isRelease =
      (withLock lock dir body).calls.countP LockCall.isAcquired := by
  unfold withLock
  split
  · rename_i e he
    rw [he]; rfl
  · rename_i he
    rw [he]; rfl

theorem countP_acquired_withLock {α : Type} (lock : LockOutcome) (dir : Directory Bytes)
    (body : Directory Bytes → Except AuthError α × Directory Bytes) :
    (withLock lock dir body).calls.countP LockCall.isAcquired =
      if lock.acquire.isOk then 1 else 0 := by
  unfold withLock
  split
  · rename_i e he
    rw [he]; rfl
  · rename_i he
    rw [he]; rfl

namespace RefreshAuth

variable {uc : RefreshAuth Bytes} {j k : Jar} {dir : Directory Bytes}
  {outcome : WriteOutcome Bytes} {before : TokenSnapshot} {refreshed : Bool}
  {final : FinalTokens} {r : RefreshResult}

theorem refreshIfNeeded_cases (h : uc.refreshIfNeeded j before = (.ok refreshed, k)) :
    (refreshed = false ∧ k = j ∧
        TokenCodec.needsRefresh before.ttl uc.refreshBeforeSecs = false) ∨
      (refreshed = true ∧ ∃ renewed, k = (uc.codec.removeOldTokenDuplicates renewed).1) := by
  unfold refreshIfNeeded at h
  split at h
  · apply Or.inr
    simp only at h
    split at h
    · cases h
    · split at h
      · cases h
      · cases h
        exact ⟨rfl, _, rfl⟩
  · rename_i hn
    cases h
    exact Or.inl ⟨rfl, rfl, by simpa using hn⟩

theorem finalTokens_eq_ok (h : uc.finalTokens j = .ok final) :
    uc.codec.tokenTTL j (uc.clock .finalTokens) = some final.ttl ∧ 0 < final.ttl := by
  unfold finalTokens at h
  simp only at h
  split at h
  · cases h
  · rename_i ttl ht
    split at h
    · cases h
    · rename_i hpos
      obtain rfl := Except.ok.inj h
      exact ⟨ht, not_le.mp hpos⟩

/-- A successful cycle loaded a jar, kept or renewed it, found it alive and saved it. -/
structure Succeeded (uc : RefreshAuth Bytes) (dir dir' : Directory Bytes) (r : RefreshResult)
    (j k : Jar) (url : String) : Prop where
  loaded : uc.store.load dir.file = .ok (j, url)
  renewed : uc.refreshIfNeeded j (uc.snapshot j) = (.ok r.refreshed, k)
  alive : uc.codec.tokenTTL k (uc.clock .finalTokens) = some r.ttlAfter
  positive : 0 < r.ttlAfter
  saved : dir'.file = .holds (uc.store.saved k url)

/-- A cycle fails and leaves the file alone, or succeeds and replaces it. -/
theorem cycle_cases (uc : RefreshAuth Bytes) (outcome : WriteOutcome Bytes)
    (dir : Directory Bytes) :
    ((∃ e, (uc.cycle outcome dir).1 = .error e) ∧
        (uc.cycle outcome dir).2.file = dir.file) ∨
      ∃ r j k url, (uc.cycle outcome dir).1 = .ok r ∧
        Succeeded uc dir (uc.cycle outcome dir).2 r j k url := by
  unfold cycle
  split
  · exact Or.inl ⟨⟨_, rfl⟩, rfl⟩
  · rename_i j url hload
    simp only
    split
    · exact Or.inl ⟨⟨_, rfl⟩, rfl⟩
    · rename_i refreshed k hrefresh
      split
      · exact Or.inl ⟨⟨_, rfl⟩, rfl⟩
      · rename_i final hfinal
        obtain ⟨halive, hpos⟩ := finalTokens_eq_ok hfinal
        rcases write_cases uc.store.paths outcome (uc.store.saved k url) dir with
          ⟨hok, hfile⟩ | ⟨⟨e, he⟩, hfile⟩
        · split
          · rename_i e dir' hs
            rw [Store.save] at hs
            rw [hs] at hok; cases hok
          · rename_i dir' hs
            rw [Store.save] at hs
            rw [hs] at hfile
            exact Or.inr ⟨_, j, k, url, rfl, hload, hrefresh, halive, hpos, hfile⟩
        · split
          · rename_i e' dir' hs
            rw [Store.save] at hs
            rw [hs] at hfile
            exact Or.inl ⟨⟨_, rfl⟩, hfile⟩
          · rename_i dir' hs
            rw [Store.save] at hs
            rw [hs] at he; cases he

/-- Every token name with a readable token has a single cookie. -/
def SingleTokens (codec : TokenCodec) (j : Jar) : Prop :=
  ∀ name, (codec.expirations j name).Nonempty →
    ∃ c, j.cookies.filter (fun d => d.name = name) = [c]

theorem expirations_removeOldTokenDuplicates_subset (codec : TokenCodec) (j : Jar)
    (name : String) :
    codec.expirations (codec.removeOldTokenDuplicates j).1 name ⊆ codec.expirations j name := by
  rintro e ⟨c, hc, h⟩
  exact ⟨c, (List.mem_filter.mp hc).1, h⟩

theorem singleTokens_removeOldTokenDuplicates (codec : TokenCodec) (j : Jar) :
    SingleTokens codec (codec.removeOldTokenDuplicates j).1 := by
  intro name h
  obtain ⟨c, -, hc⟩ := TokenCodec.filter_removeOldTokenDuplicates
    (h.mono (expirations_removeOldTokenDuplicates_subset codec j name))
  exact ⟨c, hc⟩

variable {codec : TokenCodec} {x : Exporter} {url : String}

theorem SingleTokens.expirations_reload (h : SingleTokens codec j) (name : String) :
    codec.expirations (x.reload j url) name = codec.expirations j name := by
  by_cases hn : (codec.expirations j name).Nonempty
  · obtain ⟨c, hc⟩ := h name hn
    exact AuthWorker.expirations_reload (keepApart_of_single hc)
  · rw [Set.not_nonempty_iff_eq_empty] at hn
    rw [hn]
    exact Set.subset_empty_iff.mp (hn ▸ expirations_reload_subset name)

theorem SingleTokens.reload (h : SingleTokens codec j) : SingleTokens codec (x.reload j url) := by
  intro name hn
  rw [h.expirations_reload] at hn
  obtain ⟨c, hc⟩ := h name hn
  obtain ⟨-, -, -, -, ht, -⟩ := hn
  have hne : name ≠ "" := by
    rintro rfl
    revert ht
    decide
  exact filter_reload hne hc

theorem Succeeded.expirations_reload {dir' : Directory Bytes}
    (h : Succeeded uc dir dir' r j k url) (name : String) :
    uc.codec.expirations (uc.store.text.reload k url) name = uc.codec.expirations k name := by
  rcases refreshIfNeeded_cases h.renewed with ⟨-, rfl, -⟩ | ⟨-, renewed, rfl⟩
  · exact AuthWorker.expirations_reload (keepApart_of_normal (Store.normal_of_load h.loaded) name)
  · exact (singleTokens_removeOldTokenDuplicates _ _).expirations_reload name

theorem Succeeded.load {dir' : Directory Bytes} (h : Succeeded uc dir dir' r j k url) :
    uc.store.load dir'.file =
        .ok (uc.store.text.reload k url, orDefault url defaultURL) ∧
      uc.codec.tokenTTL (uc.store.text.reload k url) (uc.clock .finalTokens) =
        some r.ttlAfter := by
  have httl : uc.codec.tokenTTL (uc.store.text.reload k url) (uc.clock .finalTokens) =
      some r.ttlAfter := by
    rw [TokenCodec.tokenTTL_congr h.expirations_reload, h.alive]
  refine ⟨?_, httl⟩
  rw [h.saved]
  refine Store.load_saved fun hn => ?_
  rw [TokenCodec.tokenTTL_eq, TokenCodec.remaining, TokenCodec.latestTokens, hn] at httl
  cases httl

def frozen (uc : RefreshAuth Bytes) (now : Int64) : RefreshAuth Bytes :=
  { uc with clock := fun _ => now }

def reader (uc : RefreshAuth Bytes) (now : Int64) : GetCookies Bytes :=
  ⟨uc.store, uc.codec, now⟩

/-- A cycle is all or nothing, and agrees with what the clients are told next. -/
structure AllOrNothing (uc : RefreshAuth Bytes) (now : Int64) (lock : LockOutcome)
    (dir : Directory Bytes) (run : Run Bytes RefreshResult) : Prop where
  unchanged : ∀ e, run.result = .error e → run.directory.file = dir.file
  released : run.calls.countP LockCall.isRelease = run.calls.countP LockCall.isAcquired ∧
    run.calls.countP LockCall.isAcquired = if lock.acquire.isOk then 1 else 0
  agrees : ∀ r, run.result = .ok r → 0 < r.ttlAfter ∧
    ∀ lock : LockOutcome, lock.acquire = .ok () → ∃ snapshot,
      ((uc.reader now).execute lock run.directory).result = .ok snapshot ∧
        snapshot.status = .ok ∧ snapshot.tokenTTL = r.ttlAfter
  above : ∀ r, run.result = .ok r → r.refreshed = false → uc.refreshBeforeSecs < r.ttlAfter
  single : ∀ r, run.result = .ok r → r.refreshed = true → ∃ saved url,
    run.directory.file = .holds (uc.store.saved saved url) ∧ SingleTokens uc.codec saved ∧
      ∃ loaded url', uc.store.load run.directory.file = .ok (loaded, url') ∧
        SingleTokens uc.codec loaded

/-- What the clients read after a successful cycle is the lifetime that it reported. -/
theorem Succeeded.agrees {dir' : Directory Bytes} {now : Int64}
    (h : Succeeded (uc.frozen now) dir dir' r j k url) {lock : LockOutcome}
    (hl : lock.acquire = .ok ()) :
    ∃ snapshot, ((uc.reader now).execute lock dir').result = .ok snapshot ∧
      snapshot.status = .ok ∧ snapshot.tokenTTL = r.ttlAfter := by
  obtain ⟨hload, httl⟩ := h.load
  change uc.store.load dir'.file = _ at hload
  change uc.codec.tokenTTL _ now = _ at httl
  rw [GetCookies.execute, (result_withLock hl _ _).1]
  simp only [reader, hload, httl]
  exact ⟨_, rfl, if_pos ⟨rfl, h.positive⟩, rfl⟩

theorem Succeeded.above {dir' : Directory Bytes} {now : Int64}
    (h : Succeeded (uc.frozen now) dir dir' r j k url) (hr : r.refreshed = false) :
    uc.refreshBeforeSecs < r.ttlAfter := by
  rcases refreshIfNeeded_cases h.renewed with ⟨-, rfl, hn⟩ | ⟨ht, -⟩
  · have halive := h.alive
    change uc.codec.tokenTTL k now = _ at halive
    change TokenCodec.needsRefresh (uc.codec.tokenTTL k now) uc.refreshBeforeSecs = false at hn
    rw [halive] at hn
    simpa [TokenCodec.needsRefresh] using hn
  · rw [hr] at ht; cases ht

theorem Succeeded.single {dir' : Directory Bytes} (h : Succeeded uc dir dir' r j k url)
    (hr : r.refreshed = true) :
    SingleTokens uc.codec k ∧ SingleTokens uc.codec (uc.store.text.reload k url) := by
  rcases refreshIfNeeded_cases h.renewed with ⟨hf, -⟩ | ⟨-, renewed, rfl⟩
  · rw [hr] at hf; cases hf
  · have hs := singleTokens_removeOldTokenDuplicates uc.codec renewed
    exact ⟨hs, hs.reload⟩

/-- Every cycle is all or nothing, for every cookie file, every renewal, every threshold and
every outcome of the lock and of the save. -/
theorem execute_allOrNothing (uc : RefreshAuth Bytes) (now : Int64) (lock : LockOutcome)
    (outcome : WriteOutcome Bytes) (dir : Directory Bytes) :
    AllOrNothing uc now lock dir ((uc.frozen now).execute lock outcome dir) := by
  have hreleased := countP_release_withLock lock dir ((uc.frozen now).cycle outcome)
  have hacquired := countP_acquired_withLock lock dir ((uc.frozen now).cycle outcome)
  rw [execute]
  cases hl : lock.acquire with
  | error e =>
    have hrun : withLock lock dir ((uc.frozen now).cycle outcome) =
        ⟨.error e, dir, [.acquire (.error e)]⟩ := by
      unfold withLock; rw [hl]
    refine ⟨?_, ⟨hreleased, hacquired⟩, ?_, ?_, ?_⟩ <;> rw [hrun]
    · exact fun _ _ => rfl
    all_goals rintro r ⟨⟩
  | ok u =>
    obtain ⟨hresult, hdir⟩ := result_withLock hl dir ((uc.frozen now).cycle outcome)
    rcases cycle_cases (uc.frozen now) outcome dir with ⟨⟨e, he⟩, hfile⟩ | ⟨r, j, k, url, hok, hs⟩
    · refine ⟨?_, ⟨hreleased, hacquired⟩, ?_, ?_, ?_⟩ <;> rw [hresult, he]
      · exact fun _ _ => by rw [hdir, hfile]
      all_goals rintro r ⟨⟩
    · refine ⟨?_, ⟨hreleased, hacquired⟩, ?_, ?_, ?_⟩ <;> rw [hresult, hok]
      · rintro e ⟨⟩
      · rintro _ ⟨⟩
        rw [hdir]
        exact ⟨hs.positive, fun lock hlock => hs.agrees hlock⟩
      · rintro _ ⟨⟩ hr
        exact hs.above hr
      · rintro _ ⟨⟩ hr
        rw [hdir]
        obtain ⟨hsaved, hloaded⟩ := hs.single hr
        exact ⟨k, url, hs.saved, hsaved, _, _, hs.load.1, hloaded⟩

end RefreshAuth

end ProfiNotifications.AuthWorker
