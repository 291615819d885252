import ProfiNotifications.Foundations.Wrapping
import ProfiNotifications.AuthWorker.Touch

/-! # Lifetimes at the limits of the clock

The expiry of a token is an arbitrary 64-bit number, and the clock is subtracted from it
modulo `2 ^ 64`. A token that expired more than `2 ^ 63` seconds ago gets a large positive
lifetime, and both use cases take the session for a live one.
-/

namespace ProfiNotifications.AuthWorker

variable {Bytes : Type} {codec : TokenCodec} {j : Jar} {now e : Int64} {name url : String}

/-- In exact integers, the furthest expiry of every token that has a readable copy is ahead. -/
def Live (codec : TokenCodec) (j : Jar) (now : Int64) : Prop :=
  ∀ name e, IsGreatest (codec.expirations j name) e → now.toInt < e.toInt

def Positive (codec : TokenCodec) (j : Jar) (now : Int64) : Prop :=
  ∃ ttl, codec.tokenTTL j now = some ttl ∧ 0 < ttl

/-- A live session is reported exactly when there is one, by the lifetime and by both use cases. -/
structure ReportsLive (codec : TokenCodec) (j : Jar) (now : Int64) : Prop where
  lifetime : Positive codec j now ↔ Live codec j now
  cycle : ∀ (Bytes : Type) (uc : RefreshAuth Bytes), uc.codec = codec →
    uc.clock .finalTokens = now → ((∃ final, uc.finalTokens j = .ok final) ↔ Live codec j now)
  reader : ∀ (Bytes : Type) (uc : GetCookies Bytes) (lock : LockOutcome) (dir : Directory Bytes)
    (url : String), uc.codec = codec → uc.now = now → lock.acquire = .ok () →
    uc.store.load dir.file = .ok (j, url) → ∃ snap, (uc.execute lock dir).result = .ok snap ∧
      (snap.status = .ok ↔ Live codec j now)

theorem finalTokens_ok_iff (uc : RefreshAuth Bytes) (j : Jar) :
    (∃ final, uc.finalTokens j = .ok final) ↔ Positive uc.codec j (uc.clock .finalTokens) := by
  unfold RefreshAuth.finalTokens Positive
  dsimp only
  cases uc.codec.tokenTTL j (uc.clock .finalTokens) with
  | none => simp
  | some ttl =>
    by_cases h : ttl ≤ 0
    · simp [h]
    · simp [h, not_le.mp h]

theorem execute_status {uc : GetCookies Bytes} {lock : LockOutcome} {dir : Directory Bytes}
    (hlock : lock.acquire = .ok ()) (hload : uc.store.load dir.file = .ok (j, url)) :
    ∃ snap, (uc.execute lock dir).result = .ok snap ∧
      (snap.status = .ok ↔ Positive uc.codec j uc.now) := by
  unfold GetCookies.execute withLock
  rw [hlock]
  simp only [hload]
  refine ⟨_, rfl, ?_⟩
  unfold Positive snapshotStatus
  cases uc.codec.tokenTTL j uc.now with
  | none => simp
  | some ttl => by_cases h : 0 < ttl <;> simp [h]

/-- Every report of a live session comes down to a positive lifetime. -/
theorem reportsLive_iff_positive :
    ReportsLive codec j now ↔ (Positive codec j now ↔ Live codec j now) := by
  constructor
  · exact ReportsLive.lifetime
  · intro h
    refine ⟨h, ?_, ?_⟩
    · rintro Bytes uc rfl rfl
      rw [finalTokens_ok_iff, h]
    · rintro Bytes uc lock dir url rfl rfl hlock hload
      obtain ⟨snap, hsnap, hstatus⟩ := execute_status hlock hload
      exact ⟨snap, hsnap, hstatus.trans h⟩

theorem positive_iff (h : IsGreatest (codec.expirations j name) e) (hnow : 0 < now) :
    Positive codec j now ↔ now < e ∨ e.toInt - now.toInt < -2 ^ 63 := by
  rw [← Wrapping.sub_pos_iff hnow, Positive, TokenCodec.tokenTTL_of_isGreatest h]
  simp

theorem live_iff (h : IsGreatest (codec.expirations j name) e) :
    Live codec j now ↔ now < e := by
  rw [Int64.lt_iff_toInt_lt]
  constructor
  · exact fun hl => hl name e h
  · intro hlt name' e' h'
    rwa [TokenCodec.isGreatest_unique h h']

/--
A live session is reported exactly when there is one, if and only if no token has expired
more than `2 ^ 63` seconds ago.
-/
theorem reportsLive_iff {codec : TokenCodec} {j : Jar} {now : Int64}
    (hj : ∃ name, (codec.expirations j name).Nonempty) (hnow : 0 < now) :
    ReportsLive codec j now ↔
      ∀ name e, IsGreatest (codec.expirations j name) e → now.toInt - 2 ^ 63 ≤ e.toInt := by
  obtain ⟨name, hne⟩ := hj
  obtain ⟨e, he⟩ := TokenCodec.exists_isGreatest hne
  have hone : (∀ name e, IsGreatest (codec.expirations j name) e → now.toInt - 2 ^ 63 ≤ e.toInt) ↔
      now.toInt - 2 ^ 63 ≤ e.toInt := by
    constructor
    · exact fun h => h name e he
    · intro h name' e' h'
      rwa [TokenCodec.isGreatest_unique he h']
  rw [reportsLive_iff_positive, positive_iff he hnow, live_iff he, hone, Int64.lt_iff_toInt_lt]
  have hpos := Wrapping.pos_iff.mp hnow
  omega

def ancientCodec : TokenCodec :=
  { Renewer.exampleCodec with
    decodeJWTClaims := fun claims =>
      if claims = "ancient" then some ⟨some (-2 ^ 63), "touched"⟩
      else Renewer.exampleCodec.decodeJWTClaims claims }

theorem greatest_of_single {c : Cookie} (hc : j.cookies = [c]) (hn : IsTokenCookie c.name)
    (he : codec.decodeJWTExp c.value = some e) : IsGreatest (codec.expirations j c.name) e := by
  apply TokenCodec.isGreatest_of_later (by simp [hc]) hn he
  intro d hd hne
  rw [hc, List.mem_singleton] at hd
  exact absurd hd hne

theorem reportsLive_new : ReportsLive ancientCodec (Jar.newJar [Renewer.tokenAt ".profi.ru"
    "h.new.s"]) 100 := by
  have h := greatest_of_single (j := Jar.newJar [Renewer.tokenAt ".profi.ru" "h.new.s"]) rfl
    (by decide) (by decide : ancientCodec.decodeJWTExp "h.new.s" = some 200)
  refine (reportsLive_iff ⟨_, _, h.1⟩ (by decide)).mpr fun name e he => ?_
  rw [TokenCodec.isGreatest_unique h he]
  decide

/-- An expired session with the greatest lifetime there is. -/
theorem not_reportsLive_ancient :
    ancientCodec.tokenTTL (Jar.newJar [Renewer.tokenAt ".profi.ru" "h.ancient.s"]) 1 =
        some Int64.maxValue ∧
      ¬ Live ancientCodec (Jar.newJar [Renewer.tokenAt ".profi.ru" "h.ancient.s"]) 1 ∧
      ¬ ReportsLive ancientCodec (Jar.newJar [Renewer.tokenAt ".profi.ru" "h.ancient.s"]) 1 := by
  have h := greatest_of_single (j := Jar.newJar [Renewer.tokenAt ".profi.ru" "h.ancient.s"]) rfl
    (by decide) (by decide : ancientCodec.decodeJWTExp "h.ancient.s" = some Int64.minValue)
  have httl := TokenCodec.tokenTTL_of_isGreatest h 1
  have hlive : ¬ Live ancientCodec (Jar.newJar [Renewer.tokenAt ".profi.ru" "h.ancient.s"]) 1 := by
    rw [live_iff h]
    decide
  refine ⟨httl, hlive, fun hr => hlive (hr.lifetime.mp ⟨_, httl, by decide⟩)⟩

end ProfiNotifications.AuthWorker
