import ProfiNotifications.AuthWorker.WorkerRuns

/-! # What the status file says

The worker reports every cycle that its process has survived. A report that says `ok` was
true when it was made: the tokens of the saved cookie file had the stated lifetime, and it
was positive. Any other report is of a cycle that has left the cookie file alone. The status
file holds one of these reports as a whole, or what it held at the start.
-/

namespace ProfiNotifications.AuthWorker

variable {Bytes : Type} {d : Deployment Bytes} {s s' : WorkerState Bytes} {m : Moment Bytes}

namespace Deployment

/-- What a report says of the cycle between two states. -/
inductive Told (d : Deployment Bytes) (s s' : WorkerState Bytes) (m : Moment Bytes)
    (r : StatusReport) : Prop
  | confirmed {j : Jar} {url : String} {ttl : Int64} (hs : r.status = .ok)
      (hload : d.store.load s'.cookies.file = .ok (j, url))
      (hattl : d.codec.tokenTTL j (m.clock .finalTokens) = some ttl)
      (httl : r.tokenTTL = some ttl) (hpos : 0 < ttl)
  | failed (hs : r.status ≠ .ok) (hfile : s'.cookies.file = s.cookies.file)

theorem reportFailure_status (w : Worker) (now : Int64) (err : AuthError) :
    (w.reportFailure now err).1.status ≠ .ok := by
  unfold Worker.reportFailure
  split
  · simp
  · simp
  · simp
  · split <;> simp
  · simp
  · simp

/-- A cycle that is survived makes one report, which may reach the status file. -/
theorem step_reports (hm : m.crash = none) : ∃ r, (d.step s m).reports = s.reports ++ [r] ∧
    r.updatedAt = m.reportedAt ∧ d.Told s (d.step s m) m r ∧
    ((d.step s m).status.file = s.status.file ∨
      (d.step s m).status.file = .holds (d.store.text.encode r.toJson)) := by
  have hwritten : ∀ r : StatusReport,
      (write d.statusPaths m.statusOutcome (d.store.text.encode r.toJson) s.status).2.file =
          s.status.file ∨
        (write d.statusPaths m.statusOutcome (d.store.text.encode r.toJson) s.status).2.file =
          .holds (d.store.text.encode r.toJson) := by
    intro r
    rcases write_cases d.statusPaths m.statusOutcome (d.store.text.encode r.toJson) s.status with
      ⟨-, hfile⟩ | ⟨-, hfile⟩
    exacts [Or.inr hfile, Or.inl hfile]
  rcases execute_cases (d.refreshAuth m) m.lock m.outcome s.cookies with
    ⟨⟨e, he⟩, hfile⟩ | ⟨r, j, k, url, hok, hs⟩
  · have hreport : (d.worker.runOnce m.reportedAt (.error e)).1.updatedAt = m.reportedAt := by
      unfold Worker.runOnce Worker.reportFailure
      cases e <;> rfl
    refine ⟨(d.worker.runOnce m.reportedAt (.error e)).1, ?_, hreport, ?_, ?_⟩
    · simp only [step, hm, he]
    · refine .failed (reportFailure_status d.worker m.reportedAt e) ?_
      simp only [step, hm, he]
      exact hfile
    · simp only [step, hm, he]
      exact hwritten _
  · refine ⟨(d.worker.runOnce m.reportedAt (.ok r)).1, ?_, rfl, ?_, ?_⟩
    · simp only [step, hm, hok]
    · obtain ⟨hload, httl⟩ := hs.load
      have hload' : d.store.load (d.step s m).cookies.file =
          .ok ((d.refreshAuth m).store.text.reload k url, orDefault url defaultURL) := by
        simp only [step, hm, hok]
        exact hload
      exact .confirmed rfl hload' httl rfl hs.positive
    · simp only [step, hm, hok]
      exact hwritten _

theorem step_of_crash {point : CrashPoint Bytes} (hm : m.crash = some point) :
    (d.step s m).reports = s.reports ∧ (d.step s m).status = s.status := by
  simp only [step, hm]
  unfold record
  split <;> exact ⟨rfl, rfl⟩

/-- The report was made in a cycle of the run, and was true then. -/
def ToldIn (d : Deployment Bytes) (s : WorkerState Bytes) (ms : List (Moment Bytes))
    (r : StatusReport) : Prop :=
  ∃ before m after, ms = before ++ m :: after ∧ m.crash = none ∧ r.updatedAt = m.reportedAt ∧
    d.Told (d.loop s before) (d.loop s (before ++ [m])) m r

theorem ToldIn.append {ms : List (Moment Bytes)} {r : StatusReport} (h : d.ToldIn s ms r)
    (m : Moment Bytes) : d.ToldIn s (ms ++ [m]) r := by
  obtain ⟨before, m', after, rfl, hcrash, htime, htold⟩ := h
  exact ⟨before, m', after ++ [m], by simp, hcrash, htime, htold⟩

/--
In every run, with any renewals, failures of the lock and of the writes, and processes that
die anywhere: every report that says `ok` is of a cycle whose cookie file had tokens with
the stated, positive lifetime, every other one is of a cycle that left the cookie file as
it was, and the status file is as it was or holds one of the reports as a whole. The
lifetime is the difference that the code computes, which wraps around for a token that
expired more than `2 ^ 63` seconds ago.
-/
theorem reports_true (d : Deployment Bytes) (cookies status : Directory Bytes)
    (ms : List (Moment Bytes)) :
    (∀ r ∈ (d.loop { cookies, status } ms).reports, d.ToldIn { cookies, status } ms r) ∧
    ((d.loop { cookies, status } ms).status.file = status.file ∨
      ∃ r ∈ (d.loop { cookies, status } ms).reports,
        (d.loop { cookies, status } ms).status.file =
          .holds (d.store.text.encode r.toJson)) := by
  induction ms using List.reverseRecOn with
  | nil => exact ⟨nofun, Or.inl rfl⟩
  | append_singleton ms m ih =>
    obtain ⟨htold, hfile⟩ := ih
    cases hm : m.crash with
    | some point =>
      obtain ⟨hreports, hstatus⟩ := step_of_crash (d := d)
        (s := d.loop { cookies, status } ms) hm
      rw [loop_append, hreports, hstatus]
      exact ⟨fun r hr => (htold r hr).append m, hfile⟩
    | none =>
      obtain ⟨r, hreports, htime, hnew, hwritten⟩ := step_reports (d := d)
        (s := d.loop { cookies, status } ms) hm
      rw [loop_append, hreports]
      refine ⟨fun r' hr' => ?_, ?_⟩
      · rcases List.mem_append.mp hr' with hr' | hr'
        · exact (htold r' hr').append m
        · obtain rfl := List.mem_singleton.mp hr'
          exact ⟨ms, m, [], rfl, hm, htime, by rwa [loop_append]⟩
      · rcases hwritten with hwritten | hwritten
        · rcases hfile with hfile | ⟨r', hr', hfile⟩
          · exact Or.inl (hwritten.trans hfile)
          · exact Or.inr ⟨r', List.mem_append_left _ hr', hwritten.trans hfile⟩
        · exact Or.inr ⟨r, List.mem_append_right _ (List.mem_singleton.mpr rfl), hwritten⟩

end Deployment

end ProfiNotifications.AuthWorker
