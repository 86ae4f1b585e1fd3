import PolicyProbe.Proofs.Worker.Verdict

/-!
What a call that launches a process waits for. As long as it has not returned, the time for the
first line runs, or the process has been killed and only its death is missing, or the call waits for
a process that it has not killed to exit by itself, without a limit. The last is a gap: it is
reached exactly when the output ends before a byte was written and the process does not exit
(`abandoned_iff`), and then nothing but the exit of the process ends the wait
(`abandoned_of_no_exit`).
-/
namespace PolicyProbe
namespace Supervision

variable {σ : Type} (l : Launcher) (sink : Sink σ)

/-- Whether the wait of a call is limited: the time for the first line runs, or the process has been
killed. -/
def Limited (s : Supervision σ) : Prop := s.launch.phase = .reading ∨ s.launch.killed = true

/-- Whether a call waits, and without a limit. -/
def Abandoned (s : Supervision σ) : Prop := s.answer? = none ∧ ¬s.Limited

/-- The calls that wait without a limit are those that wait for an exit. -/
theorem abandoned_iff_reaping (start : σ) (events : List SupervisionEvent) :
    (run l sink start events).Abandoned ↔ (run l sink start events).launch.phase = .reaping := by
  have halike := alike_run l sink start events
  have hkilled : (run l sink start events).launch.killed = true ↔
      ∃ e, (run l sink start events).launch.phase = .returned (.error e) := by
    rw [halike.killed, halike.phase, Launcher.killed_iff]
  rw [Abandoned, Limited, answer?, hkilled]
  cases (run l sink start events).launch.phase with
  | reading => simp
  | reaping => simp
  | returned verdict => cases verdict <;> simp

theorem reaping_of_comes {phase : LaunchPhase} (h : l.Comes [] .nothing phase) :
    phase = .reaping := by
  cases h with
  | ended hmem => exact absurd hmem List.not_mem_nil
  | reaping _ => rfl

theorem exitedEarly_of_comes {phase : LaunchPhase} {status : Nat}
    (h : l.Comes [status] .nothing phase) : phase = .returned (.error (l.exitedEarly status)) := by
  cases h with
  | ended hmem => rw [List.mem_singleton.mp hmem]
  | reaping hnone => cases hnone

/-- A launch waits for an exit when its process has closed its output without a byte and has not
ended. -/
theorem reaping_iff (events : List ChildEvent) :
    (l.run events).phase = .reaping ↔
      FirstLine.among events = .nothing ∧ events.filterMap ChildEvent.status? = [] := by
  have hcomes := l.comes_run events
  constructor
  · intro hphase
    rw [hphase] at hcomes
    generalize FirstLine.among events = first at hcomes
    cases hcomes with
    | reaping h => exact ⟨rfl, h⟩
  · rintro ⟨hfirst, hstatuses⟩
    rw [hfirst, hstatuses] at hcomes
    exact reaping_of_comes l hcomes

theorem abandoned_iff (start : σ) (events : List SupervisionEvent) :
    (run l sink start events).Abandoned ↔
      FirstLine.among (SupervisionEvent.seenAmong events) = .nothing ∧
        (SupervisionEvent.seenAmong events).filterMap ChildEvent.status? = [] := by
  rw [abandoned_iff_reaping, (alike_run l sink start events).phase, reaping_iff]

theorem seenAmong_append (events more : List SupervisionEvent) :
    SupervisionEvent.seenAmong (events ++ more) =
      SupervisionEvent.seenAmong events ++ SupervisionEvent.seenAmong more :=
  List.filterMap_append

theorem run_append (start : σ) (events more : List SupervisionEvent) :
    run l sink start (events ++ more) = more.foldl (step l sink) (run l sink start events) :=
  List.foldl_append

/-- The launch of a process of which more is seen. -/
theorem phase_append (start : σ) (events more : List SupervisionEvent) :
    (run l sink start (events ++ more)).launch.phase =
      ((SupervisionEvent.seenAmong more).foldl l.step
        (l.run (SupervisionEvent.seenAmong events))).phase := by
  rw [(alike_run l sink start _).phase, seenAmong_append, Launcher.run, List.foldl_append]
  rfl

/-- A call that waits without a limit goes on to wait as long as its process does not end, whatever
else happens. -/
theorem abandoned_of_no_exit {start : σ} {events more : List SupervisionEvent}
    (h : (run l sink start events).Abandoned)
    (hmore : (SupervisionEvent.seenAmong more).filterMap ChildEvent.status? = []) :
    (run l sink start (events ++ more)).Abandoned := by
  rw [abandoned_iff_reaping, (alike_run l sink start events).phase] at h
  have hcomes := Launcher.comes_reaping (l := l) h (SupervisionEvent.seenAmong more)
  rw [hmore] at hcomes
  rw [abandoned_iff_reaping, phase_append]
  exact reaping_of_comes l hcomes

/-- What the waits of a call are, in every state that can be reached before it returns. The wait for
the first line ends with the time, the wait for the death of a refused process with that death; a
call waits without a limit exactly when the output ended without a byte and the process has not
ended, does so for as long as the process does not end, and returns when it ends. -/
theorem waits (start : σ) (events : List SupervisionEvent) :
    let seen := SupervisionEvent.seenAmong events
    let s := run l sink start events
    let after event := run l sink start (events ++ [.seen event])
    (s.launch.phase = .reading → (after .expired).launch.phase = .returned (.error l.tooLate) ∧
      (after .expired).launch.killed = true) ∧
    (∀ e event, s.launch.phase = .returned (.error e) → event.status? ≠ none →
      (after event).answer? = some (.error e)) ∧
    (s.Abandoned ↔
      FirstLine.among seen = .nothing ∧ seen.filterMap ChildEvent.status? = []) ∧
    (∀ more, s.Abandoned → (SupervisionEvent.seenAmong more).filterMap ChildEvent.status? = [] →
      (run l sink start (events ++ more)).Abandoned) ∧
    ∀ event status, s.Abandoned → event.status? = some status →
      (after event).answer? = some (.error (l.exitedEarly status)) := by
  intro seen s after
  have hafter (event : ChildEvent) : (after event).launch = l.step s.launch event := by
    show (run l sink start (events ++ [.seen event])).launch = _
    rw [run_append]
    rfl
  have hdead {event : ChildEvent} (hstatus : event.status? ≠ none) :
      (after event).launch.exit.isSome = true := by
    obtain ⟨status, hstatus⟩ := Option.ne_none_iff_exists'.mp hstatus
    rw [hafter, Launcher.exit_step, hstatus]
    rfl
  refine ⟨fun hphase => ?_, fun e event hphase hstatus => ?_, abandoned_iff l sink start events,
    fun more h hmore => abandoned_of_no_exit l sink h hmore, fun event status h hstatus => ?_⟩
  · rw [hafter]
    simp [Launcher.step, hphase, Launcher.settle, Except.isOk, Except.toBool]
  · refine (answer?_eq_error_iff _ e).mpr ⟨?_, hdead hstatus⟩
    rw [hafter, (step_of_returned l hphase event).1]
  · have hphase := (abandoned_iff_reaping l sink start events).mp h
    refine (answer?_eq_error_iff _ _).mpr ⟨?_, hdead (by simp [hstatus])⟩
    rw [hafter]
    have hcomes := Launcher.comes_reaping (l := l) hphase [event]
    rw [List.filterMap_cons_some hstatus, List.filterMap_nil] at hcomes
    exact exitedEarly_of_comes l hcomes

/-- A process that closes its output and stays is waited for, with no time running and without
having been killed. -/
theorem closed_output_unlimited :
    ¬∀ (l : Launcher) (events : List SupervisionEvent),
      (run l (fun _ s => (.ok (), s)) () events).answer? = none →
        (run l (fun _ s => (.ok (), s)) () events).Limited := by
  intro h
  -- The time for the first line is over, but that is no longer looked at.
  rcases h ⟨.nil, 5000⟩ [.seen .closed, .seen .expired] rfl with hphase | hkilled
  · cases hphase
  · cases hkilled

end Supervision
end PolicyProbe
