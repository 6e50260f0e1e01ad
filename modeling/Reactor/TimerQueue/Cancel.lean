import Reactor.TimerQueue.Rounds

/-!
# Cancelling

The loop that runs the batch does not look into `cancelTimers_`: a timer of the batch that is
cancelled before its turn is run all the same. Otherwise a timer is neither started nor put back
once it has been cancelled.
-/

namespace Reactor

open Transition

namespace TimerEvent

/-- No timer is started or put back that has been cancelled. -/
def CancelIsFinal (history : List TimerEvent) : Prop :=
  NeverGone starts history ∧ NeverGone putsBack history

instance (history : List TimerEvent) : Decidable (CancelIsFinal history) :=
  inferInstanceAs (Decidable (_ ∧ _))

end TimerEvent

namespace TimerRun

open TimerEvent

/-- No timer of the batch is cancelled before its turn. -/
def CancelsInTime (s : TimerRun) : TimerAction → Prop
  | .call (.cancelTimer p) => p ∉ s.point.waiting
  | _ => True

instance (s : TimerRun) (a : TimerAction) : Decidable (s.CancelsInTime a) :=
  match a with
  | .call (.cancelTimer _) => inferInstanceAs (Decidable (_ ∉ _))
  | .call (.addTimer _ _) | .call .expire | .handlerRead _ | .runNext | .callbackReturns
  | .resetNext => .isTrue trivial

/-- What runs keep that cancel in time: no timer that waits for its turn has been cancelled. -/
structure InTime (s : TimerRun) : Prop extends Kept s where
  neverStarted : NeverGone starts s.history
  waiting : ∀ p ∈ s.point.waiting, ¬ Gone p s.history

section

variable {s t : TimerRun} {a : TimerAction}

/-- A step whose calls cancel in time keeps it so that nothing cancelled is called. -/
theorem InTime.step (h : s.InTime) (hguard : s.CancelsInTime a) (hok : s.step a = .ok t) :
    t.InTime := by
  have hstep := h.toKept.step a
  rw [hok] at hstep
  obtain ⟨hkept, heffect⟩ := hstep
  cases a with
  | call c =>
    obtain ⟨hpoint, hhistory⟩ := heffect
    refine ⟨hkept, ?_, fun p hp => ?_⟩
    · rw [hhistory]
      exact (neverGone_record (fun _ => rfl) fun _ => rfl).mpr h.neverStarted
    · rw [hpoint] at hp
      rw [hhistory, gone_record]
      rintro (rfl | ⟨hgone, -⟩)
      · exact hguard hp
      · exact h.waiting p hp hgone
  | handlerRead now =>
    obtain ⟨hcancel, hhistory⟩ := heffect
    refine ⟨hkept, hhistory ▸ h.neverStarted, fun p hp hgone => ?_⟩
    have hnoted := hkept.noted p (hkept.waiting_subset hp) hgone
    rw [hcancel] at hnoted
    exact Finset.notMem_empty p hnoted
  | runNext =>
    rcases heffect with ⟨hwaiting, hhistory⟩ | ⟨p, hwaiting, hhistory⟩
    · exact ⟨hkept, hhistory ▸ h.neverStarted, by simp [hwaiting]⟩
    · have hgone : ∀ q ∈ p :: t.point.waiting, ¬ Gone q s.history := hwaiting ▸ h.waiting
      obtain ⟨hhead, htail⟩ := List.forall_mem_cons.mp hgone
      refine ⟨hkept, ?_, ?_⟩
      · rw [hhistory]
        refine ⟨?_, h.neverStarted⟩
        rintro q hq
        rwa [← Option.some.inj hq]
      · rw [hhistory]
        exact htail
  | callbackReturns =>
    obtain ⟨hwaiting, hhistory⟩ := heffect
    refine ⟨hkept, hhistory ▸ h.neverStarted, ?_⟩
    rw [hwaiting, hhistory]
    exact h.waiting
  | resetNext =>
    obtain ⟨hwaiting, hhistory | ⟨p, hhistory⟩⟩ := heffect
    · exact ⟨hkept, hhistory ▸ h.neverStarted, by simp [hwaiting]⟩
    · refine ⟨hkept, ?_, by simp [hwaiting]⟩
      rw [hhistory]
      exact ⟨by simp [starts], h.neverStarted⟩

end

/-- Nothing has been cancelled yet. -/
theorem inTime_empty : InTime {} where
  toKept := kept_empty
  neverStarted := trivial
  waiting := List.forall_mem_nil _

/-- Cancelling is final in every run in which no callback cancels a timer of its own batch
whose turn has not come. -/
theorem cancelIsFinal_of_cancelsInTime {actions : List TimerAction}
    (h : Guarded step CancelsInTime {} actions) :
    Always step (fun s => CancelIsFinal s.history) {} actions := by
  apply along_of_guarded InTime ?_ (fun s a t hs hguard hok => hs.step hguard hok) inTime_empty h
  intro s a hs hguard t hok
  have hnext := hs.step hguard hok
  exact ⟨hnext.neverStarted, hnext.neverPutBack⟩

/-- A timer is cancelled while it is queued, another in its own callback and after its turn. -/
theorem cancelIsFinal_sixteen_actions :
    Always step (fun s => CancelIsFinal s.history) {}
      [.call (.addTimer 1 ⟨1, 2, true⟩), .call (.addTimer 2 ⟨1, 2, true⟩),
        .call (.addTimer 3 ⟨9, 0, false⟩), .call .expire, .handlerRead 5, .runNext,
        .call (.cancelTimer 1), .call (.cancelTimer 3), .callbackReturns, .runNext,
        .call (.cancelTimer 1), .callbackReturns, .runNext, .resetNext, .resetNext, .resetNext] :=
  cancelIsFinal_of_cancelsInTime (by decide)

/-- The callback of the first of two timers that expire together cancels the second. -/
theorem not_cancelIsFinal :
    ¬ Always step (fun s => CancelIsFinal s.history) {}
      [.call (.addTimer 1 ⟨1, 0, false⟩), .call (.addTimer 2 ⟨1, 0, false⟩), .call .expire,
        .handlerRead 1, .runNext, .call (.cancelTimer 2), .callbackReturns, .runNext] := by
  decide

section

variable {s t : TimerRun} {a : TimerAction}

/-- A cancelled timer whose turn is still to come is started once the callbacks before it have
returned. -/
theorem Kept.exists_start (h : s.Kept) {now : ℤ} {expired todo : List TimerEntry}
    (hpoint : s.point = .callback now expired todo) {p : ℕ} (hp : p ∈ todo.map TimerEntry.timer)
    (hgone : Gone p s.history) :
    ∃ actions t, run TimerRun.step s actions = .ok t ∧ ¬ CancelIsFinal t.history := by
  induction todo generalizing s with
  | nil => cases hp
  | cons e todo ih =>
    have hreturn : s.step .callbackReturns =
        .ok { s with point := .running now expired (e :: todo) } := by
      rw [TimerRun.step, hpoint]
    have hkept := h.step .callbackReturns
    rw [hreturn] at hkept
    obtain ⟨hnext, hstarted⟩ := hkept.1.runNext_cons rfl
    rcases List.mem_cons.mp hp with rfl | hp
    · refine ⟨[.callbackReturns, .runNext], _,
        run_cons_eq_ok.mpr ⟨_, hreturn, run_cons_eq_ok.mpr ⟨_, hnext, rfl⟩⟩, fun hfinal => ?_⟩
      exact hfinal.1.1 e.timer rfl hgone
    · obtain ⟨actions, t, hrun, hfinal⟩ := ih hstarted rfl hp hgone
      exact ⟨.callbackReturns :: .runNext :: actions, t,
        run_cons_eq_ok.mpr ⟨_, hreturn, run_cons_eq_ok.mpr ⟨_, hnext, hrun⟩⟩, hfinal⟩

/-- The condition leaves out only steps after which a cancelled timer may be started. -/
theorem Kept.may_start (h : s.Kept) (hok : s.step a = .ok t) (hlate : ¬ s.CancelsInTime a) :
    ∃ actions u, run TimerRun.step t actions = .ok u ∧ ¬ CancelIsFinal u.history := by
  have hstep := h.step a
  rw [hok] at hstep
  obtain ⟨hkept, heffect⟩ := hstep
  cases a with
  | handlerRead now => exact absurd trivial hlate
  | runNext | callbackReturns | resetNext => exact absurd trivial hlate
  | call c =>
    cases c with
    | addTimer p timer => exact absurd trivial hlate
    | expire => exact absurd trivial hlate
    | cancelTimer p =>
      obtain ⟨hpoint, hhistory⟩ := heffect
      have hwaiting : p ∈ s.point.waiting := not_not.mp hlate
      have hgone : Gone p t.history := by
        rw [hhistory]
        exact .inl rfl
      rw [TimerRun.step] at hok
      split at hok
      · next hallowed =>
        cases hcases : s.point with
        | outside | resetting now todo => simp [hcases, HandlerPoint.waiting] at hwaiting
        | running now expired todo => simp [hcases, HandlerPoint.inUserCode] at hallowed
        | callback now expired todo =>
          rw [hcases] at hwaiting hpoint
          exact hkept.exists_start hpoint hwaiting hgone
      · cases hok

end

end TimerRun

end Reactor
