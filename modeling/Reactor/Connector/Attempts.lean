import Mathlib.Data.Finset.Card
import Reactor.Connector.Calls

/-!
# One attempt at a time

An attempt is a registered connect channel or a pending timer. A timer that expires and a
channel that is removed make room for the attempt that follows. `start` and `restart` do
not look for either, and `resetChannel` does not look at the channel that it resets.
-/

namespace Reactor

open Transition

namespace Connector

/-- At most one channel is registered or timer pending. -/
def AtMostOne (s : Connector) : Prop := s.registered.card + s.timers.length ≤ 1

/-- The channel that `connectChannel_` has owned is still owned if it is registered. -/
def KeepsChannel (s t : Connector) : Prop :=
  ∀ ch ∈ s.connectChannel, ch.socket ∈ t.registered →
    ∃ ch' ∈ t.connectChannel, ch'.socket = ch.socket

/-- After the step there is at most one attempt, and a registered channel has neither been
replaced nor reset. -/
def OneAttempt (s : Connector) (_ : ConnectorAction) (r : Except ConnectorFault Connector) : Prop :=
  ∀ t, r = .ok t → t.AtMostOne ∧ s.KeepsChannel t

/-- There is no attempt. -/
def Idle (s : Connector) : Prop := s.registered = ∅ ∧ s.timers = []

/-- `connect` makes an attempt only when there is none. -/
def ConnectsAlone (s : Connector) (answer : ConnectAnswer) : Prop :=
  s.connecting_ = true → answer.Waits ∨ answer.Retries → s.Idle

/-- `startInLoop` makes an attempt only when there is none. -/
def StartsAlone (s : Connector) (answer : ConnectAnswer) : Prop :=
  s.state = .disConnected → s.ConnectsAlone answer

/-- `startInLoop` makes an attempt only when there is none, and `resetChannel` finds no
registered channel. -/
def Alone (s : Connector) (a : ConnectorAction) : Prop :=
  s.Meets StartsAlone (fun s => ¬ s.ChannelRegistered) (fun _ _ => True) a

instance (s : Connector) : Decidable s.AtMostOne := inferInstanceAs (Decidable (_ ≤ _))

instance (s : Connector) : Decidable s.Idle := inferInstanceAs (Decidable (_ ∧ _))

instance (s : Connector) (answer : ConnectAnswer) : Decidable (s.ConnectsAlone answer) :=
  inferInstanceAs (Decidable (_ → _))

instance (s : Connector) (answer : ConnectAnswer) : Decidable (s.StartsAlone answer) :=
  inferInstanceAs (Decidable (_ → _))

instance (s : Connector) (a : ConnectorAction) : Decidable (s.Alone a) :=
  inferInstanceAs (Decidable (s.Meets _ _ _ a))

/-- There is at most one attempt, and `connectChannel_` owns its channel. -/
structure Single (s : Connector) : Prop where
  owned : ∀ i ∈ s.registered, i < s.fds.length ∧ ∃ ch ∈ s.connectChannel, ch.socket = i
  atMostOne : s.AtMostOne

section

variable {s t : Connector} {answer : ConnectAnswer} {ch : ConnectChannel}

/-- With a single attempt no registered channel is dropped. -/
theorem Single.keepsChannel (h : t.Single) : s.KeepsChannel t :=
  fun ch _ hmem => (h.owned ch.socket hmem).2

/-- The single attempt is a matter of the fields that an attempt uses. -/
theorem Single.of_same (h : s.Single) (hsame : SameAttempt s t) : t.Single := by
  constructor
  · rw [hsame.registered_eq, hsame.connectChannel_eq, hsame.fds_eq]
    exact h.owned
  · have hone := h.atMostOne
    have htimers := hsame.timers_le
    unfold AtMostOne at hone ⊢
    rw [hsame.registered_eq]
    omega

/-- A registered channel leaves no room for another, or for a timer. -/
theorem Single.of_registered (h : s.Single) {i : ℕ} (hi : i ∈ s.registered) :
    s.registered.erase i = ∅ ∧ s.timers = [] := by
  have hcard : 0 < s.registered.card := Finset.card_pos.mpr ⟨i, hi⟩
  have hone := h.atMostOne
  unfold AtMostOne at hone
  constructor
  · rw [← Finset.card_eq_zero, Finset.card_erase_of_mem hi]
    omega
  · apply List.length_eq_zero_iff.mp
    omega

/-- Without a registered channel one timer may be pending. -/
theorem single_of_empty (hregistered : s.registered = ∅) (htimers : s.timers.length ≤ 1) :
    s.Single := by
  constructor
  · simp [hregistered]
  · unfold AtMostOne
    rw [hregistered, Finset.card_empty]
    omega

/-- A connector that is not idle has a channel registered or a timer pending. -/
theorem not_idle_iff : ¬ s.Idle ↔ 1 ≤ s.registered.card + s.timers.length := by
  unfold Idle
  rw [← Finset.card_eq_zero, ← List.length_eq_zero_iff]
  omega

/-! ## The functions -/

/-- A new channel is the only attempt exactly if there was none before. -/
theorem Single.connecting (h : s.Single) (hconnecting : s.connecting_ = true) (fd : ℕ) :
    (s.Idle → ((s.createSocket fd).connecting s.fds.length).Single) ∧
      (¬ s.Idle → ¬ ((s.createSocket fd).connecting s.fds.length).AtMostOne) := by
  have hset : (s.createSocket fd).connecting_ = true := hconnecting
  have hnew : s.fds.length ∉ s.registered := fun hmem => absurd (h.owned _ hmem).1 (Nat.lt_irrefl _)
  have hregistered := registered_connecting hset s.fds.length
  rw [registered_createSocket] at hregistered
  obtain ⟨channel, -, heq⟩ := connecting_eq hset s.fds.length
  have htimers : ((s.createSocket fd).connecting s.fds.length).timers = s.timers := by
    rw [heq]
    rfl
  refine ⟨fun hidle => ⟨?_, ?_⟩, fun hnot hone => ?_⟩
  · rw [hregistered, hidle.1]
    intro i hi
    obtain rfl := Finset.mem_singleton.mp hi
    rw [heq]
    exact ⟨by simp [createSocket], _, rfl, rfl⟩
  · unfold AtMostOne
    rw [hregistered, htimers, hidle.1, hidle.2]
    simp
  · rw [not_idle_iff] at hnot
    unfold AtMostOne at hone
    rw [hregistered, htimers, Finset.card_insert_of_notMem hnew] at hone
    omega

/-- A new timer is the only attempt exactly if there was none before. -/
theorem retry_decides (hconnecting : s.connecting_ = true) (sockfd : ℕ) :
    (s.Idle → (s.retry sockfd).Single) ∧ (¬ s.Idle → ¬ (s.retry sockfd).AtMostOne) := by
  have htimers : (s.retry sockfd).timers.length = s.timers.length + 1 := by
    rw [retry_eq hconnecting]
    simp
  refine ⟨fun hidle => ?_, fun hnot hone => ?_⟩
  · apply single_of_empty
    · rw [registered_retry, hidle.1]
    · rw [htimers, hidle.2]
      simp
  · rw [not_idle_iff] at hnot
    unfold AtMostOne at hone
    rw [registered_retry, htimers] at hone
    omega

/-- `connect` keeps the attempt single if it connects alone, and makes a second one otherwise. -/
theorem Single.connect (h : s.Single) (answer : ConnectAnswer) :
    (s.ConnectsAlone answer → (s.connect answer).Single) ∧
      (¬ s.ConnectsAlone answer → ¬ (s.connect answer).AtMostOne) := by
  rcases connect_cases s answer with ⟨hnone, heq⟩ | ⟨fd, -, hcase⟩
  · rw [heq]
    refine ⟨fun _ => h, fun hnot => absurd (fun _ hattempt => ?_) hnot⟩
    subst hnone
    exact hattempt.elim False.elim False.elim
  have hcreated : (s.createSocket fd).Single := by
    refine ⟨fun i hi => ?_, h.atMostOne⟩
    obtain ⟨hlt, hchannel⟩ := h.owned i hi
    have hlength := length_createSocket s fd
    exact ⟨by omega, hchannel⟩
  have halone (hconnecting : s.connecting_ = true) (hattempt : answer.Waits ∨ answer.Retries) :
      s.ConnectsAlone answer ↔ s.Idle :=
    ⟨fun halone => halone hconnecting hattempt, fun hidle _ _ => hidle⟩
  rcases hcase with ⟨hconnecting, hwaits, heq⟩ | ⟨hconnecting, hretries, heq⟩ | ⟨hdrop, heq⟩
  · rw [heq, halone hconnecting (.inl hwaits)]
    exact h.connecting hconnecting fd
  · rw [heq, halone hconnecting (.inr hretries)]
    have hset : (s.createSocket fd).connecting_ = true := hconnecting
    exact retry_decides hset s.fds.length
  · rw [heq]
    refine ⟨fun _ => hcreated, fun hnot => absurd (fun hset hattempt => ?_) hnot⟩
    exact absurd ⟨hset, hattempt⟩ hdrop

/-- `startInLoop` keeps the attempt single exactly if it starts alone. -/
theorem Single.startInLoop (h : s.Single) (answer : ConnectAnswer) :
    Decides (s.StartsAlone answer) (.ok (s.startInLoop answer) : Except ConnectorFault _) Single
      fun t => ¬ (t.AtMostOne ∧ s.KeepsChannel t) := by
  obtain ⟨hkeep, hsecond⟩ := h.connect answer
  apply startInLoop_decides h hkeep
  intro hnot hone
  exact hsecond hnot hone.1

/-- `resetChannel` keeps the attempt single exactly if it finds no registered channel to drop. -/
theorem Single.resetChannel (h : s.Single) :
    Decides (¬ s.ChannelRegistered) (.ok s.resetChannel : Except ConnectorFault _) Single
      fun t => ¬ (t.AtMostOne ∧ s.KeepsChannel t) := by
  apply decides_ok
  · intro hfree
    refine ⟨fun i hi => ?_, h.atMostOne⟩
    obtain ⟨-, ch, hch, rfl⟩ := h.owned i hi
    exact absurd ⟨ch, hch, hi⟩ hfree
  · intro hnot hone
    obtain ⟨ch, hch, hmem⟩ := not_not.mp hnot
    obtain ⟨ch', hch', -⟩ := hone.2 ch hch hmem
    cases hch'

/-- An event of the registered channel never makes a second attempt. -/
theorem Single.handlerEvent (h : s.Single) (howned : s.connectChannel = some ch)
    (hch : ch.socket ∈ s.registered) (e : ConnectEvent) :
    Decides True (s.handlerEvent e) Single fun t => ¬ (t.AtMostOne ∧ s.KeepsChannel t) := by
  obtain ⟨hempty, htimers⟩ := h.of_registered hch
  apply decides_of_good trivial
  intro u hu
  rcases handlerEvent_cases howned e with
    ⟨-, t, hremoved, hok⟩ | ⟨-, t, hremoved, hok⟩ | ⟨-, -, hok⟩
  · obtain rfl := Except.ok.inj (hok.symm.trans hu)
    apply single_of_empty
    · rw [registered_retry, hremoved.registered_eq, hempty]
    · unfold Connector.retry
      split
      · simp [hremoved.timers_eq, htimers]
      · simp [hremoved.timers_eq, htimers]
  · obtain rfl := Except.ok.inj (hok.symm.trans hu)
    apply single_of_empty
    · rw [registered_reportConnection, hremoved.registered_eq, hempty]
    · simp only [Connector.reportConnection]
      split
      · simp [hremoved.timers_eq, htimers]
      · simp [hremoved.timers_eq, htimers]
  · obtain rfl := Except.ok.inj (hok.symm.trans hu)
    exact h

/-! ## Runs -/

/-- The guard decides whether the step makes a second attempt. -/
theorem Single.step (h : s.Single) (a : ConnectorAction) :
    Decides (s.Alone a) (s.step a) Single fun t => ¬ (t.AtMostOne ∧ s.KeepsChannel t) := by
  apply step_decides ?_ ?_ ?_ ?_ ?_ ?_ h
  · exact fun hs hsame => hs.of_same hsame
  · intro s s' t hsame hbad hone
    refine hbad ⟨hone.1, ?_⟩
    unfold KeepsChannel
    rw [hsame.connectChannel_eq]
    exact hone.2
  · intro s hs i hi
    exact (hs.owned i hi).2
  · exact fun answer hs => hs.startInLoop answer
  · exact fun hs => hs.resetChannel
  · exact fun e hs howned hch => hs.handlerEvent howned hch e

end

/-- A new connector makes no attempt. -/
theorem single_init (callback : Bool) :
    Single { newConnectionCallback := callback } where
  owned := by simp [registered]
  atMostOne := by simp [AtMostOne, registered]

/-- In the runs in which `startInLoop` makes an attempt only when there is none and
`resetChannel` finds no registered channel, and in no others, there is at most one attempt
after each step and no registered channel is replaced or reset. -/
theorem oneAttempt_iff_alone (callback : Bool) (actions : List ConnectorAction) :
    Along step OneAttempt { newConnectionCallback := callback } actions ↔
      Guarded step Alone { newConnectionCallback := callback } actions := by
  apply along_iff_of_decides ?_ (single_init callback)
  intro s a hs
  exact (hs.step a).imp Iff.rfl (fun t ht => ⟨ht, ht.atMostOne, ht.keepsChannel⟩) fun _ => id

/-- A connection that has been refused and is opened anew by the timer. -/
example : Guarded step Alone {}
    [.start true (.failed 5 einprogress),
      .event 0 ⟨pollOut ||| pollErr ||| pollHup, econnrefused, false⟩, .functor .noSocket,
      .timer 0 (.failed 5 einprogress), .event 1 ⟨pollOut, 0, false⟩] := by
  decide +kernel

/-- `start` is called while the timer of a refused attempt is pending. -/
theorem not_oneAttempt : ¬ Along step OneAttempt {}
    [.start true (.failed 5 econnrefused), .start true (.failed 5 einprogress)] := by
  intro h
  have hone := ((h.2 _ rfl).1 _ rfl).1
  exact absurd hone (by decide)

end Connector

end Reactor
