import Reactor.Signal

/-!
# The delivery of signals

A signal that the thread blocks stays pending until `handleRead` reads it from the descriptor,
`delSignal` lets it out to its disposition, or the kernel discards it, as `SIGCONT` and the stop
signals do with each other. After a removal the descriptor, `mask_` and the mask of the thread
disagree, and still `handleRead` never reads a signal without a callback: what the descriptor
accepts beyond `mask_` is not blocked, and so it is never pending.
-/

namespace Reactor

open Transition

/-- Why a step does not end in a state. -/
inductive DeliveryFault where
  | disabled
  /-- `handleRead` finds no callback. -/
  | emptyFunction
  /-- `assert(n==sizeof(sigInfo))` fails. -/
  | assertFailed
  /-- A callback is replaced or removed while it runs, which destroys the function that runs. -/
  | callbackDestroyed
  deriving DecidableEq, Repr

/-- `Signal` with the signals of its thread. -/
structure SignalDelivery (κ : Type) where
  signal : Signal κ
  pending : List UInt32 := []
  /-- `poll` has reported the descriptor, and its handler has not been called yet. -/
  reported : Bool := false
  /-- A registered signal has been removed since the report. -/
  removed : Bool := false
  /-- The kernel has discarded a pending signal since the report. -/
  discardedSince : Bool := false
  /-- The signal whose callback runs. -/
  running : Option UInt32 := none
  raised : List UInt32 := []
  handled : List (UInt32 × κ) := []
  /-- The standard signals that were pending already when they were raised. -/
  merged : List UInt32 := []
  /-- The pending signals that have been discarded. -/
  discarded : List UInt32 := []
  /-- The signals that their disposition has taken, with `Signal` as it was then. -/
  byDefault : List (Signal κ × UInt32) := []

/-- A step of the thread, or a signal that is sent to it. -/
inductive DeliveryAction (κ : Type) where
  | raise (signo : UInt32)
  /-- A handler, a functor or a callback calls `setSignal` or `delSignal`. -/
  | call (op : SignalOp κ)
  /-- `poll` reports the descriptor. -/
  | report
  /-- `handleRead`, where the kernel returns the signal `signo`. -/
  | handleRead (signo : UInt32)
  /-- The callback returns. -/
  | callbackReturns

/-- The signal that a call is about. -/
def SignalOp.signo {κ : Type} : SignalOp κ → UInt32
  | .setSignal signo _ => signo
  | .delSignal signo => signo

namespace SignalDelivery

variable {κ : Type}

/-- A pending standard signal is not queued again. -/
def Standard (signo : UInt32) : Prop := signo < 32

instance (signo : UInt32) : Decidable (Standard signo) := inferInstanceAs (Decidable (signo < 32))

/-- `SIGCONT`. -/
def sigCont : UInt32 := 18

/-- `SIGSTOP`, `SIGTSTP`, `SIGTTIN` and `SIGTTOU`. -/
def stopSignals : Finset UInt32 := {19, 20, 21, 22}

/-- The pending signals that a signal discards, also where it is blocked itself. -/
def discardedBy (signo : UInt32) : Finset UInt32 :=
  if signo = sigCont then stopSignals else if signo ∈ stopSignals then {sigCont} else ∅

/-- The kernel discards pending signals before it enters a signal. -/
def discard (s : SignalDelivery κ) (signo : UInt32) : SignalDelivery κ :=
  let gone := s.pending.filter fun x => x ∈ discardedBy signo
  { s with
    pending := s.pending.filter fun x => x ∉ discardedBy signo
    discarded := s.discarded ++ gone
    discardedSince := s.discardedSince || !gone.isEmpty }

/-- The disposition of a signal takes it. -/
def deliver (s : SignalDelivery κ) (signos : List UInt32) : SignalDelivery κ :=
  { s with byDefault := s.byDefault ++ signos.map fun signo => (s.signal, signo) }

/-- The kernel enters a signal. -/
def enter (s : SignalDelivery κ) (signo : UInt32) : SignalDelivery κ :=
  if signo ∈ s.signal.blocked ∧ signo ∉ unblockable then
    if Standard signo ∧ signo ∈ s.pending then { s with merged := s.merged ++ [signo] }
    else { s with pending := s.pending ++ [signo] }
  else s.deliver [signo]

/-- A signal is sent to the thread. -/
def send (s : SignalDelivery κ) (signo : UInt32) : SignalDelivery κ :=
  (s.discard signo).enter signo

/-- The kernel delivers the pending signals that are no longer blocked. -/
def flush (s : SignalDelivery κ) : SignalDelivery κ :=
  { s.deliver (s.pending.filter fun signo => signo ∉ s.signal.blocked) with
    pending := s.pending.filter fun signo => signo ∈ s.signal.blocked }

/-- A call replaces or erases the function of the map that is running. -/
def Destroys (s : SignalDelivery κ) (op : SignalOp κ) : Prop :=
  s.running = some op.signo ∧ (s.signal.signalMap op.signo).isSome

instance (s : SignalDelivery κ) (op : SignalOp κ) : Decidable (s.Destroys op) :=
  inferInstanceAs (Decidable (_ ∧ _))

/-- A call takes a registered signal out. -/
def removes (signal : Signal κ) : SignalOp κ → Bool
  | .setSignal _ _ => false
  | .delSignal signo => (signal.signalMap signo).isSome

/-- A step of the interleaving. -/
def step (supported : Finset UInt32) (s : SignalDelivery κ) :
    DeliveryAction κ → Except DeliveryFault (SignalDelivery κ)
  | .raise signo =>
    if signo ∈ supported then .ok { s.send signo with raised := s.raised ++ [signo] }
    else .error .disabled
  | .call op =>
    if s.Destroys op then .error .callbackDestroyed
    else
      match s.signal.step supported op with
      | .ok signal =>
        .ok { s with signal, removed := s.removed || removes s.signal op }.flush
      | .error _ => .error .disabled
  | .report =>
    if s.running = none ∧ ¬ s.reported ∧ ∃ signo ∈ s.pending, signo ∈ s.signal.signalFd then
      .ok { s with reported := true, removed := false, discardedSince := false }
    else .error .disabled
  | .handleRead signo =>
    if s.running = none ∧ s.reported then
      if signo ∈ s.pending ∧ signo ∈ s.signal.signalFd then
        match s.signal.handleRead signo with
        | some cb =>
          .ok { s with
            pending := s.pending.erase signo
            reported := false
            running := some signo
            handled := s.handled ++ [(signo, cb)] }
        | none => .error .emptyFunction
      else if ∃ signo ∈ s.pending, signo ∈ s.signal.signalFd then .error .disabled
      else .error .assertFailed
    else .error .disabled
  | .callbackReturns =>
    if s.running.isSome then .ok { s with running := none } else .error .disabled

/-- Each signal that has been raised is at one place. -/
def Conserved (s : SignalDelivery κ) : Prop :=
  ∀ signo, s.raised.count signo =
    s.pending.count signo + (s.handled.map Prod.fst).count signo + s.merged.count signo +
      s.discarded.count signo + (s.byDefault.map Prod.snd).count signo

/-- What the delivery keeps: the descriptor accepts exactly the pending signals that have a
callback, no signal is lost or duplicated, the disposition takes only signals without a callback
and those that cannot be blocked, and `SIGCONT` and the stop signals alone are discarded. -/
structure Delivers (s : SignalDelivery κ) : Prop where
  accepted_iff : ∀ signo ∈ s.pending,
    signo ∈ s.signal.signalFd ↔ (s.signal.signalMap signo).isSome
  conserved : s.Conserved
  byDefault : ∀ d ∈ s.byDefault, d.2 ∈ unblockable ∨ d.1.signalMap d.2 = none
  discarded : ∀ signo ∈ s.discarded, signo = sigCont ∨ signo ∈ stopSignals

/-- A removal between the report and the handler takes the signal that was reported away. -/
example : run (step {2})
    { signal := ({ blocked := ∅ } : Signal Unit) }
    [.call (.setSignal 2 ()), .raise 2, .report, .call (.delSignal 2), .handleRead 2] matches
      .error .assertFailed := by
  rfl

/-- `SIGCONT` does the same to a stop signal. -/
example : run (step {18, 20})
    { signal := ({ blocked := ∅ } : Signal Unit) }
    [.call (.setSignal 20 ()), .raise 20, .report, .raise 18, .handleRead 20] matches
      .error .assertFailed := by
  rfl

end SignalDelivery

namespace Signal

variable {κ : Type} {supported : Finset UInt32} {signal signal' : Signal κ} {signo : UInt32}

/-- What survives the removals: `mask_` follows the map, the descriptor and the mask of the thread
contain `mask_`, and what both of them contain is in `mask_`. -/
structure Consistent (supported : Finset UInt32) (signal : Signal κ) : Prop where
  mask_iff : ∀ signo ∈ supported, signo ∈ signal.mask ↔ (signal.signalMap signo).isSome
  accepted : ∀ signo ∈ signal.mask, signo ∉ unblockable → signo ∈ signal.signalFd
  blocked : ∀ signo ∈ signal.mask, signo ∉ unblockable → signo ∈ signal.blocked
  registered : ∀ signo ∈ signal.blocked, signo ∈ signal.signalFd → signo ∈ signal.mask

/-- A new object is consistent. -/
theorem consistent_initial (supported initial : Finset UInt32) :
    Consistent supported ({ blocked := initial } : Signal κ) where
  mask_iff := by simp
  accepted := by simp
  blocked := by simp
  registered := by simp

/-- Setting a callback keeps the descriptor and the map consistent. -/
theorem Consistent.setSignal (h : Consistent supported signal) (signo : UInt32) (cb : κ) :
    Consistent supported (signal.setSignal supported signo cb) where
  mask_iff := by
    intro x hx
    rw [Signal.setSignal, sigaddset]
    by_cases hxs : x = signo
    · subst hxs
      simp [hx]
    · have hkeep := h.mask_iff x hx
      split <;> simp [hxs, hkeep]
  accepted := by
    intro x hx hblockable
    exact Finset.mem_sdiff.mpr ⟨hx, hblockable⟩
  blocked := by
    intro x hx hblockable
    exact Finset.mem_union_right _ (Finset.mem_sdiff.mpr ⟨hx, hblockable⟩)
  registered := by
    intro x _ hx
    exact (Finset.mem_sdiff.mp hx).1

/-- Deleting a callback keeps the descriptor and the map consistent. -/
theorem Consistent.delSignal (h : Consistent supported signal) (signo : UInt32) :
    Consistent supported (signal.delSignal supported signo) := by
  cases hmap : signal.signalMap signo with
  | none =>
    rw [delSignal_of_none hmap]
    exact h
  | some cb =>
    have hsub : ∀ x ∈ sigdelset supported signal.mask signo, x ∈ signal.mask := by
      intro x hx
      rw [sigdelset] at hx
      split at hx
      · exact Finset.mem_of_mem_erase hx
      · exact hx
    rw [Signal.delSignal, hmap]
    dsimp only
    constructor
    · intro x hx
      have hkeep := h.mask_iff x hx
      by_cases hxs : x = signo
      · subst hxs
        simp [sigdelset, hx]
      · rw [sigdelset]
        split <;> simp [hxs, hkeep]
    · exact fun x hx hblockable => h.accepted x (hsub x hx) hblockable
    · exact fun x hx hblockable => Finset.mem_sdiff.mpr ⟨hx, hblockable⟩
    · exact fun x hx _ => (Finset.mem_sdiff.mp hx).1

/-- Every operation keeps the descriptor and the map consistent. -/
theorem Consistent.step {op : SignalOp κ} (h : Consistent supported signal)
    (hstep : signal.step supported op = .ok signal') : Consistent supported signal' := by
  cases op with
  | setSignal signo cb =>
    obtain rfl := Except.ok.inj hstep
    exact h.setSignal signo cb
  | delSignal signo =>
    obtain rfl := Except.ok.inj hstep
    exact h.delSignal signo

/-- The descriptor accepts a blocked signal exactly if the signal has a callback. -/
theorem Consistent.accepted_iff (h : Consistent supported signal) (hsupported : signo ∈ supported)
    (hblocked : signo ∈ signal.blocked) (hblockable : signo ∉ unblockable) :
    signo ∈ signal.signalFd ↔ (signal.signalMap signo).isSome := by
  rw [← h.mask_iff signo hsupported]
  exact ⟨h.registered signo hblocked, fun hmask => h.accepted signo hmask hblockable⟩

/-- A signal that is not blocked has no callback, unless it cannot be blocked. -/
theorem Consistent.signalMap_eq_none (h : Consistent supported signal)
    (hsupported : signo ∈ supported) (hblocked : signo ∉ signal.blocked)
    (hblockable : signo ∉ unblockable) : signal.signalMap signo = none := by
  rw [← Option.not_isSome_iff_eq_none, ← h.mask_iff signo hsupported]
  exact fun hmask => hblocked (h.blocked signo hmask hblockable)

/-- The descriptor still accepts a signal with a callback after a registration. -/
theorem accepted_of_not_removes {op : SignalOp κ} (h : Consistent supported signal)
    (hstep : signal.step supported op = .ok signal')
    (hremoves : SignalDelivery.removes signal op = false) (hsupported : signo ∈ supported)
    (hblockable : signo ∉ unblockable) (hsome : (signal.signalMap signo).isSome) :
    signo ∈ signal'.blocked ∧ signo ∈ signal'.signalFd := by
  have hmask := (h.mask_iff signo hsupported).mpr hsome
  cases op with
  | setSignal x cb =>
    obtain rfl := Except.ok.inj hstep
    have hnext : signo ∈ (signal.setSignal supported x cb).mask := by
      rw [Signal.setSignal, sigaddset]
      split
      · exact Finset.mem_insert_of_mem hmask
      · exact hmask
    exact ⟨(h.setSignal x cb).blocked signo hnext hblockable,
      (h.setSignal x cb).accepted signo hnext hblockable⟩
  | delSignal x =>
    obtain rfl := Except.ok.inj hstep
    have hnone : signal.signalMap x = none := by simpa [SignalDelivery.removes] using hremoves
    rw [delSignal_of_none hnone]
    exact ⟨h.blocked signo hmask hblockable, h.accepted signo hmask hblockable⟩

end Signal

namespace SignalDelivery

variable {κ : Type} {supported : Finset UInt32} {s t : SignalDelivery κ}

/-- The invariant of the delivery. -/
structure Sound (supported : Finset UInt32) (s : SignalDelivery κ) : Prop where
  consistent : s.signal.Consistent supported
  pending : ∀ signo ∈ s.pending,
    signo ∈ supported ∧ signo ∈ s.signal.blocked ∧ signo ∉ unblockable
  conserved : s.Conserved
  byDefault : ∀ d ∈ s.byDefault, d.2 ∈ unblockable ∨ d.1.signalMap d.2 = none
  discarded : ∀ signo ∈ s.discarded, signo = sigCont ∨ signo ∈ stopSignals
  /-- What `poll` has reported is there unless a removal has let it out or it is discarded. -/
  readable : s.reported → ¬ (s.removed ∨ s.discardedSince) →
    ∃ signo ∈ s.pending, signo ∈ s.signal.signalFd

/-- Without signals nothing has to be delivered. -/
theorem sound_initial (supported initial : Finset UInt32) :
    Sound supported ({ signal := { blocked := initial } } : SignalDelivery κ) where
  consistent := Signal.consistent_initial supported initial
  pending := by simp
  conserved := by simp [Conserved]
  byDefault := by simp
  discarded := by simp
  readable := by simp

/-- Of the pending signals the descriptor accepts those that have a callback. -/
theorem Sound.accepted_iff (h : Sound supported s) (signo : UInt32) (hsigno : signo ∈ s.pending) :
    signo ∈ s.signal.signalFd ↔ (s.signal.signalMap signo).isSome := by
  obtain ⟨hsupported, hblocked, hblockable⟩ := h.pending signo hsigno
  exact h.consistent.accepted_iff hsupported hblocked hblockable

/-- In a sound state signals are delivered as they should. -/
theorem Sound.delivers (h : Sound supported s) : s.Delivers :=
  ⟨h.accepted_iff, h.conserved, h.byDefault, h.discarded⟩

/-- Only SIGCONT and the stop signals are discarded by others. -/
theorem mem_of_mem_discardedBy {signo x : UInt32} (hx : x ∈ discardedBy signo) :
    x = sigCont ∨ x ∈ stopSignals := by
  rw [discardedBy] at hx
  split at hx
  · exact .inr hx
  · split at hx
    · exact .inl (Finset.mem_singleton.mp hx)
    · cases Finset.notMem_empty x hx

/-- A set of signals divides the pending ones into two parts, and none is in both. -/
theorem count_divided (signos : Finset UInt32) (pending : List UInt32) (x : UInt32) :
    (pending.filter fun signo => signo ∈ signos).count x +
      (pending.filter fun signo => signo ∉ signos).count x = pending.count x := by
  rw [← List.count_append]
  simpa using (List.filter_append_perm (fun signo => signo ∈ signos) pending).count_eq x

/-- Pending signals are discarded. -/
theorem Sound.discard (h : Sound supported s) (signo : UInt32) :
    Sound supported (s.discard signo) where
  consistent := h.consistent
  pending x hx := h.pending x (List.mem_of_mem_filter hx)
  conserved x := by
    have hx := h.conserved x
    have hparts := count_divided (discardedBy signo) s.pending x
    simp only [SignalDelivery.discard, List.count_append]
    omega
  byDefault := h.byDefault
  discarded x hx := by
    obtain hx | hx := List.mem_append.mp hx
    · exact h.discarded x hx
    · exact mem_of_mem_discardedBy (of_decide_eq_true (List.mem_filter.mp hx).2)
  readable hreported hkept := by
    obtain ⟨hremoved, hsince⟩ := not_or.mp hkept
    have hremoved : ¬ s.removed := hremoved
    have hnone : s.discardedSince = false ∧
        (s.pending.filter fun x => x ∈ discardedBy signo) = [] := by
      simpa [SignalDelivery.discard] using hsince
    obtain ⟨x, hx, haccepted⟩ := h.readable hreported (by simp [hnone.1, hremoved])
    refine ⟨x, List.mem_filter.mpr ⟨hx, ?_⟩, haccepted⟩
    exact decide_eq_true fun hgone => List.filter_eq_nil_iff.mp hnone.2 x hx (decide_eq_true hgone)

/-- A signal is entered. -/
theorem Sound.enter (h : Sound supported s) {signo : UInt32} (hsupported : signo ∈ supported) :
    Sound supported { s.enter signo with raised := s.raised ++ [signo] } := by
  rw [SignalDelivery.enter]
  split
  · rename_i hblocked
    split
    · refine ⟨h.consistent, h.pending, fun x => ?_, h.byDefault, h.discarded, h.readable⟩
      have hx := h.conserved x
      simp only [List.count_append]
      omega
    · refine ⟨h.consistent, ?_, fun x => ?_, h.byDefault, h.discarded,
        fun hreported hremoved => ?_⟩
      · intro x hx
        obtain hx | hx := List.mem_append.mp hx
        · exact h.pending x hx
        · obtain rfl := List.mem_singleton.mp hx
          exact ⟨hsupported, hblocked⟩
      · have hx := h.conserved x
        simp only [List.count_append]
        omega
      · obtain ⟨x, hx, haccepted⟩ := h.readable hreported hremoved
        exact ⟨x, List.mem_append_left _ hx, haccepted⟩
  · rename_i hunblocked
    refine ⟨h.consistent, h.pending, fun x => ?_, ?_, h.discarded, h.readable⟩
    · have hx := h.conserved x
      simp only [deliver, List.count_append, List.map_append, List.map_cons, List.map_nil]
      omega
    · intro d hd
      obtain hd | hd := List.mem_append.mp hd
      · exact h.byDefault d hd
      · obtain rfl := List.mem_singleton.mp hd
        by_cases hblockable : signo ∈ unblockable
        · exact .inl hblockable
        · exact .inr (h.consistent.signalMap_eq_none hsupported
            (fun hblocked => hunblocked ⟨hblocked, hblockable⟩) hblockable)

/-- A signal is sent. -/
theorem Sound.send (h : Sound supported s) {signo : UInt32} (hsupported : signo ∈ supported) :
    Sound supported { s.send signo with raised := s.raised ++ [signo] } :=
  (h.discard signo).enter hsupported

/-- A call changes the masks, and the kernel delivers what they let out. -/
theorem Sound.call (h : Sound supported s) {op : SignalOp κ} {signal : Signal κ}
    (hstep : s.signal.step supported op = .ok signal) :
    Sound supported { s with signal, removed := s.removed || removes s.signal op }.flush := by
  have hconsistent := h.consistent.step hstep
  constructor
  · exact hconsistent
  · intro x hx
    obtain ⟨hx, hblocked⟩ := List.mem_filter.mp hx
    obtain ⟨hsupported, -, hblockable⟩ := h.pending x hx
    exact ⟨hsupported, of_decide_eq_true hblocked, hblockable⟩
  · intro x
    have hx := h.conserved x
    -- the mask divides the pending signals into those that stay and those that are let out
    have hparts := count_divided signal.blocked s.pending x
    simp only [flush, deliver, List.map_append, List.map_map, Function.comp_def, List.map_id',
      List.count_append]
    omega
  · intro d hd
    obtain hd | hd := List.mem_append.mp hd
    · exact h.byDefault d hd
    · obtain ⟨x, hx, rfl⟩ := List.mem_map.mp hd
      obtain ⟨hx, hblocked⟩ := List.mem_filter.mp hx
      obtain ⟨hsupported, -, hblockable⟩ := h.pending x hx
      exact .inr (hconsistent.signalMap_eq_none hsupported (of_decide_eq_true hblocked)
        hblockable)
  · exact h.discarded
  · intro hreported hkept
    obtain ⟨⟨hbefore, hremoves⟩, hsince⟩ :
        (s.removed = false ∧ removes s.signal op = false) ∧ s.discardedSince = false := by
      simpa [flush, deliver] using hkept
    obtain ⟨x, hx, haccepted⟩ := h.readable hreported (by simp [hbefore, hsince])
    obtain ⟨hsupported, -, hblockable⟩ := h.pending x hx
    obtain ⟨hblocked', haccepted'⟩ := Signal.accepted_of_not_removes h.consistent hstep hremoves
      hsupported hblockable ((h.accepted_iff x hx).mp haccepted)
    exact ⟨x, List.mem_filter.mpr ⟨hx, decide_eq_true hblocked'⟩, haccepted'⟩

/-- A signal is read, and its callback is called. -/
theorem Sound.read (h : Sound supported s) {signo : UInt32} {cb : κ} (hsigno : signo ∈ s.pending) :
    Sound supported { s with
      pending := s.pending.erase signo
      reported := false
      running := some signo
      handled := s.handled ++ [(signo, cb)] } where
  consistent := h.consistent
  pending := fun x hx => h.pending x (List.mem_of_mem_erase hx)
  conserved := by
    intro x
    have hx := h.conserved x
    have herase := (List.perm_cons_erase hsigno).count_eq x
    simp only [List.map_append, List.map_cons, List.map_nil, List.count_append, List.count_cons,
      List.count_nil] at herase ⊢
    omega
  byDefault := h.byDefault
  discarded := h.discarded
  readable := by simp

/-- What a step ends in: a sound state or a fault, which is never a call of an empty function, and
a failed assertion only after a removal or a discard. -/
theorem Sound.step (h : Sound supported s) (action : DeliveryAction κ) :
    Ensures (s.step supported action) (Sound supported)
      (fun e => e ≠ .emptyFunction ∧ (e = .assertFailed → s.removed ∨ s.discardedSince)) := by
  have hdisabled : (DeliveryFault.disabled ≠ .emptyFunction ∧
      (DeliveryFault.disabled = .assertFailed → s.removed ∨ s.discardedSince)) := ⟨by simp, by simp⟩
  cases action with
  | raise signo =>
    rw [SignalDelivery.step]
    split
    · exact h.send ‹_›
    · exact hdisabled
  | call op =>
    rw [SignalDelivery.step]
    split
    · exact ⟨by simp, by simp⟩
    · cases hstep : s.signal.step supported op with
      | ok signal => exact h.call hstep
      | error e => exact hdisabled
  | report =>
    rw [SignalDelivery.step]
    split
    · rename_i hreport
      exact ⟨h.consistent, h.pending, h.conserved, h.byDefault, h.discarded,
        fun _ _ => hreport.2.2⟩
    · exact hdisabled
  | handleRead signo =>
    rw [SignalDelivery.step]
    split
    · rename_i hturn
      split
      · rename_i hread
        have hsome : (s.signal.handleRead signo).isSome :=
          (h.accepted_iff signo hread.1).mp hread.2
        obtain ⟨cb, hcb⟩ := Option.isSome_iff_exists.mp hsome
        rw [hcb]
        exact h.read hread.1
      · split
        · exact hdisabled
        · rename_i hnone
          refine ⟨by simp, fun _ => ?_⟩
          by_contra hremoved
          exact hnone (h.readable hturn.2 hremoved)
    · exact hdisabled
  | callbackReturns =>
    rw [SignalDelivery.step]
    split
    · exact ⟨h.consistent, h.pending, h.conserved, h.byDefault, h.discarded, h.readable⟩
    · exact hdisabled

/-- In every run the descriptor accepts exactly the pending signals that have a callback, no
signal is lost or duplicated, no empty function is called, and the assertion of `handleRead`
fails only if a registered signal has been removed, or a pending one discarded, since `poll`
reported the descriptor. -/
theorem along_delivers (supported initial : Finset UInt32) (actions : List (DeliveryAction κ)) :
    Along (step supported)
      (fun s _ r => Ensures r Delivers
        (fun e => e ≠ .emptyFunction ∧ (e = .assertFailed → s.removed ∨ s.discardedSince)))
      { signal := { blocked := initial } } actions := by
  apply along_of_guarded (Sound supported) ?_ ?_ (sound_initial supported initial) guarded_true
  · intro s action h _
    exact (h.step action).imp fun t ht => ht.delivers
  · intro s action t h _ hstep
    have hnext := h.step action
    rw [hstep] at hnext
    exact hnext

end SignalDelivery

end Reactor
