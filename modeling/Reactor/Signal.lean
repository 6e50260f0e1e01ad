import Mathlib.Data.Finset.Basic
import Mathlib.Logic.Function.Basic
import Reactor.Lib.Run
import Reactor.Machine

/-!
# Signals as events

`Signal` keeps the signals that it handles in four places: in `mask_`, in the signal descriptor,
in the mask of the thread and as the keys of a map of callbacks. A registration enters a signal
into all of them, provided that it can be blocked. A removal leaves the descriptor as it is and
makes `mask_` the mask of the thread.
-/

namespace Reactor

open Transition

/-- `SIGKILL` and `SIGSTOP`, which the kernel ignores in every mask. -/
def unblockable : Finset UInt32 := {9, 19}

/-- `Signal`, with what the kernel keeps; `κ` are the callbacks. -/
structure Signal (κ : Type) where
  mask : Finset UInt32 := ∅
  /-- What the descriptor accepts. -/
  signalFd : Finset UInt32 := ∅
  /-- The mask of the loop's thread. -/
  blocked : Finset UInt32
  signalMap : UInt32 → Option κ := fun _ => none

/-- A call in the thread of the loop. -/
inductive SignalOp (κ : Type) where
  | setSignal (signo : UInt32) (cb : κ)
  | delSignal (signo : UInt32)

namespace Signal

variable {κ : Type}

/-- `sigaddset`, which fails for numbers other than the supported ones. -/
def sigaddset (supported mask : Finset UInt32) (signo : UInt32) : Finset UInt32 :=
  if signo ∈ supported then insert signo mask else mask

/-- `sigdelset`. -/
def sigdelset (supported mask : Finset UInt32) (signo : UInt32) : Finset UInt32 :=
  if signo ∈ supported then mask.erase signo else mask

/-- `Signal::setSignal`. -/
def setSignal (supported : Finset UInt32) (signal : Signal κ) (signo : UInt32) (cb : κ) :
    Signal κ :=
  let mask := sigaddset supported signal.mask signo
  { mask
    blocked := signal.blocked ∪ (mask \ unblockable)
    signalMap := Function.update signal.signalMap signo (some cb)
    signalFd := mask \ unblockable }

/-- `Signal::delSignal`. -/
def delSignal (supported : Finset UInt32) (signal : Signal κ) (signo : UInt32) : Signal κ :=
  match signal.signalMap signo with
  | some _ =>
    let mask := sigdelset supported signal.mask signo
    { signal with
      mask
      blocked := mask \ unblockable
      signalMap := Function.update signal.signalMap signo none }
  | none => signal

/-- `Signal::handleRead` of a signal: the callback that is called. Without one an empty
function is. -/
def handleRead (signal : Signal κ) (ssiSigno : UInt32) : Option κ := signal.signalMap ssiSigno

/-- A call of user code. -/
def step (supported : Finset UInt32) (signal : Signal κ) :
    SignalOp κ → Except Disabled (Signal κ)
  | .setSignal signo cb => .ok (signal.setSignal supported signo cb)
  | .delSignal signo => .ok (signal.delSignal supported signo)

/-- The four places agree, where `initial` was blocked at the beginning, and every signal that
the descriptor accepts has a callback. -/
structure InAgreement (initial : Finset UInt32) (signal : Signal κ) : Prop where
  mask_iff : ∀ signo, signo ∈ signal.mask ↔ (signal.signalMap signo).isSome
  signalFd_iff : ∀ signo, signo ∈ signal.signalFd ↔ (signal.signalMap signo).isSome
  blocked_iff : ∀ signo, signo ∈ signal.blocked ↔
    signo ∈ initial ∨ (signal.signalMap signo).isSome
  handled : ∀ signo ∈ signal.signalFd, (signal.handleRead signo).isSome

/-- A registered signal is supported and can be blocked, and no registered signal is removed. -/
def Registers (supported : Finset UInt32) (signal : Signal κ) : SignalOp κ → Prop
  | .setSignal signo _ => signo ∈ supported ∧ signo ∉ unblockable
  | .delSignal signo => signal.signalMap signo = none

section

variable {supported initial : Finset UInt32} {signal : Signal κ} {signo : UInt32} {cb : κ}

/-- Between calls only supported signals are in `mask_`, and the descriptor accepts none that
cannot be blocked. -/
structure Sound (supported initial : Finset UInt32) (signal : Signal κ) : Prop where
  agreement : signal.InAgreement initial
  mask_subset : signal.mask ⊆ supported
  signalFd_disjoint : Disjoint signal.signalFd unblockable

/-- The sets agree where each of them follows the map of callbacks. -/
theorem InAgreement.of_iff
    (hmask : ∀ signo, signo ∈ signal.mask ↔ (signal.signalMap signo).isSome)
    (hfd : ∀ signo, signo ∈ signal.signalFd ↔ (signal.signalMap signo).isSome)
    (hblocked : ∀ signo, signo ∈ signal.blocked ↔
      signo ∈ initial ∨ (signal.signalMap signo).isSome) :
    signal.InAgreement initial :=
  ⟨hmask, hfd, hblocked, fun signo hsigno => (hfd signo).mp hsigno⟩

/-- A new object agrees with the signals blocked before. -/
theorem sound_initial (supported initial : Finset UInt32) :
    Sound supported initial ({ blocked := initial } : Signal κ) where
  agreement := .of_iff (by simp) (by simp) (by simp)
  mask_subset := Finset.empty_subset _
  signalFd_disjoint := Finset.disjoint_empty_left _

/-- A signal that can be blocked is entered everywhere. -/
theorem Sound.setSignal (h : Sound supported initial signal) (hsupported : signo ∈ supported)
    (hblockable : signo ∉ unblockable) :
    Sound supported initial (signal.setSignal supported signo cb) := by
  obtain ⟨hmask, hfd, hblocked, -⟩ := h.agreement
  have hadd : sigaddset supported signal.mask signo = insert signo signal.mask :=
    if_pos hsupported
  have hkeys : ∀ s, (Function.update signal.signalMap signo (some cb) s).isSome ↔
      s = signo ∨ (signal.signalMap s).isSome := by
    intro s
    by_cases hs : s = signo
    · simp [hs]
    · simp [hs]
  have hnew : ∀ s, s ∈ insert signo signal.mask \ unblockable ↔
      s = signo ∨ (signal.signalMap s).isSome := by
    intro s
    rw [Finset.mem_sdiff, Finset.mem_insert, hmask]
    constructor
    · exact And.left
    · rintro (rfl | hs)
      · exact ⟨.inl rfl, hblockable⟩
      · exact ⟨.inr hs, Finset.disjoint_left.mp h.signalFd_disjoint ((hfd s).mpr hs)⟩
  constructor
  · apply InAgreement.of_iff
    · intro s
      rw [Signal.setSignal, hkeys, hadd, Finset.mem_insert, hmask]
    · intro s
      rw [Signal.setSignal, hkeys, hadd, hnew]
    · intro s
      rw [Signal.setSignal, hkeys, hadd, Finset.mem_union, hnew, hblocked]
      tauto
  · rw [Signal.setSignal, hadd]
    exact Finset.insert_subset hsupported h.mask_subset
  · exact Finset.sdiff_disjoint

/-- Any other signal gets a callback, but the descriptor does not accept it. -/
theorem Sound.not_inAgreement_setSignal (h : Sound supported initial signal)
    (hsigno : ¬ (signo ∈ supported ∧ signo ∉ unblockable)) :
    ¬ (signal.setSignal supported signo cb).InAgreement initial := by
  intro hnext
  have hsome : ((signal.setSignal supported signo cb).signalMap signo).isSome := by
    simp [Signal.setSignal]
  have hmask := (hnext.mask_iff signo).mpr hsome
  have hfd := (hnext.signalFd_iff signo).mpr hsome
  rw [Signal.setSignal] at hmask hfd
  refine hsigno ⟨?_, (Finset.mem_sdiff.mp hfd).2⟩
  by_contra hunsupported
  have hsame : sigaddset supported signal.mask signo = signal.mask := if_neg hunsupported
  rw [hsame] at hmask
  exact hunsupported (h.mask_subset hmask)

/-- A removed signal is still accepted by the descriptor. -/
theorem Sound.not_inAgreement_delSignal (h : Sound supported initial signal)
    (hsigno : signal.signalMap signo ≠ none) :
    ¬ (signal.delSignal supported signo).InAgreement initial := by
  intro hnext
  obtain ⟨cb, hcb⟩ := Option.ne_none_iff_exists'.mp hsigno
  have haccepted := (h.agreement.signalFd_iff signo).mpr (by rw [hcb]; rfl)
  rw [Signal.delSignal, hcb] at hnext
  have hsome := (hnext.signalFd_iff signo).mp haccepted
  simp at hsome

/-- Deleting a signal without a callback changes nothing. -/
theorem delSignal_of_none (h : signal.signalMap signo = none) :
    signal.delSignal supported signo = signal := by
  rw [Signal.delSignal, h]

/-- A call keeps the agreement exactly if it registers a signal that can be blocked or removes
one that is not registered. -/
theorem Sound.step_decides (h : Sound supported initial signal) (op : SignalOp κ) :
    Decides (signal.Registers supported op) (signal.step supported op)
      (fun signal' => Sound supported initial signal' ∧ signal'.InAgreement initial)
      (fun signal' => ¬ signal'.InAgreement initial) := by
  cases op with
  | setSignal signo cb =>
    refine decides_ok ?_ h.not_inAgreement_setSignal
    rintro ⟨hsupported, hblockable⟩
    have hnext : Sound supported initial (signal.setSignal supported signo cb) :=
      h.setSignal hsupported hblockable
    exact ⟨hnext, hnext.agreement⟩
  | delSignal signo =>
    refine decides_ok ?_ h.not_inAgreement_delSignal
    intro hnone
    rw [delSignal_of_none hnone]
    exact ⟨h, h.agreement⟩

end

/-- The four places agree after every call of a run exactly if no registered signal is removed
and only signals that can be blocked are registered. -/
theorem inAgreement_iff_registers (supported initial : Finset UInt32) (ops : List (SignalOp κ)) :
    Always (step supported) (InAgreement initial) { blocked := initial } ops ↔
      Guarded (step supported) (Registers supported) { blocked := initial } ops :=
  along_iff_of_decides (P := fun _ signal => InAgreement initial signal)
    (fun _ op h => h.step_decides op) (sound_initial supported initial)

/-- `SIGINT` is registered and removed again. -/
theorem delSignal_not_inAgreement :
    ¬ Always (step ((List.range' 1 64).map UInt32.ofNat).toFinset) (InAgreement ∅)
      ({ blocked := ∅ } : Signal Unit) [.setSignal 2 (), .delSignal 2] := by
  rintro ⟨-, hrest⟩
  obtain ⟨hagree, -⟩ := hrest _ rfl
  have hsome := ((hagree _ rfl).signalFd_iff 2).mp (by decide +kernel)
  cases hsome

end Signal

end Reactor
