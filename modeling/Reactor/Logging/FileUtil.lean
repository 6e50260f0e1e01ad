import Reactor.Logging.LogFile

/-!
# Writing a message to a file

`write_unlocked` calls `fwrite_unlocked` until the whole message has been accepted. The result
is a `size_t`, so that the test for an error never holds, and a call that accepts nothing is
repeated for ever. When the loop ends, all bytes have been accepted, and all are counted.
-/

namespace Reactor

/-- The loop of `write_unlocked`: the calls made, the bytes from `ptr` on, of which there are
`nwritten`, and the bytes that have been accepted. -/
structure WriteState where
  calls : ℕ := 0
  rest : List UInt8
  accepted : List UInt8 := []
  deriving DecidableEq

namespace WriteState

/-- A call of `fwrite_unlocked` where `results i` bytes can be taken by the call `i`. It is
asked for all that is left, and its result does not exceed that. -/
def write (results : ℕ → ℕ) (s : WriteState) : WriteState :=
  let nbytes := min (results s.calls) s.rest.length
  { calls := s.calls + 1, rest := s.rest.drop nbytes, accepted := s.accepted ++ s.rest.take nbytes }

/-- The loop, as long as there is fuel. -/
def writeLoop (results : ℕ → ℕ) : ℕ → WriteState → Option WriteState
  | 0, _ => none
  | fuel + 1, s => if s.rest = [] then some s else writeLoop results fuel (s.write results)

end WriteState

/-- `FileUtil::write_unlocked`. -/
def FileUtil.writeUnlocked (file : FileUtil) (results : ℕ → ℕ) (fuel : ℕ) (msg : List UInt8) :
    Option FileUtil := do
  let s ← WriteState.writeLoop results fuel { rest := msg }
  return { file with
    nwrittenBytes := sizeAdd file.nwrittenBytes msg.length
    messages := file.messages ++ [s.accepted] }

/-- The loop ends, and the count grows by the number of bytes that have been accepted. -/
def FileUtil.CountsTruthfully (file : FileUtil) (results : ℕ → ℕ) (msg : List UInt8) : Prop :=
  ∃ fuel file' accepted, file.writeUnlocked results fuel msg = some file' ∧
    file'.messages = file.messages ++ [accepted] ∧
    file'.nwrittenBytes = sizeAdd file.nwrittenBytes accepted.length

namespace WriteState

section

variable {results : ℕ → ℕ} {msg : List UInt8} {s : WriteState}

/-- The bytes that the first calls can take. -/
def offered (results : ℕ → ℕ) (calls : ℕ) : ℕ := ((List.range calls).map results).sum

/-- One more call offers what `fwrite_unlocked` takes in it. -/
theorem offered_succ (results : ℕ → ℕ) (calls : ℕ) :
    offered results (calls + 1) = offered results calls + results calls := by
  simp [offered, List.range_succ]

/-- The state behind a number of calls. -/
def after (results : ℕ → ℕ) (msg : List UInt8) (calls : ℕ) : WriteState where
  calls := calls
  rest := msg.drop (offered results calls)
  accepted := msg.take (offered results calls)

/-- The loop goes on with the next call. -/
theorem write_after (calls : ℕ) :
    (after results msg calls).write results = after results msg (calls + 1) := by
  rw [write, after, after, offered_succ]
  congr 1
  · rw [← List.drop_eq_drop_min, List.drop_drop]
  · rw [← List.take_eq_take_min, List.take_add]

/-- Nothing is left once the calls have taken as much as there is. -/
theorem rest_after_eq_nil {calls : ℕ} :
    (after results msg calls).rest = [] ↔ msg.length ≤ offered results calls :=
  List.drop_eq_nil_iff

/-- When the loop ends, the calls have taken the whole message. -/
theorem of_writeLoop_eq_some {fuel calls : ℕ}
    (h : writeLoop results fuel (after results msg calls) = some s) :
    ∃ calls', msg.length ≤ offered results calls' ∧ s.accepted = msg := by
  induction fuel generalizing calls with
  | zero => cases h
  | succ fuel ih =>
    rw [writeLoop, write_after] at h
    split at h
    · next hrest =>
      have hall := rest_after_eq_nil.mp hrest
      obtain rfl := Option.some.inj h
      exact ⟨calls, hall, List.take_of_length_le hall⟩
    · exact ih h

/-- If some number of calls can take the message, the loop ends. -/
theorem exists_writeLoop {calls : ℕ} (n : ℕ) (h : msg.length ≤ offered results (calls + n)) :
    ∃ s, writeLoop results (n + 1) (after results msg calls) = some s := by
  induction n generalizing calls with
  | zero => exact ⟨_, if_pos (rest_after_eq_nil.mpr h)⟩
  | succ n ih =>
    rw [writeLoop, write_after]
    split
    · exact ⟨_, rfl⟩
    · exact ih (by rwa [Nat.succ_add_eq_add_succ])

end

end WriteState

namespace FileUtil

open WriteState

variable {file file' : FileUtil} {results : ℕ → ℕ} {fuel : ℕ} {msg : List UInt8}

/-- A write that ends has appended the whole message. -/
theorem writeUnlocked_eq_some (h : file.writeUnlocked results fuel msg = some file') :
    file' = file.append msg ∧ ∃ calls, msg.length ≤ offered results calls := by
  rw [writeUnlocked] at h
  obtain ⟨s, hloop, hfile⟩ := Option.bind_eq_some_iff.mp h
  have hstart : writeLoop results fuel (after results msg 0) = some s := hloop
  obtain ⟨calls, hcalls, haccepted⟩ := of_writeLoop_eq_some hstart
  obtain rfl := Option.some.inj hfile
  exact ⟨by rw [haccepted, append], calls, hcalls⟩

/-- A write ends if the calls finally take the whole message. -/
theorem exists_writeUnlocked {calls : ℕ} (h : msg.length ≤ offered results calls) :
    ∃ fuel, file.writeUnlocked results fuel msg = some (file.append msg) := by
  obtain ⟨s, hloop⟩ : ∃ s, writeLoop results (calls + 1) (after results msg 0) = some s :=
    exists_writeLoop calls (by rwa [Nat.zero_add])
  have hsome : file.writeUnlocked results (calls + 1) msg = some { file with
      nwrittenBytes := sizeAdd file.nwrittenBytes msg.length
      messages := file.messages ++ [s.accepted] } :=
    Option.bind_eq_some_iff.mpr ⟨s, hloop, rfl⟩
  exact ⟨calls + 1, (writeUnlocked_eq_some hsome).1 ▸ hsome⟩

/-- The loop ends and counts truthfully exactly if the calls can take the whole message. -/
theorem countsTruthfully_iff (file : FileUtil) (results : ℕ → ℕ) (msg : List UInt8) :
    file.CountsTruthfully results msg ↔ ∃ calls, msg.length ≤ offered results calls := by
  constructor
  · rintro ⟨fuel, file', accepted, hwrite, -⟩
    exact (writeUnlocked_eq_some hwrite).2
  · rintro ⟨calls, hcalls⟩
    obtain ⟨fuel, hwrite⟩ : ∃ fuel, file.writeUnlocked results fuel msg = some (file.append msg) :=
      exists_writeUnlocked hcalls
    exact ⟨fuel, file.append msg, msg, hwrite, rfl, rfl⟩

/-- A byte for a full disk. -/
theorem not_countsTruthfully :
    ¬ ({ opened := 0 } : FileUtil).CountsTruthfully (fun _ => 0) [0] := by
  rintro ⟨fuel, file', accepted, hwrite, -⟩
  obtain ⟨-, calls, hcalls⟩ := writeUnlocked_eq_some hwrite
  simp [offered] at hcalls

end FileUtil

end Reactor
