import Reactor.Logging.AsyncLogging
import Reactor.Logging.LogFile
import Reactor.Logging.Record

/-!
# From the threads to the files

The back end of `AsyncLogging` passes its buffers to a `LogFile`, which rolls from file to file.
A buffer holds whole messages and goes to one file, so that no message is split, whatever the
clock reads and wherever a file ends. There is one fault left: `lastRollFile_` is not
initialised, and if it happens to hold the second in which the `LogFile` is constructed, no file
is opened and the first buffer is written through a null pointer.
-/

namespace Reactor

open Transition

/-- The bytes of a file. -/
def FileUtil.text (file : FileUtil) : List UInt8 := file.messages.flatten

/-- A message that is a line. -/
def Terminated (msg : List UInt8) : Prop := ∃ front, msg = front ++ [newline] ∧ newline ∉ front

/-- `file_` exists in `threadfunc`. -/
def BackEndPc.hasLogFile : BackEndPc → Bool
  | .idle | .starting | .begun => false
  | .test | .lock | .waiting | .writing _ => true

/-- `AsyncLogging` with the `LogFile` of its back end and the files of those that have ended. -/
structure LogPipeline (τ : Type) where
  async : AsyncLogging τ := {}
  /-- The local variable `file_` of `threadfunc`. -/
  file : Option LogFile := none
  ended : List FileUtil := []

/-- A step of a thread. -/
structure LogPipelineAction (τ : Type) where
  action : AsyncAction τ
  /-- The reading of the clock, if there is one. -/
  now : ℤ
  /-- What `lastRollFile_` happens to hold, if a `LogFile` is constructed. -/
  indeterminate : ℤ

/-- `lastRollFile_` happens to hold the second in which the `LogFile` is constructed. -/
def LogPipelineAction.Coincides {τ : Type} (a : LogPipelineAction τ) : Prop :=
  a.action = .begin ∧ a.indeterminate = a.now

/-- What the logger passes on for a record that is a line is a message of this kind. -/
theorem LogRecord.IsLine.exists_terminated {r : LogRecord} (h : r.IsLine) (hno : r.NoNewline) :
    ∃ msg : LogMessage, r.output = .ok (msg.1.map some) ∧ Terminated msg.1 := by
  obtain ⟨stream, front, -, -, houtput, hlen, hfront⟩ := h
  exact ⟨⟨front ++ [newline], hlen⟩, houtput, front, rfl, hfront hno⟩

/-! ## The messages of a file and of a `LogFile` -/

namespace LogFile

variable {log : LogFile} {now : ℤ}

/-- A new file is empty. -/
theorem messages_rollFile (log : LogFile) (now : ℤ) :
    (log.rollFile now).files.flatMap FileUtil.messages = log.files.flatMap FileUtil.messages := by
  rw [rollFile]
  split
  · simp [files]
  · rfl

/-- A roll leaves a file open. -/
theorem isSome_rollFile (h : log.file.isSome) : (log.rollFile now).file.isSome := by
  rw [rollFile]
  split
  · rfl
  · exact h

/-- A message goes to the current file as a whole, be it rolled or not. -/
theorem exists_append (h : log.file.isSome) (msg : List UInt8) (now : ℤ) :
    ∃ log', log.append (msg, now) = .ok log' ∧ log'.file.isSome ∧
      log'.files.flatMap FileUtil.messages = log.files.flatMap FileUtil.messages ++ [msg] := by
  obtain ⟨file, hfile⟩ := Option.isSome_iff_exists.mp h
  have hmessages (count : ℤ) :
      (files { log with file := some (file.append msg), count }).flatMap FileUtil.messages =
        log.files.flatMap FileUtil.messages ++ [msg] := by
    simp [files, hfile, FileUtil.append]
  rw [append, hfile]
  dsimp only
  split
  · exact ⟨_, rfl, isSome_rollFile rfl, by rw [messages_rollFile, hmessages]⟩
  · split
    · exact ⟨_, rfl, isSome_rollFile rfl, by rw [messages_rollFile]; exact hmessages 0⟩
    · exact ⟨_, rfl, rfl, hmessages _⟩

/-- A new log has no messages in its files. -/
theorem messages_create (fileSize fileRows : ℕ) (indeterminate now : ℤ) :
    (create fileSize fileRows indeterminate now).files.flatMap FileUtil.messages = [] := by
  rw [create, messages_rollFile]
  rfl

/-- A `LogFile` is constructed without a file only by coincidence. -/
theorem isSome_create {fileSize fileRows : ℕ} {indeterminate : ℤ} (h : indeterminate ≠ now) :
    (create fileSize fileRows indeterminate now).file.isSome := by
  rw [create, rollFile, if_pos (Ne.symm h)]
  rfl

end LogFile

namespace AsyncLogging

variable {τ : Type}

/-- What a step does to the place of the back end and to what has been written. -/
def Moves (log log' : AsyncLogging τ) : AsyncAction τ → Prop
  | .begin => log.pc.hasLogFile = false ∧ log'.pc.hasLogFile = true ∧ log'.written = log.written
  | .test =>
    log.pc.hasLogFile = true ∧ log'.pc.hasLogFile = log.start ∧ log'.written = log.written
  | .writeBuffer => ∃ buffer rest data, log.pc = .writing (buffer :: rest) ∧
      contents buffer = .ok data ∧ log'.pc = .writing rest ∧ log'.written = log.written ++ [data]
  | .append _ | .start | .create | .stopCall _ | .stopClear _ | .stopReturn _ | .lock | .wake
  | .recycle => log'.pc.hasLogFile = log.pc.hasLogFile ∧ log'.written = log.written

section

variable {log log' : AsyncLogging τ}

/-- A swap writes nothing itself. -/
theorem moves_swapSection (hok : log.swapSection = .ok log') :
    log'.pc.hasLogFile = true ∧ log'.written = log.written := by
  rw [swapSection] at hok
  dsimp only at hok
  split at hok
  · split at hok
    · cases hok
    · obtain rfl := Except.ok.inj hok
      exact ⟨rfl, rfl⟩
  · split at hok
    · cases hok
    · obtain rfl := Except.ok.inj hok
      exact ⟨rfl, rfl⟩

/-- Every step moves the back end as the pipeline needs it. -/
theorem moves_of_step [DecidableEq τ] {a : AsyncAction τ} (hok : log.step a = .ok log') :
    log.Moves log' a := by
  cases a with
  | append msg =>
    obtain ⟨-, hwritten, hpc, -⟩ := append_cases hok
    exact ⟨by rw [hpc], hwritten⟩
  | start | create | begin =>
    rw [step] at hok
    split at hok
    · next hpc =>
      obtain rfl := Except.ok.inj hok
      simp [Moves, hpc, BackEndPc.hasLogFile]
    · cases hok
  | stopCall t =>
    rw [step] at hok
    split at hok
    · split at hok
      · obtain rfl := Except.ok.inj hok
        exact ⟨rfl, rfl⟩
      · obtain rfl := Except.ok.inj hok
        exact ⟨rfl, rfl⟩
    · cases hok
  | stopClear t =>
    rw [step] at hok
    split at hok
    · obtain rfl := Except.ok.inj hok
      exact ⟨rfl, rfl⟩
    · cases hok
  | stopReturn t =>
    rw [step] at hok
    split at hok
    · split at hok
      · obtain rfl := Except.ok.inj hok
        exact ⟨rfl, rfl⟩
      · cases hok
    · cases hok
  | test =>
    rw [step] at hok
    split at hok
    · next hpc =>
      obtain rfl := Except.ok.inj hok
      refine ⟨by rw [hpc]; rfl, ?_, rfl⟩
      cases log.start with
      | true => rfl
      | false => rfl
    · cases hok
  | lock =>
    rw [step] at hok
    split at hok
    · next hpc =>
      split at hok
      · obtain rfl := Except.ok.inj hok
        exact ⟨by rw [hpc]; rfl, rfl⟩
      · obtain ⟨hnext, hwritten⟩ := moves_swapSection hok
        exact ⟨by rw [hnext, hpc]; rfl, hwritten⟩
    · cases hok
  | wake =>
    rw [step] at hok
    split at hok
    · next hpc =>
      obtain ⟨hnext, hwritten⟩ := moves_swapSection hok
      exact ⟨by rw [hnext, hpc]; rfl, hwritten⟩
    · cases hok
  | writeBuffer =>
    rw [step] at hok
    split at hok
    · next buffer rest hpc =>
      obtain ⟨b, hb, hok⟩ := bind_eq_ok.mp hok
      obtain ⟨data, hdata, hok⟩ := bind_eq_ok.mp hok
      obtain rfl := Except.ok.inj hok
      exact ⟨buffer, rest, data, hpc, bind_eq_ok.mpr ⟨b, hb, hdata⟩, rfl, rfl⟩
    · cases hok
  | recycle =>
    rw [step] at hok
    split at hok
    · next hpc =>
      obtain ⟨first, -, hok⟩ := bind_eq_ok.mp hok
      obtain ⟨second, -, hok⟩ := bind_eq_ok.mp hok
      obtain rfl := Except.ok.inj hok
      exact ⟨by rw [hpc]; rfl, rfl⟩
    · cases hok

end

end AsyncLogging

namespace LogPipeline

variable {τ : Type}

/-- All files, in the order in which they were opened. -/
def files (p : LogPipeline τ) : List FileUtil := p.ended ++ p.file.toList.flatMap LogFile.files

/-- What the back end does with its `LogFile`. -/
def moveFile (fileSize fileRows : ℕ) (p : LogPipeline τ) (a : LogPipelineAction τ) :
    Except AsyncStop (LogPipeline τ) :=
  match a.action, p.async.pc with
  | .begin, _ => .ok { p with file := some (.create fileSize fileRows a.indeterminate a.now) }
  | .writeBuffer, .writing (buffer :: _) =>
    match p.file with
    | some file => do
      let data ← AsyncLogging.contents buffer
      let file ← (file.append (data.map (·.getD 0), a.now)).mapError .fault
      return { p with file := some file }
    | none => .error (.fault .nullDereference)
  | .test, _ =>
    if p.async.start then .ok p else .ok { p with file := none, ended := p.files }
  | _, _ => .ok p

section

variable [DecidableEq τ]

/-- A step of the interleaving. -/
def step (fileSize fileRows : ℕ) (p : LogPipeline τ) (a : LogPipelineAction τ) :
    Except AsyncStop (LogPipeline τ) := do
  let async ← p.async.step a.action
  let p ← p.moveFile fileSize fileRows a
  return { p with async }

end

/-- The `LogFile` has no file. -/
def Unopened (p : LogPipeline τ) : Prop := ∃ file, p.file = some file ∧ file.file = none

/-- The invariant. -/
structure Sound (p : LogPipeline τ) : Prop where
  async : p.async.Sound
  isSome_file : p.file.isSome = p.async.pc.hasLogFile
  written_eq : (p.files.flatMap FileUtil.messages).map (·.map some) = p.async.written

/-- A new pipeline is sound. -/
theorem sound_initial : Sound ({} : LogPipeline τ) where
  async := AsyncLogging.sound_initial
  isSome_file := rfl
  written_eq := rfl

section

variable {p : LogPipeline τ} {async : AsyncLogging τ}

/-- A step in which the `LogFile` is left alone. -/
theorem Sound.setAsync (h : p.Sound) (hasync : async.Sound)
    (hmoves : async.pc.hasLogFile = p.async.pc.hasLogFile ∧ async.written = p.async.written) :
    Sound { p with async } where
  async := hasync
  isSome_file := h.isSome_file.trans hmoves.1.symm
  written_eq := h.written_eq.trans hmoves.2.symm

/-- A new back end constructs its `LogFile`. -/
theorem Sound.begin (h : p.Sound) (hasync : async.Sound) (hmoves : p.async.Moves async .begin)
    (fileSize fileRows : ℕ) (indeterminate now : ℤ) :
    Sound { p with async, file := some (.create fileSize fileRows indeterminate now) } where
  async := hasync
  isSome_file := hmoves.2.1.symm
  written_eq := by
    have hnone : p.file = none := by
      rw [← Option.not_isSome_iff_eq_none, h.isSome_file, hmoves.1]
      exact Bool.false_ne_true
    rw [hmoves.2.2, ← h.written_eq]
    simp [files, hnone, LogFile.messages_create]

/-- The back end ends, and its files are closed. -/
theorem Sound.finish (h : p.Sound) (hasync : async.Sound) (hmoves : p.async.Moves async .test)
    (hstart : p.async.start = false) :
    Sound { async, file := none, ended := p.files } where
  async := hasync
  isSome_file := (hmoves.2.1.trans hstart).symm
  written_eq := by
    rw [hmoves.2.2, ← h.written_eq]
    simp [files]

/-- A buffer goes to a file. Without a file it is a fault. -/
theorem Sound.writeBuffer (h : p.Sound) (hasync : async.Sound)
    (hmoves : p.async.Moves async .writeBuffer) (fileSize fileRows : ℕ) (now indeterminate : ℤ) :
    Ensures (p.moveFile fileSize fileRows ⟨.writeBuffer, now, indeterminate⟩)
      (fun p' => Sound { p' with async } ∧ ¬ Unopened p')
      (fun e => e = .fault .nullDereference ∧ p.Unopened) := by
  obtain ⟨buffer, rest, data, hpc, hdata, hnext, hwritten⟩ := hmoves
  obtain ⟨done, -, -, hdone, -, -, -⟩ := hasync.queued
  obtain ⟨file, hfile⟩ := Option.isSome_iff_exists.mp (h.isSome_file.trans (by rw [hpc]; rfl))
  have hbytes : ∃ bytes : List UInt8, data = bytes.map some := by
    have hmem : data ∈ done.map fun group => group.flatten.map some := by
      rw [← hdone, hwritten]
      exact List.mem_append_right _ (List.mem_singleton.mpr rfl)
    obtain ⟨group, -, hgroup⟩ := List.mem_map.mp hmem
    exact ⟨_, hgroup.symm⟩
  obtain ⟨bytes, rfl⟩ := hbytes
  have hbytes : (bytes.map some).map (·.getD 0) = bytes := by simp [Function.comp_def]
  rw [moveFile, hpc]
  dsimp only
  rw [hfile]
  dsimp only
  rw [hdata, ok_bind, hbytes]
  cases hopen : file.file with
  | none =>
    have hfault : file.append (bytes, now) = .error .nullDereference := by
      rw [LogFile.append, hopen]
    rw [hfault]
    exact ⟨rfl, file, hfile, hopen⟩
  | some current =>
    obtain ⟨file', happend, hopen', hmessages⟩ :=
      LogFile.exists_append (Option.isSome_of_eq_some hopen) bytes now
    rw [happend]
    refine ⟨⟨hasync, ?_, ?_⟩, ?_⟩
    · rw [hnext]
      rfl
    · rw [hwritten, ← h.written_eq]
      simp [files, hfile, hmessages]
    · rintro ⟨unopened, hsame, hnone⟩
      obtain rfl := Option.some.inj hsame
      rw [hnone] at hopen'
      cases hopen'

/-- Every step keeps the invariant, and the only fault is that of a `LogFile` without a file,
which has been constructed so. -/
theorem Sound.step [DecidableEq τ] (h : p.Sound) (fileSize fileRows : ℕ)
    (a : LogPipelineAction τ) :
    Ensures (p.step fileSize fileRows a)
      (fun p' => p'.Sound ∧ (p'.Unopened → p.Unopened ∨ a.Coincides))
      (fun e => e = .disabled ∨ e = .fault .nullDereference ∧ p.Unopened) := by
  obtain ⟨action, now, indeterminate⟩ := a
  have hensures := h.async.step action
  cases hok : p.async.step action with
  | error e =>
    rw [hok] at hensures
    rw [LogPipeline.step, hok]
    exact .inl hensures
  | ok async =>
    rw [hok] at hensures
    have hmoves := AsyncLogging.moves_of_step hok
    rw [LogPipeline.step, hok, ok_bind]
    cases action with
    | begin =>
      refine ⟨h.begin hensures hmoves fileSize fileRows indeterminate now, ?_⟩
      rintro ⟨file, hfile, hnone⟩
      obtain rfl := Option.some.inj hfile
      refine .inr ⟨rfl, ?_⟩
      by_contra hne
      have hsome := @LogFile.isSome_create now fileSize fileRows _ hne
      rw [hnone] at hsome
      cases hsome
    | test =>
      rw [moveFile]
      cases hstart : p.async.start with
      | true =>
        refine ⟨h.setAsync hensures ⟨?_, hmoves.2.2⟩, fun hopen => .inl hopen⟩
        rw [hmoves.1, hmoves.2.1, hstart]
      | false =>
        refine ⟨h.finish hensures hmoves hstart, ?_⟩
        rintro ⟨file, hfile, -⟩
        cases hfile
    | writeBuffer =>
      have hwrite := h.writeBuffer hensures hmoves fileSize fileRows now indeterminate
      apply (hwrite.imp_error fun e he => .inr he).bind
      intro p' hp'
      exact ⟨hp'.1, fun hopen => absurd hopen hp'.2⟩
    | append msg => exact ⟨h.setAsync hensures hmoves, fun hopen => .inl hopen⟩
    | start | create | stopCall t | stopClear t | stopReturn t | lock | wake | recycle =>
      exact ⟨h.setAsync hensures hmoves, fun hopen => .inl hopen⟩

end

end LogPipeline

end Reactor
