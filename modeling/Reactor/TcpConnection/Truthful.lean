import Reactor.TcpConnection.Milestones
import Reactor.TcpConnection.Output
import Reactor.TcpConnection.Progress

/-!
# What the write-complete callback announces

`sendInLoop` and `handleWrite` invoke `writeCompleteCallback_` when the result of `writev`
is not smaller than, or equal to, what was to be written. The comparison is one of
unsigned numbers, in which the result -1 is the greatest: a failed write of a message is
announced as a complete one. All other announcements are true.
-/

namespace Reactor

open Transition

namespace TcpConnection

/-- At a call of `writeCompleteCallback_` no fewer cells are accepted than bytes were
passed to `sendInLoop`. -/
def Truthful (m : Milestone × TcpConnection) : Prop :=
  m.1 = .writeComplete → m.2.messages.length ≤ m.2.transmitted.length

instance (m : Milestone × TcpConnection) : Decidable (Truthful m) :=
  inferInstanceAs (Decidable (m.1 = .writeComplete → m.2.messages.length ≤ m.2.transmitted.length))

/-- At a call of `writeCompleteCallback_` the cells accepted are the bytes passed to
`sendInLoop`. -/
def Delivered (m : Milestone × TcpConnection) : Prop :=
  m.1 = .writeComplete → m.2.transmitted = m.2.messages.map some

/-- The size of the output buffer counts every byte that has not been accepted. -/
def Counted (conn : TcpConnection) : Prop :=
  conn.messages.length ≤ conn.transmitted.length + conn.outputBuffer.totalSize

/-- If `sendInLoop` announces a complete write, `writev` has not failed, unless the
message is empty. -/
def SendHonest (conn : TcpConnection) (message : List UInt8) (written : Option ℕ)
    (honest : TcpConnection → Prop) : Prop :=
  conn.isIdle = true → ∀ conn₁ conn₂ result, conn.addOutput message = .ok conn₁ →
    conn₁.writeIovec message.length written = .ok (conn₂, result) →
    message.length ≤ ssizeToSize result → conn₂.writeCompleteCallback = true →
      (written = none → message = []) ∧ conn.Counted ∧ honest (conn₂.invoke .writeComplete)

/-- All announcements of the code are of writes that have not failed. -/
def CodeHonest : UserCode → TcpConnection → Prop
  | .done, _ => True
  | .send message written complete next, conn =>
    conn.SendHonest message.val written (CodeHonest complete) ∧
      ∀ conn', conn.sendInLoop message.val written (runUserCode complete) = .ok conn' →
        CodeHonest next conn'
  | .shutdown next, conn => CodeHonest next conn.shutdownInLoop
  | .drain n next, conn =>
    ∀ inputBuffer, liftBuffer (conn.inputBuffer.bufferDrain n) = .ok inputBuffer →
      CodeHonest next { conn with inputBuffer }
  | .read n next, conn =>
    ∀ inputBuffer data, liftBuffer (conn.inputBuffer.bufferRead n) = .ok (inputBuffer, data) →
      CodeHonest next { conn with inputBuffer }

/-- If `handleWrite` announces a complete write, `writev` has not failed. -/
def WriteHonest (conn : TcpConnection) (written : Option ℕ) (complete : UserCode) : Prop :=
  conn.channel.isWriting = true → conn.outputBuffer.totalSize ≠ 0 → ∀ conn₁ result,
    conn.writeIovec conn.outputBuffer.totalSize written = .ok (conn₁, result) →
    ssizeToSize result = conn.outputBuffer.totalSize → conn₁.writeCompleteCallback = true →
      written ≠ none ∧ conn.Counted ∧ CodeHonest complete
        (invoke { conn₁ with channel := conn₁.channel.disableWrite } .writeComplete)

/-- A step announces no failed write as complete. -/
def OutputHonest (conn : TcpConnection) : OutputOp → Prop
  | .send message written complete =>
    conn.SendHonest message.val written (CodeHonest complete)
  | .writable written complete => conn.WriteHonest written complete

/-! ## What is announced is true -/

section

variable {conn : TcpConnection} {k : ℕ}

/-- The callback for written output is truthful exactly if all has been transmitted, and its user
code is. -/
theorem writeCompleteMilestones_truthful {milestones : TcpConnection → Milestones} :
    (∀ m ∈ conn.writeCompleteMilestones milestones, Truthful m) ↔
      (conn.writeCompleteCallback = true → conn.messages.length ≤ conn.transmitted.length ∧
        ∀ m ∈ milestones (conn.invoke .writeComplete), Truthful m) := by
  rw [writeCompleteMilestones]
  split
  · next hset => simp [hset, Truthful]
  · next hset => simp [hset]

/-- A message written at once has been accepted, with all before it, exactly if `writev`
has not failed. -/
theorem accepted_send_iff {conn₁ conn₂ : TcpConnection} {message : List UInt8}
    {written result : Option ℕ} (h : conn.Progress k) (hempty : conn.outputBuffer.totalSize = 0)
    (hadd : conn.addOutput message = .ok conn₁)
    (hwrite : conn₁.writeIovec message.length written = .ok (conn₂, result))
    (hle : message.length ≤ ssizeToSize result) :
    conn₂.messages.length ≤ conn₂.transmitted.length ↔
      (written = none → message = []) ∧ conn.Counted := by
  obtain ⟨-, hmessages, htransmitted⟩ := addOutput_counts hadd
  obtain ⟨-, hmessages', haccepted, haccepted_le⟩ := writeIovec_counts hwrite
  obtain ⟨-, -, -, hnone, hsome⟩ := writeIovec_eq hwrite
  have hprogress := h.accepted_le
  rw [htransmitted] at haccepted
  rw [hmessages', hmessages, haccepted, Counted, hempty]
  cases result with
  | none =>
    have hfailed : written = none := hnone rfl
    simp only [hfailed, forall_const, ← List.length_eq_zero_iff, Option.getD_none]
    omega
  | some accepted =>
    obtain ⟨n, hn, -⟩ := hsome accepted rfl
    simp only [hn, reduceCtorEq, false_implies, true_and]
    rw [Option.getD_some] at haccepted_le ⊢
    rw [ssizeToSize] at hle
    omega

/-- `sendInLoop` announces the truth exactly if it is honest. -/
theorem sendMilestones_truthful {message : List UInt8} {written : Option ℕ}
    {milestones : TcpConnection → Milestones} {honest : TcpConnection → Prop}
    (hcomplete : ∀ {k conn}, Progress k conn →
      ((∀ m ∈ milestones conn, Truthful m) ↔ honest conn)) (h : conn.Progress k) :
    (∀ m ∈ conn.sendMilestones message written milestones, Truthful m) ↔
      conn.SendHonest message written honest := by
  have hannounced {conn₁ conn₂ : TcpConnection} {result : Option ℕ} (hidle : conn.isIdle = true)
      (hadd : conn.addOutput message = .ok conn₁)
      (hwrite : conn₁.writeIovec message.length written = .ok (conn₂, result))
      (hle : message.length ≤ ssizeToSize result) :
      (∀ m ∈ conn₂.writeCompleteMilestones milestones, Truthful m) ↔
        (conn₂.writeCompleteCallback = true → (written = none → message = []) ∧ conn.Counted ∧
          honest (conn₂.invoke .writeComplete)) := by
    have hempty := (isIdle_iff.mp hidle).2
    have h₂ : conn₂.Progress (k + result.getD 0) :=
      account_progress.write (n := 0) h hempty hadd hwrite
    have h₃ : (conn₂.invoke .writeComplete).Progress (k + result.getD 0) := h₂.congr rfl rfl rfl
    rw [writeCompleteMilestones_truthful, accepted_send_iff h hempty hadd hwrite hle,
      hcomplete h₃, and_assoc]
  constructor
  · intro hall hidle conn₁ conn₂ result hadd hwrite hle
    exact (hannounced hidle hadd hwrite hle).mp fun m hm =>
      hall m (mem_sendMilestones.mpr ⟨hidle, conn₁, conn₂, result, hadd, hwrite, hle, hm⟩)
  · intro hhonest m hm
    obtain ⟨hidle, conn₁, conn₂, result, hadd, hwrite, hle, hm⟩ := mem_sendMilestones.mp hm
    exact (hannounced hidle hadd hwrite hle).mpr
      (hhonest hidle conn₁ conn₂ result hadd hwrite hle) m hm

/-- So does user code. -/
theorem codeMilestones_truthful (code : UserCode) (h : conn.Progress k) :
    (∀ m ∈ codeMilestones code conn, Truthful m) ↔ conn.CodeHonest code := by
  induction code generalizing k conn with
  | done => simp [codeMilestones, CodeHonest]
  | send message written complete next ihComplete ihNext =>
    rw [codeMilestones, CodeHonest, List.forall_mem_append, forall_milestonesAfter,
      sendMilestones_truthful ihComplete h]
    exact and_congr_right fun _ => forall₂_congr fun conn' hsend => ihNext (h.sendInLoop hsend)
  | shutdown next ih =>
    have h₁ : conn.shutdownInLoop.Progress k := by
      unfold shutdownInLoop
      split
      · exact h.congr rfl rfl rfl
      · exact h
    have hnone : ∀ m ∈ conn.shutdownMilestones, Truthful m := by
      unfold shutdownMilestones
      split <;> simp [Truthful]
    rw [codeMilestones, CodeHonest, List.forall_mem_append, and_iff_right hnone, ih h₁]
  | drain n next ih =>
    rw [codeMilestones, CodeHonest, forall_milestonesAfter]
    refine forall₂_congr fun inputBuffer _ => ih (k := k) ?_
    exact h.congr rfl rfl rfl
  | read n next ih =>
    rw [codeMilestones, CodeHonest, forall_milestonesAfter, Prod.forall]
    refine forall₃_congr fun inputBuffer data _ => ih (k := k) ?_
    exact h.congr rfl rfl rfl

/-- When all that is stored has been written, it has been accepted exactly if `writev` has
not failed. -/
theorem accepted_write_iff {conn₁ : TcpConnection} {written result : Option ℕ}
    (h : conn.Progress 0) (hne : conn.outputBuffer.totalSize ≠ 0)
    (hwrite : conn.writeIovec conn.outputBuffer.totalSize written = .ok (conn₁, result))
    (hfull : ssizeToSize result = conn.outputBuffer.totalSize) :
    conn₁.messages.length ≤ conn₁.transmitted.length ↔ written ≠ none ∧ conn.Counted := by
  obtain ⟨-, hmessages, haccepted, -⟩ := writeIovec_counts hwrite
  obtain ⟨-, -, -, hnone, hsome⟩ := writeIovec_eq hwrite
  have hsize := h.size_le
  rw [hmessages, haccepted, Counted]
  cases result with
  | none =>
    have hfailed : written = none := hnone rfl
    simp only [hfailed, Option.getD_none, ne_eq, not_true_eq_false, false_and, iff_false]
    omega
  | some accepted =>
    obtain ⟨n, hn, -⟩ := hsome accepted rfl
    rw [ssizeToSize] at hfull
    simp [hn, hfull]

/-- So does `handleWrite`: all that is stored has been accepted. -/
theorem writeMilestones_truthful {written : Option ℕ} {complete : UserCode}
    (h : conn.Progress 0) :
    (∀ m ∈ conn.writeMilestones written complete, Truthful m) ↔
      conn.WriteHonest written complete := by
  have hannounced {conn₁ : TcpConnection} {result : Option ℕ}
      (hne : conn.outputBuffer.totalSize ≠ 0)
      (hwrite : conn.writeIovec conn.outputBuffer.totalSize written = .ok (conn₁, result))
      (hfull : ssizeToSize result = conn.outputBuffer.totalSize) :
      (∀ m ∈ writeCompleteMilestones { conn₁ with channel := conn₁.channel.disableWrite }
          (codeMilestones complete), Truthful m) ↔
        (conn₁.writeCompleteCallback = true → written ≠ none ∧ conn.Counted ∧ CodeHonest complete
          (invoke { conn₁ with channel := conn₁.channel.disableWrite } .writeComplete)) := by
    have htrue := accepted_write_iff h hne hwrite hfull
    have h₁ : conn₁.Progress (result.getD 0) := account_progress.rewrite (n := 0) h hwrite
    have h₂ : (invoke { conn₁ with channel := conn₁.channel.disableWrite } .writeComplete).Progress
        (result.getD 0) := h₁.congr rfl rfl rfl
    rw [writeCompleteMilestones_truthful, codeMilestones_truthful complete h₂]
    refine imp_congr_right fun _ => ?_
    rw [← and_assoc]
    exact and_congr_left fun _ => htrue
  constructor
  · intro hall hwriting hne conn₁ result hwrite hfull
    exact (hannounced hne hwrite hfull).mp fun m hm =>
      hall m (mem_writeMilestones.mpr ⟨⟨hwriting, hne⟩, conn₁, result, hwrite, hfull, hm⟩)
  · intro hhonest m hm
    obtain ⟨⟨hwriting, hne⟩, conn₁, result, hwrite, hfull, hm⟩ := mem_writeMilestones.mp hm
    exact (hannounced hne hwrite hfull).mpr (hhonest hwriting hne conn₁ result hwrite hfull) m hm

end

/-! ## The bytes that are accepted -/

/-- The connection at a milestone: its output is sound or garbled, and accounted for. -/
structure Passed (conn : TcpConnection) : Prop where
  output : conn.Sound ∨ conn.Garbled
  progress : ∃ k, conn.Progress k

section

variable {conn conn' : TcpConnection}

/-- A step that keeps the output leaves it sound or garbled. -/
theorem output_of_keeps (h : conn.Sound ∨ conn.Garbled) (hkeeps : KeepsOutput conn conn') :
    conn'.Sound ∨ conn'.Garbled :=
  h.elim hkeeps.sound fun hg => .inr (hkeeps.garbled hg)

/-- A write leaves the output sound or garbled. -/
theorem output_of_writeIovec (h : conn.Sound ∨ conn.Garbled) {howmuch : ℕ}
    {answer result : Option ℕ} (hok : conn.writeIovec howmuch answer = .ok (conn', result)) :
    conn'.Sound ∨ conn'.Garbled := by
  obtain ⟨hgarbled, hsound⟩ := writeIovec_keeps hok
  rcases h with hs | hg
  · exact (hsound hs).imp And.left id
  · exact .inr (hgarbled hg)

/-- Whether the output is accounted for is a matter of four fields. -/
theorem Passed.congr (h : conn.Passed) (hbuffer : conn'.outputBuffer = conn.outputBuffer)
    (hmessages : conn'.messages = conn.messages)
    (htransmitted : conn'.transmitted = conn.transmitted) (hcalls : conn'.calls = conn.calls) :
    conn'.Passed where
  output := output_of_keeps h.output (keepsOutput_of_eq hbuffer hmessages htransmitted hcalls)
  progress := h.progress.imp fun _ hk => hk.congr hbuffer hmessages htransmitted

/-- All bytes have been accepted as they were passed in only if there are none. -/
theorem Passed.delivered_iff (h : conn.Passed) :
    conn.transmitted = conn.messages.map some ↔ conn.messages = [] := by
  obtain ⟨k, hk⟩ := h.progress
  rcases h.output with hs | hg
  · rw [hs.transmitted_eq, eq_comm, List.map_eq_nil_iff]
  · constructor
    · intro heq
      have hmem := hg.none_mem
      rw [heq] at hmem
      simp at hmem
    · intro hempty
      have hle := hk.accepted_le
      have hpos := List.length_pos_of_mem hg.none_mem
      rw [hempty, List.length_nil] at hle
      omega

/-- Sending leaves the output accounted for. -/
theorem Passed.sendInLoop (h : conn.Passed) {message : List UInt8} {answer : Option ℕ}
    {complete : UserCode}
    (hok : conn.sendInLoop message answer (runUserCode complete) = .ok conn') : conn'.Passed where
  output := output_of_keeps h.output (sendInLoop_keeps (runUserCode_keeps complete) hok)
  progress := h.progress.imp fun _ hk => hk.sendInLoop hok

/-- At the milestones of the callback for written output the output is accounted for. -/
theorem Passed.writeCompleteMilestones (h : conn.Passed)
    {milestones : TcpConnection → Milestones}
    (hcomplete : ∀ {conn : TcpConnection}, conn.Passed → ∀ m ∈ milestones conn, m.2.Passed) :
    ∀ m ∈ conn.writeCompleteMilestones milestones, m.2.Passed := by
  rw [TcpConnection.writeCompleteMilestones]
  split
  · have hinvoke : (conn.invoke .writeComplete).Passed := h.congr rfl rfl rfl rfl
    intro m hm
    rcases List.mem_cons.mp hm with rfl | hm
    · exact h
    · exact hcomplete hinvoke m hm
  · simp

/-- At the milestones of a send the output is accounted for. -/
theorem Passed.sendMilestones (h : conn.Passed) {message : List UInt8} {answer : Option ℕ}
    {milestones : TcpConnection → Milestones}
    (hcomplete : ∀ {conn : TcpConnection}, conn.Passed → ∀ m ∈ milestones conn, m.2.Passed) :
    ∀ m ∈ conn.sendMilestones message answer milestones, m.2.Passed := by
  intro m hm
  obtain ⟨hidle, conn₁, conn₂, result, hadd, hwrite, -, hm⟩ := mem_sendMilestones.mp hm
  have hempty := (isIdle_iff.mp hidle).2
  have h₂ : conn₂.Passed :=
    { output := output_of_writeIovec (output_of_keeps h.output (addOutput_keeps hadd)) hwrite
      progress := by
        obtain ⟨k, hk⟩ := h.progress
        exact ⟨k + result.getD 0, account_progress.write (n := 0) hk hempty hadd hwrite⟩ }
  exact h₂.writeCompleteMilestones hcomplete m hm

/-- At the milestones of user code the output is accounted for. -/
theorem Passed.codeMilestones (h : conn.Passed) (code : UserCode) :
    ∀ m ∈ TcpConnection.codeMilestones code conn, m.2.Passed := by
  induction code generalizing conn with
  | done => simp [TcpConnection.codeMilestones]
  | send message written complete next ihComplete ihNext =>
    rw [TcpConnection.codeMilestones, List.forall_mem_append, forall_milestonesAfter]
    exact ⟨h.sendMilestones ihComplete, fun conn' hsend => ihNext (h.sendInLoop hsend)⟩
  | shutdown next ih =>
    rw [TcpConnection.codeMilestones, List.forall_mem_append]
    constructor
    · unfold shutdownMilestones
      split
      · simpa using h
      · simp
    · refine ih ?_
      unfold shutdownInLoop
      split
      · exact h.congr rfl rfl rfl rfl
      · exact h
  | drain n next ih =>
    rw [TcpConnection.codeMilestones, forall_milestonesAfter]
    intro inputBuffer _
    refine ih ?_
    exact h.congr rfl rfl rfl rfl
  | read n next ih =>
    rw [TcpConnection.codeMilestones, forall_milestonesAfter]
    intro r _
    refine ih ?_
    exact h.congr rfl rfl rfl rfl

/-- A handler starts with no cell that is accepted and not drained. -/
theorem passed_outputMilestones (houtput : conn.Sound ∨ conn.Garbled) (h : conn.Progress 0)
    (op : OutputOp) : ∀ m ∈ conn.outputMilestones op, m.2.Passed := by
  have hpassed : conn.Passed := ⟨houtput, 0, h⟩
  cases op with
  | send message written complete =>
    exact hpassed.sendMilestones fun h => h.codeMilestones complete
  | writable written complete =>
    intro m hm
    obtain ⟨-, conn₁, result, hwrite, -, hm⟩ := mem_writeMilestones.mp hm
    have h₁ : conn₁.Passed :=
      ⟨output_of_writeIovec houtput hwrite, _, account_progress.rewrite (n := 0) h hwrite⟩
    have h₂ : Passed { conn₁ with channel := conn₁.channel.disableWrite } :=
      h₁.congr rfl rfl rfl rfl
    exact h₂.writeCompleteMilestones (fun h => h.codeMilestones complete) m hm

end

/-! ## Runs -/

/-- As long as the bytes stored and those that a step sends have a size, which does not
wrap then, the size of the output buffer counts all bytes. -/
theorem counted_of_fits (name : String) (fd : ℤ) (writeCompleteCallback : Bool)
    {ops : List OutputOp}
    (h : Guarded outputStep (fun conn op => conn.outputBuffer.totalSize + outputBytes op < 2 ^ 64)
      (established name fd writeCompleteCallback) ops) :
    Always outputStep Counted (established name fd writeCompleteCallback) ops := by
  have hkeep (conn : TcpConnection) (op : OutputOp) (conn' : TcpConnection) (h : conn.Exact 0 0)
      (hfits : conn.outputBuffer.totalSize + outputBytes op < 2 ^ 64)
      (hok : conn.outputStep op = .ok conn') : conn'.Exact 0 0 := by
    have hbudget : conn.Exact (outputBytes op + 0) 0 := ⟨hfits, h.counted, h.undrained_le⟩
    exact account_exact.outputStep hbudget hok
  refine along_of_guarded (Exact 0 0) (fun conn op h hfits conn' hok => ?_) hkeep
    ⟨Nat.two_pow_pos 64, rfl, Nat.le_refl 0⟩ h
  exact Nat.le_of_eq (hkeep conn op conn' h hfits hok).counted

/-- In every run all calls of `writeCompleteCallback_` are truthful if and only if no
failed write of a message is announced as complete. The cells accepted are then the bytes
passed to `sendInLoop` in all of them if and only if there are no such bytes. -/
theorem truthful_iff_honest (name : String) (fd : ℤ) (writeCompleteCallback : Bool)
    (ops : List OutputOp) :
    (Along outputStep (fun conn op _ => ∀ m ∈ conn.outputMilestones op, Truthful m)
        (established name fd writeCompleteCallback) ops ↔
      Guarded outputStep OutputHonest (established name fd writeCompleteCallback) ops) ∧
    (Along outputStep (fun conn op _ => ∀ m ∈ conn.outputMilestones op, Delivered m)
        (established name fd writeCompleteCallback) ops ↔
      Along outputStep (fun conn op _ => ∀ m ∈ conn.outputMilestones op,
        m.1 = .writeComplete → m.2.messages = [])
        (established name fd writeCompleteCallback) ops) := by
  have hstart : (established name fd writeCompleteCallback).Progress 0 :=
    ⟨Nat.le_refl 0, Nat.le_refl 0⟩
  constructor
  · have hexact (conn : TcpConnection) (op : OutputOp) (h : conn.Progress 0) :
        (∀ m ∈ conn.outputMilestones op, Truthful m) ↔ conn.OutputHonest op := by
      cases op with
      | send message written complete =>
        exact sendMilestones_truthful (codeMilestones_truthful complete) h
      | writable written complete => exact writeMilestones_truthful h
    exact along_iff_guarded hexact (fun _ _ _ h _ hok => h.outputStep hok) hstart
  · have hexact (conn : TcpConnection) (op : OutputOp)
        (h : (conn.Sound ∨ conn.Garbled) ∧ conn.Progress 0) :
        (∀ m ∈ conn.outputMilestones op, Delivered m) ↔
          ∀ m ∈ conn.outputMilestones op, m.1 = .writeComplete → m.2.messages = [] :=
      forall₂_congr fun m hm => imp_congr_right fun _ =>
        (passed_outputMilestones h.1 h.2 op m hm).delivered_iff
    have hkeep (conn : TcpConnection) (op : OutputOp) (conn' : TcpConnection)
        (h : (conn.Sound ∨ conn.Garbled) ∧ conn.Progress 0) (hok : conn.outputStep op = .ok conn') :
        (conn'.Sound ∨ conn'.Garbled) ∧ conn'.Progress 0 :=
      ⟨output_of_keeps h.1 (outputStep_keeps hok), h.2.outputStep hok⟩
    exact along_congr hexact (fun conn op conn' h _ hok => hkeep conn op conn' h hok)
      ⟨.inl (sound_established name fd writeCompleteCallback), hstart⟩

/-- `writev` fails to write a byte, and its write is announced as complete. -/
theorem failedSend_not_truthful : ¬ Along outputStep
    (fun conn op _ => ∀ m ∈ conn.outputMilestones op, Truthful m) (established "" 3 true)
    [.send ⟨[7], by decide⟩ none .done] := by
  decide +kernel

end TcpConnection

end Reactor
