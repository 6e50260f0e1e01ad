import Reactor.Lib.CondVar
import Reactor.Lib.Progress
import Reactor.Machine

/-!
# The countdown latch

Threads wait until the count has been brought down to zero. `countDown` wakes them only in
the call that reaches zero exactly; no thread can be blocked at any other count that is
not positive, so that no wakeup is lost.
-/

namespace Reactor

open Transition

/-- `CountDownLatch`. -/
structure CountDownLatch (τ : Type*) where
  count : ℤ
  condition : CondVar τ := .empty

namespace CountDownLatch

variable {τ : Type*} [DecidableEq τ]

/-- The critical section of `wait`, from the test in the `while`; with whether `wait`
returns. -/
def waitSection (latch : CountDownLatch τ) (t : τ) : Bool × CountDownLatch τ :=
  if 0 < latch.count then (false, { latch with condition := latch.condition.wait t })
  else (true, { latch with condition := latch.condition.resume t })

/-- `countDown`; `none` where `--count_` leaves the range of `int`. -/
def countDown (latch : CountDownLatch τ) : Option (CountDownLatch τ) :=
  if -2 ^ 31 < latch.count then
    let count := latch.count - 1
    some { count, condition := if count = 0 then latch.condition.broadcast else latch.condition }
  else none

/-- The wakeup of a thread that has not been signalled. -/
def spuriousWakeup (latch : CountDownLatch τ) (t : τ) : CountDownLatch τ :=
  { latch with condition := latch.condition.resume t }

/-- Threads are blocked only as long as the count is positive. -/
def Open (latch : CountDownLatch τ) : Prop :=
  latch.count ≤ 0 → latch.condition.blocked = ∅

variable {latch latch' : CountDownLatch τ}

/-- A `wait` that returns has found the count at zero or below. -/
theorem waitSection_eq (latch : CountDownLatch τ) (t : τ) :
    (0 < latch.count ∧
      latch.waitSection t = (false, { latch with condition := latch.condition.wait t })) ∨
    (latch.count ≤ 0 ∧
      latch.waitSection t = (true, { latch with condition := latch.condition.resume t })) := by
  by_cases hpos : 0 < latch.count
  · exact .inl ⟨hpos, if_pos hpos⟩
  · exact .inr ⟨by omega, if_neg hpos⟩

/-- An open latch stays open when a thread tests it. -/
theorem Open.waitSection (h : latch.Open) (t : τ) : (latch.waitSection t).2.Open := by
  intro hcount
  rcases waitSection_eq latch t with ⟨hpos, heq⟩ | ⟨hnot, heq⟩
  · rw [heq] at hcount
    dsimp only at hcount
    omega
  · rw [heq]
    change latch.condition.blocked.erase t = ∅
    rw [h hnot, Finset.erase_empty]

omit [DecidableEq τ] in
/-- Counting down wakes everybody exactly at zero. -/
theorem countDown_eq_some [DecidableEq τ] (hok : latch.countDown = some latch') :
    latch'.count = latch.count - 1 ∧
      latch'.condition = if latch'.count = 0 then latch.condition.broadcast
        else latch.condition := by
  obtain ⟨-, heq⟩ := Option.ite_none_right_eq_some.mp hok
  obtain rfl := Option.some.inj heq
  exact ⟨rfl, rfl⟩

/-- Counting an open latch down further leaves it open. -/
theorem Open.countDown (h : latch.Open) (hok : latch.countDown = some latch') : latch'.Open := by
  obtain ⟨hcount, hcondition⟩ := countDown_eq_some hok
  intro hle
  rw [hcondition]
  by_cases hzero : latch'.count = 0
  · rw [if_pos hzero]
    rfl
  · rw [if_neg hzero]
    exact h (by omega)

/-- A spurious wakeup leaves an open latch open. -/
theorem Open.spuriousWakeup (h : latch.Open) (t : τ) : (latch.spuriousWakeup t).Open := by
  intro hle
  change latch.condition.blocked.erase t = ∅
  rw [h hle, Finset.erase_empty]

end CountDownLatch

/-- A latch with the threads that use it. -/
structure LatchUse (τ : Type*) where
  latch : CountDownLatch τ
  /-- The threads that are in `wait`. -/
  inside : Finset τ := ∅
  /-- The threads that `wait` has returned to. -/
  returned : Finset τ := ∅
  /-- The calls of `countDown`. -/
  countDowns : ℕ := 0

/-- A step of a thread that uses the latch. -/
inductive LatchAction (τ : Type*) where
  /-- The thread calls `wait`. -/
  | callWait (t : τ)
  /-- The critical section of `wait`. -/
  | waitSection (t : τ)
  /-- A thread that has not been signalled wakes up. -/
  | spuriousWakeup (t : τ)
  /-- `countDown`. -/
  | countDown

namespace LatchUse

variable {τ : Type*} [DecidableEq τ]

/-- A step of the interleaving. -/
def step (s : LatchUse τ) : LatchAction τ → Except Disabled (LatchUse τ)
  | .callWait t =>
    if t ∉ s.inside then .ok { s with inside := insert t s.inside } else .error .disabled
  | .waitSection t =>
    if t ∈ s.inside ∧ t ∉ s.latch.condition.blocked then
      match s.latch.waitSection t with
      | (true, latch) =>
        .ok { s with latch, inside := s.inside.erase t, returned := insert t s.returned }
      | (false, latch) => .ok { s with latch }
    else .error .disabled
  | .spuriousWakeup t =>
    if t ∈ s.latch.condition.blocked then .ok { s with latch := s.latch.spuriousWakeup t }
    else .error .disabled
  | .countDown =>
    match s.latch.countDown with
    | some latch => .ok { s with latch, countDowns := s.countDowns + 1 }
    | none => .error .disabled

/-- The critical sections of `wait` are the latch's own steps. -/
def own : LatchAction τ → Bool
  | .waitSection _ => true
  | .callWait _ | .spuriousWakeup _ | .countDown => false

/-- A new call of `wait` asks for one more of them. -/
def credit : LatchAction τ → ℕ
  | .callWait _ => 1
  | .waitSection _ | .spuriousWakeup _ | .countDown => 0

/-- The invariant of a latch that has been constructed with `count`. -/
structure Sound (count : ℤ) (s : LatchUse τ) : Prop where
  count_eq : s.latch.count = count - s.countDowns
  returned : s.returned.Nonempty → s.latch.count ≤ 0
  isOpen : s.latch.Open

section

variable {count : ℤ} {s s' : LatchUse τ}

omit [DecidableEq τ] in
/-- A new latch has not been used. -/
theorem sound_constructed (count : ℤ) : Sound count ({ latch := { count } } : LatchUse τ) := by
  constructor
  · simp
  · intro hreturned
    exact absurd hreturned Finset.not_nonempty_empty
  · intro _
    rfl

/-- The critical section of `wait`, in which the thread waits or returns. -/
theorem step_waitSection {t : τ} (hok : s.step (.waitSection t) = .ok s') :
    t ∈ s.inside ∧
      ((0 < s.latch.count ∧
          s' = { s with
            latch := { s.latch with condition := s.latch.condition.wait t } }) ∨
        (s.latch.count ≤ 0 ∧
          s' = { s with
            latch := { s.latch with condition := s.latch.condition.resume t }
            inside := s.inside.erase t
            returned := insert t s.returned })) := by
  rw [step] at hok
  split at hok
  · next hinside =>
    constructor
    · exact hinside.1
    · rcases CountDownLatch.waitSection_eq s.latch t with ⟨hpos, heq⟩ | ⟨hnot, heq⟩
      · rw [heq] at hok
        exact .inl ⟨hpos, (Except.ok.inj hok).symm⟩
      · rw [heq] at hok
        exact .inr ⟨hnot, (Except.ok.inj hok).symm⟩
  · cases hok

/-- Every step of the interleaving keeps the invariant. -/
theorem Sound.step (h : s.Sound count) (action : LatchAction τ)
    (hok : s.step action = .ok s') : s'.Sound count := by
  cases action with
  | callWait t =>
    obtain ⟨-, rfl⟩ := ite_eq_ok.mp hok
    exact ⟨h.count_eq, h.returned, h.isOpen⟩
  | waitSection t =>
    have hopen := h.isOpen.waitSection t
    obtain ⟨-, ⟨hpos, rfl⟩ | ⟨hnot, rfl⟩⟩ := step_waitSection hok
    · constructor
      · exact h.count_eq
      · exact h.returned
      · intro hcount
        dsimp only at hcount
        omega
    · constructor
      · exact h.count_eq
      · intro _
        exact hnot
      · rwa [CountDownLatch.waitSection, if_neg (by omega)] at hopen
  | spuriousWakeup t =>
    obtain ⟨-, rfl⟩ := ite_eq_ok.mp hok
    exact ⟨h.count_eq, h.returned, h.isOpen.spuriousWakeup t⟩
  | countDown =>
    rw [LatchUse.step] at hok
    split at hok
    · next latch hlatch =>
      obtain rfl := Except.ok.inj hok
      obtain ⟨hcount, -⟩ := CountDownLatch.countDown_eq_some hlatch
      have hbefore := h.count_eq
      constructor
      · push_cast
        omega
      · intro hreturned
        have hle := h.returned hreturned
        dsimp only
        omega
      · exact h.isOpen.countDown hlatch
    · cases hok

/-- The count never grows. -/
theorem count_le_of_step {action : LatchAction τ} (hok : s.step action = .ok s') :
    s'.latch.count ≤ s.latch.count := by
  cases action with
  | callWait t | spuriousWakeup t =>
    obtain ⟨-, rfl⟩ := ite_eq_ok.mp hok
    exact le_refl s.latch.count
  | waitSection t =>
    obtain ⟨-, ⟨-, rfl⟩ | ⟨-, rfl⟩⟩ := step_waitSection hok
    · exact le_refl s.latch.count
    · exact le_refl s.latch.count
  | countDown =>
    rw [LatchUse.step] at hok
    split at hok
    · next latch hlatch =>
      obtain rfl := Except.ok.inj hok
      have hcount := (CountDownLatch.countDown_eq_some hlatch).1
      dsimp only
      omega
    · cases hok

/-- A thread in `wait` returns with its next critical section when the count is used up. -/
theorem Sound.returns (h : s.Sound count) (hcount : s.latch.count ≤ 0) {t : τ}
    (ht : t ∈ s.inside) : ∃ s', s.step (.waitSection t) = .ok s' ∧ t ∉ s'.inside ∧
      t ∈ s'.returned := by
  have hfree : t ∉ s.latch.condition.blocked := by
    rw [h.isOpen hcount]
    exact Finset.notMem_empty t
  rw [LatchUse.step, if_pos ⟨ht, hfree⟩, CountDownLatch.waitSection, if_neg (by omega)]
  exact ⟨_, rfl, Finset.notMem_erase t s.inside, Finset.mem_insert_self t s.returned⟩

/-- A critical section lets a thread out of `wait`, and only a new call lets one in. -/
theorem card_inside_le {action : LatchAction τ} (hcount : s.latch.count ≤ 0)
    (hok : s.step action = .ok s') :
    s'.inside.card + (own action).toNat ≤ s.inside.card + credit action := by
  cases action with
  | callWait t =>
    obtain ⟨-, rfl⟩ := ite_eq_ok.mp hok
    exact Finset.card_insert_le t s.inside
  | waitSection t =>
    obtain ⟨hinside, ⟨hpos, -⟩ | ⟨-, rfl⟩⟩ := step_waitSection hok
    · omega
    · exact Finset.card_erase_lt_of_mem hinside
  | spuriousWakeup t =>
    obtain ⟨-, rfl⟩ := ite_eq_ok.mp hok
    exact le_rfl
  | countDown =>
    rw [LatchUse.step] at hok
    split at hok
    · obtain rfl := Except.ok.inj hok
      exact le_rfl
    · cases hok

/-- Once the count is not positive it stays so, and every thread in `wait` returns. -/
theorem nears_open : Nears (step (τ := τ)) own credit (fun s => s.Sound count ∧ s.latch.count ≤ 0)
    (fun _ => False) (fun s => s.inside = ∅) (fun s => s.inside.card) := by
  constructor
  · rintro s action s' ⟨h, hcount⟩ hok
    have hle := count_le_of_step hok
    exact ⟨h.step action hok, by omega⟩
  · rintro s action s' - hgoal -
    exact hgoal
  · rintro s action s' ⟨-, hcount⟩ hok -
    exact card_inside_le hcount hok
  · rintro s ⟨h, hcount⟩ - hsome
    obtain ⟨t, ht⟩ := Finset.nonempty_iff_ne_empty.mpr hsome
    obtain ⟨s', hok, -⟩ := h.returns hcount ht
    exact ⟨.waitSection t, s', rfl, hok⟩

end

/-- The waiting threads are let go exactly when the calls of `countDown` have used up the
count that the latch was constructed with. -/
structure OpensAt (count : ℤ) (s : LatchUse τ) : Prop where
  count_eq : s.latch.count = count - s.countDowns
  /-- No `wait` has returned too early. -/
  returned : s.returned.Nonempty → count ≤ s.countDowns
  /-- No wakeup has been lost. -/
  awake : count ≤ s.countDowns → s.latch.condition.blocked = ∅
  /-- A thread that is in `wait` gets out with its next critical section. -/
  returns : count ≤ s.countDowns → ∀ t ∈ s.inside, ∃ s', s.step (.waitSection t) = .ok s' ∧
    t ∉ s'.inside ∧ t ∈ s'.returned
  /-- There are no more critical sections than threads that are in `wait` or call it, and where
  none is possible no thread is in `wait`. -/
  empties : count ≤ s.countDowns →
    Attains step own credit (fun _ => False) (fun t => t.inside = ∅) s.inside.card s

/-- The latch opens in time in every interleaving. -/
theorem opens_when_counted_down (count : ℤ) (actions : List (LatchAction τ)) :
    Always step (OpensAt count) { latch := { count } } actions := by
  apply along_of_guarded (Sound count) ?_ ?_ (sound_constructed count) guarded_true
  · intro s action h _ s' hok
    have h' := h.step action hok
    have hcount := h'.count_eq
    constructor
    · exact hcount
    · intro hreturned
      have hle := h'.returned hreturned
      omega
    · intro hle
      exact h'.isOpen (by omega)
    · intro hle t ht
      exact h'.returns (by omega) ht
    · intro hle
      exact nears_open.attains ⟨h', by omega⟩ (Nat.le_refl _)
  · intro s action s' h _ hok
    exact h.step action hok

end LatchUse

end Reactor
