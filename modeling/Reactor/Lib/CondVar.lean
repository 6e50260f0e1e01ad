import Mathlib.Data.Finset.Card

/-!
# Condition variables

A condition variable with the threads that are blocked on it and those that have been
signalled and have not resumed yet. A signal wakes one blocked thread, if there is one;
which one is an input. `Covers n` is the counting invariant of the usual discipline, in
which threads wait for units of something: as long as a thread is blocked, a signal is
under way for each of the `n` units at hand.
-/

/-- A condition variable. A thread is not blocked and signalled at once. -/
structure CondVar (τ : Type*) where
  blocked : Finset τ
  signalled : Finset τ
  disjoint : Disjoint blocked signalled

namespace CondVar

variable {τ : Type*}

/-- Nobody waits. -/
def empty : CondVar τ where
  blocked := ∅
  signalled := ∅
  disjoint := Finset.disjoint_empty_left ∅

/-- As long as a thread is blocked, at least `n` threads are signalled. -/
def Covers (cond : CondVar τ) (n : ℕ) : Prop := cond.blocked.Nonempty → n ≤ cond.signalled.card

variable [DecidableEq τ]

/-- The thread `t` begins to wait, or waits again. -/
def wait (cond : CondVar τ) (t : τ) : CondVar τ where
  blocked := insert t cond.blocked
  signalled := cond.signalled.erase t
  disjoint := by
    rw [Finset.disjoint_insert_left]
    exact ⟨Finset.notMem_erase t _, cond.disjoint.mono_right (Finset.erase_subset t _)⟩

/-- The thread `t` goes on. Unless it was signalled, this is a spurious wakeup. -/
def resume (cond : CondVar τ) (t : τ) : CondVar τ where
  blocked := cond.blocked.erase t
  signalled := cond.signalled.erase t
  disjoint := cond.disjoint.mono (Finset.erase_subset t _) (Finset.erase_subset t _)

/-- The blocked thread `t` is signalled. -/
def wake (cond : CondVar τ) (t : τ) : CondVar τ where
  blocked := cond.blocked.erase t
  signalled := insert t cond.signalled
  disjoint := by
    rw [Finset.disjoint_insert_right]
    exact ⟨Finset.notMem_erase t _, cond.disjoint.mono_left (Finset.erase_subset t _)⟩

/-- Signal one blocked thread, which is `woken`; nobody is woken if nobody is blocked. -/
def signal (cond : CondVar τ) (woken : Option τ) : Option (CondVar τ) :=
  match woken with
  | some t => if t ∈ cond.blocked then some (cond.wake t) else none
  | none => if cond.blocked = ∅ then some cond else none

/-- Signal all blocked threads. -/
def broadcast (cond : CondVar τ) : CondVar τ where
  blocked := ∅
  signalled := cond.blocked ∪ cond.signalled
  disjoint := Finset.disjoint_empty_left _

section

variable {cond cond' : CondVar τ} {m n : ℕ}

omit [DecidableEq τ] in
/-- Nothing need be covered where nobody need be awake. -/
theorem covers_zero (cond : CondVar τ) : cond.Covers 0 := fun _ => Nat.zero_le _

omit [DecidableEq τ] in
/-- What covers more covers less. -/
theorem Covers.mono (h : cond.Covers n) (hmn : m ≤ n) : cond.Covers m := by
  intro hblocked
  have hcard := h hblocked
  omega

/-- There is always a thread to wake, or none is blocked. -/
theorem exists_signal (cond : CondVar τ) :
    ∃ woken cond', cond.signal woken = some cond' := by
  rcases cond.blocked.eq_empty_or_nonempty with hempty | ⟨t, ht⟩
  · exact ⟨none, cond, if_pos hempty⟩
  · exact ⟨some t, cond.wake t, if_pos ht⟩

/-- A signal blocks nobody. -/
theorem blocked_signal_subset {woken : Option τ} (hok : cond.signal woken = some cond') :
    cond'.blocked ⊆ cond.blocked := by
  cases woken with
  | none =>
    obtain ⟨-, hsame⟩ := Option.ite_none_right_eq_some.mp hok
    obtain rfl := Option.some.inj hsame
    exact Finset.Subset.refl _
  | some t =>
    obtain ⟨-, hsame⟩ := Option.ite_none_right_eq_some.mp hok
    obtain rfl := Option.some.inj hsame
    exact Finset.erase_subset t _

/-- A signal covers one more unit. -/
theorem Covers.signal (h : cond.Covers n) {woken : Option τ}
    (hok : cond.signal woken = some cond') : cond'.Covers (n + 1) := by
  intro hblocked
  cases woken with
  | none =>
    obtain ⟨hnobody, hsame⟩ := Option.ite_none_right_eq_some.mp hok
    obtain rfl := Option.some.inj hsame
    rw [hnobody] at hblocked
    exact absurd hblocked Finset.not_nonempty_empty
  | some t =>
    obtain ⟨ht, hsame⟩ := Option.ite_none_right_eq_some.mp hok
    obtain rfl := Option.some.inj hsame
    have hcard := h ⟨t, ht⟩
    have hnew : t ∉ cond.signalled := Finset.disjoint_left.mp cond.disjoint ht
    have hinsert : (cond.wake t).signalled.card = cond.signalled.card + 1 :=
      Finset.card_insert_of_notMem hnew
    omega

/-- A thread that goes on takes at most its own signal with it. -/
theorem Covers.resume (h : cond.Covers (n + 1)) (t : τ) : (cond.resume t).Covers n := by
  intro hblocked
  have hcard := h (hblocked.mono (Finset.erase_subset t _))
  have herase : cond.signalled.card - 1 ≤ (cond.resume t).signalled.card :=
    Finset.pred_card_le_card_erase
  omega

/-- A blocked thread that goes on takes no signal with it. -/
theorem Covers.spurious (h : cond.Covers n) {t : τ} (ht : t ∈ cond.blocked) :
    (cond.resume t).Covers n := by
  intro hblocked
  have hnot : t ∉ cond.signalled := Finset.disjoint_left.mp cond.disjoint ht
  have hsame : (cond.resume t).signalled = cond.signalled := Finset.erase_eq_of_notMem hnot
  rw [hsame]
  exact h (hblocked.mono (Finset.erase_subset t _))

end

end CondVar
