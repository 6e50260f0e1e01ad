import Mathlib.Algebra.BigOperators.Group.Finset.Piecewise
import Reactor.Lib.Run

/-!
# Runs that come to an end

Some actions of a system are its own, others come from its surroundings, such as a
spurious wakeup or a call by a client. A rank that every own action lowers, and that an
action from outside raises by no more than its credit, bounds the own actions of a run.
If moreover some own action is possible wherever the work is not done, a run that
cannot be continued has done it. Where the system has no end but a goal on its way, the
same holds up to the goal.
-/

namespace Transition

variable {σ α ε : Type*}

/-- The actions without credit are the system's own. -/
def ownSteps (credit : α → ℕ) (as : List α) : ℕ := as.countP fun a => decide (credit a = 0)

/-- No own action is possible. -/
def Stuck (step : σ → α → Except ε σ) (credit : α → ℕ) (s : σ) : Prop :=
  ∀ a, credit a = 0 → ∀ t, step s a ≠ .ok t

/-- From the state `s` the system completes its work: in every run the number of its own
actions is limited by `n` and the credit of the others, and where a run cannot be
continued by an own action the work is done. -/
structure Completes (step : σ → α → Except ε σ) (credit : α → ℕ) (Done : σ → Prop) (n : ℕ)
    (s : σ) : Prop where
  bounded : ∀ as t, run step s as = .ok t → ownSteps credit as ≤ n + (as.map credit).sum
  done : ∀ as t, run step s as = .ok t → Stuck step credit t → Done t

/-- From the state `s` the system attains a goal that it does not lose again: it takes no more
than `n` of its own actions, which `own` tells apart, and the credit of all actions. Actions of
others need not have any. -/
structure Attains (step : σ → α → Except ε σ) (own : α → Bool) (credit : α → ℕ)
    (Goal Short : σ → Prop) (n : ℕ) (s : σ) : Prop where
  bounded : ∀ as t, run step s as = .ok t → ¬ Goal t →
    as.countP own ≤ n + (as.map credit).sum
  attains : ∀ as t, run step s as = .ok t → (∀ a, own a = true → ∀ u, step t a ≠ .ok u) →
    Goal t ∨ Short t

/-- The invariant and the rank from which completion follows. -/
structure Ranked (step : σ → α → Except ε σ) (credit : α → ℕ) (Inv Done : σ → Prop)
    (rank : σ → ℕ) : Prop where
  keeps : ∀ s a t, Inv s → step s a = .ok t → Inv t
  lowers : ∀ s a t, Inv s → credit a = 0 → step s a = .ok t → rank t < rank s
  raises : ∀ s a t, Inv s → credit a ≠ 0 → step s a = .ok t → rank t ≤ rank s + credit a
  moves : ∀ s, Inv s → ¬ Done s → ¬ Stuck step credit s

/-- The invariant and the rank from which attainment follows. An own action costs one, and every
action may raise the rank by its credit. -/
structure Nears (step : σ → α → Except ε σ) (own : α → Bool) (credit : α → ℕ)
    (Inv Goal Short : σ → Prop) (rank : σ → ℕ) : Prop where
  keeps : ∀ s a t, Inv s → step s a = .ok t → Inv t
  stays : ∀ s a t, Inv s → Goal s → step s a = .ok t → Goal t
  pays : ∀ s a t, Inv s → step s a = .ok t → ¬ Goal t →
    rank t + (own a).toNat ≤ rank s + credit a
  moves : ∀ s, Inv s → ¬ Goal s → ¬ Short s → ∃ a t, own a = true ∧ step s a = .ok t

section

variable {Goal Short : σ → Prop} {step : σ → α → Except ε σ} {own : α → Bool} {credit : α → ℕ}
  {Inv Done : σ → Prop} {rank : σ → ℕ} {s t : σ} {as : List α} {n : ℕ}

/-! ## The rank pays -/

/-- A goal that has been reached is kept to the end of the run. -/
theorem Nears.stays_along (h : Nears step own credit Inv Goal Short rank) (hs : Inv s)
    (hgoal : Goal s) (hrun : run step s as = .ok t) : Goal t := by
  induction as generalizing s with
  | nil =>
    obtain rfl := Except.ok.inj hrun
    exact hgoal
  | cons a as ih =>
    obtain ⟨u, hstep, hrest⟩ := run_cons_eq_ok.mp hrun
    exact ih (h.keeps s a u hs hstep) (h.stays s a u hs hgoal hstep) hrest

/-- The rank pays for the own actions on the way to the goal. -/
theorem Nears.pays_along (h : Nears step own credit Inv Goal Short rank) (hs : Inv s)
    (hrun : run step s as = .ok t) :
    Inv t ∧ (¬ Goal t → rank t + as.countP own ≤ rank s + (as.map credit).sum) := by
  induction as generalizing s with
  | nil =>
    obtain rfl := Except.ok.inj hrun
    exact ⟨hs, fun _ => Nat.le_refl _⟩
  | cons a as ih =>
    obtain ⟨u, hstep, hrest⟩ := run_cons_eq_ok.mp hrun
    have hu := h.keeps s a u hs hstep
    obtain ⟨ht, hpaid⟩ := ih hu hrest
    refine ⟨ht, fun hnot => ?_⟩
    have hpaid := hpaid hnot
    have hnotu : ¬ Goal u := fun hgoal => hnot (h.stays_along hu hgoal hrest)
    have hone := h.pays s a u hs hstep hnotu
    rw [List.countP_cons, List.map_cons, List.sum_cons]
    cases hown : own a with
    | true =>
      rw [hown, Bool.toNat_true] at hone
      rw [if_pos rfl]
      omega
    | false =>
      rw [if_neg Bool.false_ne_true]
      omega

/-- The rule of attainment. -/
theorem Nears.attains (h : Nears step own credit Inv Goal Short rank) (hs : Inv s)
    (hrank : rank s ≤ n) : Attains step own credit Goal Short n s := by
  constructor
  · intro as t hrun hnot
    have hpaid := (h.pays_along hs hrun).2 hnot
    omega
  · intro as t hrun hstuck
    by_contra hnot
    obtain ⟨hgoal, hshort⟩ := not_or.mp hnot
    obtain ⟨a, u, hown, hstep⟩ := h.moves t (h.pays_along hs hrun).1 hgoal hshort
    exact hstuck a hown u hstep

/-! ## Own actions are those without credit -/

/-- Where a run is not stuck, a step of its own can be taken. -/
theorem exists_of_not_stuck (h : ¬ Stuck step credit s) :
    ∃ a t, decide (credit a = 0) = true ∧ step s a = .ok t := by
  simp only [Stuck, not_forall, not_not] at h
  obtain ⟨a, hown, t, hstep⟩ := h
  exact ⟨a, t, decide_eq_true hown, hstep⟩

/-- A step without credit lowers the rank, and one with credit raises it by no more than that. -/
theorem pays_of_lowers {r r' : ℕ} {a : α} (hlowers : credit a = 0 → r' < r)
    (hraises : credit a ≠ 0 → r' ≤ r + credit a) :
    r' + (decide (credit a = 0)).toNat ≤ r + credit a := by
  by_cases hown : credit a = 0
  · have hless := hlowers hown
    rw [decide_eq_true hown, Bool.toNat_true]
    omega
  · have hmore := hraises hown
    rw [decide_eq_false hown, Bool.toNat_false]
    omega

/-- Completion has no goal at which it ends. -/
theorem Ranked.nears (h : Ranked step credit Inv Done rank) :
    Nears step (fun a => decide (credit a = 0)) credit Inv (fun _ => False) Done rank where
  keeps := h.keeps
  stays _ _ _ _ hgoal _ := hgoal
  pays s a t hs hstep _ :=
    pays_of_lowers (fun hown => h.lowers s a t hs hown hstep)
      fun hown => h.raises s a t hs hown hstep
  moves s hs _ hdone := exists_of_not_stuck (h.moves s hs hdone)

/-- The rank pays for the own actions of a run. -/
theorem Ranked.pays (h : Ranked step credit Inv Done rank) (hs : Inv s)
    (hrun : run step s as = .ok t) :
    Inv t ∧ rank t + ownSteps credit as ≤ rank s + (as.map credit).sum := by
  obtain ⟨ht, hpaid⟩ := h.nears.pays_along hs hrun
  exact ⟨ht, hpaid not_false⟩

/-- The rule of completion. -/
theorem Ranked.completes (h : Ranked step credit Inv Done rank) (hs : Inv s)
    (hrank : rank s ≤ n) : Completes step credit Done n s := by
  have hattains := h.nears.attains hs hrank
  constructor
  · exact fun as t hrun => hattains.bounded as t hrun not_false
  · intro as t hrun hstuck
    refine (hattains.attains as t hrun fun a hown => ?_).resolve_left not_false
    exact hstuck a (of_decide_eq_true hown)

/-- What holds of every run that ends without a fault holds at each step of a run. -/
theorem always_withHistory {P : List α × σ → Prop}
    (h : ∀ as t, run step s as = .ok t → P (as, t)) :
    Always (withHistory step) P ([], s) as := by
  have hkeep : ∀ (p : List α × σ) a q, run step s p.1 = .ok p.2 → withHistory step p a = .ok q →
      run step s q.1 = .ok q.2 := by
    intro p a q hp hq
    obtain ⟨u, hstep, rfl⟩ := withHistory_eq_ok.mp hq
    rw [run_append, hp, ok_bind]
    exact run_cons_eq_ok.mpr ⟨u, hstep, rfl⟩
  apply along_of_guarded (fun p => run step s p.1 = .ok p.2) ?_ ?_ rfl guarded_true
  · intro p a hp _ q hq
    exact h q.1 q.2 (hkeep p a q hp hq)
  · intro p a q hp _ hq
    exact hkeep p a q hp hq

/-- The rank of a family of threads of which one moves. -/
theorem sum_update {ι β : Type*} [Fintype ι] [DecidableEq ι] (f : ι → β) (rank : β → ℕ) (i : ι)
    (b : β) : ∑ j, rank (Function.update f i b j) + rank (f i) = ∑ j, rank (f j) + rank b := by
  have hcomp : ∀ j, rank (Function.update f i b j) =
      Function.update (fun j => rank (f j)) i (rank b) j := by
    intro j
    exact congrFun (Function.comp_update rank f i b) j
  simp only [hcomp]
  rw [Finset.sum_update_of_mem (Finset.mem_univ i),
    ← Finset.sum_sdiff (Finset.singleton_subset_iff.mpr (Finset.mem_univ i)), Finset.sum_singleton]
  omega

end

end Transition
