import Mathlib.Algebra.Order.Ring.Nat
import Mathlib.Data.List.Basic

/-!
# Runs of a fallible step function

A component is a step function that takes a state and an action to the next state
or to a fault. A run takes the actions of a list one after the other and ends at
the first fault. `Along` states a property of every step of a run; the guard of a run,
its safety and its partial correctness are instances of it, and one induction serves
them all.
-/

namespace Transition

section

universe u v

variable {ε : Type u} {α β : Type v}

/-- A computation that has returned is continued with its result. -/
@[simp] theorem ok_bind (a : α) (f : α → Except ε β) : (Except.ok a >>= f) = f a := rfl

/-- A computation that has failed is not continued. -/
@[simp] theorem error_bind (e : ε) (f : α → Except ε β) :
    ((Except.error e : Except ε α) >>= f) = .error e := rfl

/-- `pure` returns. -/
@[simp] theorem pure_eq_ok (a : α) : (pure a : Except ε α) = .ok a := rfl

/-- `throw` fails. -/
@[simp] theorem throw_eq_error (e : ε) : (throw e : Except ε α) = .error e := rfl

/-- A sequence of two steps succeeds exactly when both do. -/
theorem bind_eq_ok {x : Except ε α} {f : α → Except ε β} {b : β} :
    x >>= f = .ok b ↔ ∃ a, x = .ok a ∧ f a = .ok b := by
  cases x with
  | error e => simp
  | ok a => simp

/-- A mapped step succeeds exactly when the step does. -/
theorem map_eq_ok {α β : Type*} {x : Except ε α} {f : α → β} {b : β} :
    x.map f = .ok b ↔ ∃ a, x = .ok a ∧ f a = b := by
  cases x with
  | error e => simp [Except.map]
  | ok a => simp [Except.map]

/-- A guarded result. -/
theorem ite_eq_ok {p : Prop} [Decidable p] {a b : α} {e : ε} :
    (if p then Except.ok a else .error e) = .ok b ↔ p ∧ a = b := by
  by_cases hp : p
  · simp [hp]
  · simp [hp]

/-- A guarded computation. -/
theorem guard_eq_ok {p : Prop} [Decidable p] {x : Except ε α} {b : α} {e : ε} :
    (if p then x else .error e) = .ok b ↔ p ∧ x = .ok b := by
  by_cases hp : p
  · simp [hp]
  · simp [hp]

/-- A computation ends in a value that satisfies `P` or in a fault that satisfies `E`. -/
def Ensures (x : Except ε α) (P : α → Prop) (E : ε → Prop) : Prop :=
  match x with
  | .ok a => P a
  | .error e => E e

/-- The rule of composition. -/
theorem Ensures.bind {x : Except ε α} {f : α → Except ε β} {P : α → Prop} {Q : β → Prop}
    {E : ε → Prop} (hx : Ensures x P E) (hf : ∀ a, P a → Ensures (f a) Q E) :
    Ensures (x >>= f) Q E := by
  cases x with
  | error e => exact hx
  | ok a => exact hf a hx

/-- The rule of consequence. -/
theorem Ensures.imp {x : Except ε α} {P Q : α → Prop} {E : ε → Prop} (hx : Ensures x P E)
    (h : ∀ a, P a → Q a) : Ensures x Q E := by
  cases x with
  | error e => exact hx
  | ok a => exact h a hx

/-- The rule of consequence for the faults. -/
theorem Ensures.imp_error {x : Except ε α} {P : α → Prop} {E E' : ε → Prop}
    (hx : Ensures x P E) (h : ∀ e, E e → E' e) : Ensures x P E' := by
  cases x with
  | error e => exact h e hx
  | ok a => exact hx

/-- The condition decides how the computation ends: every result is good, or there is a
result and it is bad. -/
def Decides (G : Prop) (x : Except ε α) (Good Bad : α → Prop) : Prop :=
  (G → ∀ a, x = .ok a → Good a) ∧ (¬ G → ∃ a, x = .ok a ∧ Bad a)

section

variable {G G' : Prop} {x : Except ε α} {a : α} {Good Good' Bad Bad' : α → Prop}

/-- A step that returns is decided by its result. -/
theorem decides_ok (hgood : G → Good a) (hbad : ¬ G → Bad a) :
    Decides G (.ok a : Except ε α) Good Bad := by
  refine ⟨fun hG b hb => ?_, fun hG => ⟨a, rfl, hbad hG⟩⟩
  obtain rfl := Except.ok.inj hb
  exact hgood hG

/-- Where the condition holds anyway, all results have to be good. -/
theorem decides_of_good (hG : G) (hgood : ∀ a, x = .ok a → Good a) : Decides G x Good Bad :=
  ⟨fun _ => hgood, fun hnot => absurd hG hnot⟩

/-- A step that fails is good. -/
theorem decides_error {e : ε} (hG : G) : Decides G (.error e : Except ε α) Good Bad :=
  decides_of_good hG fun _ hb => by cases hb

/-- What decides a step decides what follows from it. -/
theorem Decides.imp (h : Decides G x Good Bad) (hG : G' ↔ G) (hgood : ∀ a, Good a → Good' a)
    (hbad : ∀ a, Bad a → Bad' a) : Decides G' x Good' Bad' := by
  constructor
  · intro hG' a ha
    exact hgood a (h.1 (hG.mp hG') a ha)
  · intro hnot
    obtain ⟨a, ha, hba⟩ := h.2 (hG.not.mp hnot)
    exact ⟨a, ha, hbad a hba⟩

end

end

variable {σ α ε : Type*}

/-- The state after the actions of a list, or the first fault. -/
def run (step : σ → α → Except ε σ) : σ → List α → Except ε σ
  | s, [] => .ok s
  | s, a :: as =>
    match step s a with
    | .ok t => run step t as
    | .error e => .error e

/-- A run that ends without a fault, taken apart. -/
theorem run_cons_eq_ok {step : σ → α → Except ε σ} {s t : σ} {a : α} {as : List α} :
    run step s (a :: as) = .ok t ↔ ∃ u, step s a = .ok u ∧ run step u as = .ok t := by
  rw [run]
  cases step s a with
  | error e => simp
  | ok u => simp

/-- A run of two parts. -/
theorem run_append (step : σ → α → Except ε σ) (s : σ) (as bs : List α) :
    run step s (as ++ bs) = run step s as >>= fun t => run step t bs := by
  induction as generalizing s with
  | nil => rfl
  | cons a as ih =>
    rw [List.cons_append, run, run]
    cases step s a with
    | error e => rfl
    | ok t => exact ih t

/-- Every action of the run satisfies `R` of the state in which it is taken, the
action itself, and its outcome. Actions after a fault are not taken. -/
def Along (step : σ → α → Except ε σ) (R : σ → α → Except ε σ → Prop) : σ → List α → Prop
  | _, [] => True
  | s, a :: as => R s a (step s a) ∧ ∀ t, step s a = .ok t → Along step R t as

/-- Every action of the run is taken in a state that satisfies the guard. -/
def Guarded (step : σ → α → Except ε σ) (G : σ → α → Prop) : σ → List α → Prop :=
  Along step fun s a _ => G s a

/-- The step function with the actions taken so far kept beside the state. -/
def withHistory (step : σ → α → Except ε σ) : List α × σ → α → Except ε (List α × σ)
  | (done, s), a => (step s a).map fun t => (done ++ [a], t)

/-- The history grows by the action that is taken. -/
theorem withHistory_eq_ok {step : σ → α → Except ε σ} {s : List α × σ} {a : α}
    {t : List α × σ} :
    withHistory step s a = .ok t ↔ ∃ u, step s.2 a = .ok u ∧ t = (s.1 ++ [a], u) := by
  rw [withHistory, map_eq_ok]
  exact exists_congr fun u => and_congr_right fun _ => eq_comm

/-- No action of the run faults, and every state it reaches satisfies `P`. -/
def Safe (step : σ → α → Except ε σ) (P : σ → Prop) : σ → List α → Prop :=
  Along step fun _ _ r => ∃ t, r = .ok t ∧ P t

/-- Every state that the run reaches satisfies `P`; a fault is no violation. -/
def Always (step : σ → α → Except ε σ) (P : σ → Prop) : σ → List α → Prop :=
  Along step fun _ _ r => ∀ t, r = .ok t → P t

/-- The steps of a concrete run can be checked one after the other. -/
instance decidableAlong {step : σ → α → Except ε σ} {R : σ → α → Except ε σ → Prop}
    [∀ s a, Decidable (R s a (step s a))] : ∀ s as, Decidable (Along step R s as)
  | _, [] => .isTrue trivial
  | s, a :: as =>
    match h : step s a with
    | .error e =>
      decidable_of_iff (R s a (step s a)) ⟨fun hR => ⟨hR, fun t ht => by simp [h] at ht⟩, And.left⟩
    | .ok t =>
      have : Decidable (Along step R t as) := decidableAlong t as
      decidable_of_iff (R s a (step s a) ∧ Along step R t as)
        ⟨fun hR => ⟨hR.1, fun u hu => Except.ok.inj (h.symm.trans hu) ▸ hR.2⟩,
          fun hR => ⟨hR.1, hR.2 t h⟩⟩

instance {step : σ → α → Except ε σ} {G : σ → α → Prop} [∀ s a, Decidable (G s a)] (s : σ)
    (as : List α) : Decidable (Guarded step G s as) :=
  inferInstanceAs (Decidable (Along step (fun s a _ => G s a) s as))

instance decidableOfOk {P : σ → Prop} [DecidablePred P] :
    ∀ r : Except ε σ, Decidable (∀ t, r = .ok t → P t)
  | .ok t => decidable_of_iff (P t) ⟨fun h _ hu => Except.ok.inj hu ▸ h, fun h => h t rfl⟩
  | .error _ => .isTrue fun _ h => absurd h (by simp)

instance {step : σ → α → Except ε σ} {P : σ → Prop} [DecidablePred P] (s : σ) (as : List α) :
    Decidable (Always step P s as) :=
  inferInstanceAs (Decidable (Along step (fun _ _ r => ∀ t, r = .ok t → P t) s as))

section

variable {step : σ → α → Except ε σ} {R S : σ → α → Except ε σ → Prop}
  {G : σ → α → Prop} {Inv : σ → Prop} {s : σ} {as : List α}

/-- A weaker step property holds along the same run. -/
theorem Along.mono (hRS : ∀ s a r, R s a r → S s a r) (h : Along step R s as) :
    Along step S s as := by
  induction as generalizing s with
  | nil => trivial
  | cons a as ih => exact ⟨hRS _ _ _ h.1, fun t ht => ih (h.2 t ht)⟩

/-- A safe run ends without a fault. -/
theorem Safe.run_ok {P : σ → Prop} (h : Safe step P s as) : ∃ t, run step s as = .ok t := by
  induction as generalizing s with
  | nil => exact ⟨s, rfl⟩
  | cons a as ih =>
    obtain ⟨⟨t, ht, -⟩, hrest⟩ := h
    simpa only [run, ht] using ih (hrest t ht)

/-- What holds at the start and in every state that the run reaches holds at its end. -/
theorem Always.at_end {P : σ → Prop} {t : σ} (hs : P s) (h : Always step P s as)
    (hrun : run step s as = .ok t) : P t := by
  induction as generalizing s with
  | nil =>
    obtain rfl := Except.ok.inj hrun
    exact hs
  | cons a as ih =>
    obtain ⟨u, hstep, hrun⟩ := run_cons_eq_ok.mp hrun
    exact ih (h.1 u hstep) (h.2 u hstep) hrun

/-- A safe run ends in a state that satisfies the property. -/
theorem Safe.at_end {P : σ → Prop} {t : σ} (hs : P s) (h : Safe step P s as)
    (hrun : run step s as = .ok t) : P t := by
  have halways : Always step P s as := by
    refine h.mono fun _ _ r hr u hu => ?_
    obtain ⟨v, hv, hP⟩ := hr
    obtain rfl := Except.ok.inj (hu.symm.trans hv)
    exact hP
  exact halways.at_end hs hrun

/-- The induction rule of guarded runs: an invariant that each guarded step keeps
yields, along the whole run, whatever it yields of one step. -/
theorem along_of_guarded (I : σ → Prop) (hstep : ∀ s a, I s → G s a → R s a (step s a))
    (hkeep : ∀ s a t, I s → G s a → step s a = .ok t → I t)
    (hs : I s) (h : Guarded step G s as) : Along step R s as := by
  induction as generalizing s with
  | nil => trivial
  | cons a as ih =>
    exact ⟨hstep s a hs h.1, fun t ht => ih (hkeep s a t hs h.1 ht) (h.2 t ht)⟩

/-- Two step properties that agree in the states of an invariant agree along guarded
runs, if the steps that have them keep the invariant. -/
theorem along_congr_of_guarded (I : σ → Prop)
    (hexact : ∀ s a, I s → G s a → (R s a (step s a) ↔ S s a (step s a)))
    (hkeep : ∀ s a t, I s → G s a → S s a (step s a) → step s a = .ok t → I t) (hs : I s)
    (h : Guarded step G s as) : Along step R s as ↔ Along step S s as := by
  induction as generalizing s with
  | nil => exact Iff.rfl
  | cons a as ih =>
    rw [Along, Along, hexact s a hs h.1]
    exact and_congr_right fun hS => forall₂_congr fun t ht =>
      ih (hkeep s a t hs h.1 hS ht) (h.2 t ht)

/-- Every run satisfies the trivial guard. -/
theorem guarded_true : Guarded step (fun _ _ => True) s as := by
  induction as generalizing s with
  | nil => trivial
  | cons a as ih => exact ⟨trivial, fun _ _ => ih⟩

/-- A guard that does not depend on the state holds along all runs of actions that satisfy it. -/
theorem guarded_of_forall_mem {P : α → Prop} (h : ∀ a ∈ as, P a) :
    Guarded step (fun _ a => P a) s as := by
  induction as generalizing s with
  | nil => trivial
  | cons a as ih =>
    obtain ⟨ha, has⟩ := List.forall_mem_cons.mp h
    exact ⟨ha, fun _ _ => ih has⟩

/-- If no action adds more than its cost to a measure of the state, the measure stays
within what the costs of the whole run allow. -/
theorem guarded_of_cost (size : σ → ℕ) (cost : α → ℕ) {bound : ℕ}
    (hgrow : ∀ s a t, step s a = .ok t → size t ≤ size s + cost a)
    (h : size s + (as.map cost).sum < bound) :
    Guarded step (fun s a => size s + cost a < bound) s as := by
  induction as generalizing s with
  | nil => trivial
  | cons a as ih =>
    rw [List.map_cons, List.sum_cons] at h
    refine ⟨by omega, fun t ht => ih ?_⟩
    have := hgrow s a t ht
    omega

/-- Two step properties that agree in the states of an invariant agree along runs, if
the steps that have them keep the invariant. -/
theorem along_congr (hexact : ∀ s a, Inv s → (R s a (step s a) ↔ S s a (step s a)))
    (hkeep : ∀ s a t, Inv s → S s a (step s a) → step s a = .ok t → Inv t) (hs : Inv s) :
    Along step R s as ↔ Along step S s as :=
  along_congr_of_guarded Inv (fun s a hs _ => hexact s a hs) (fun s a t hs _ => hkeep s a t hs) hs
    guarded_true

/-- A guard is exact for a step property when, in the invariant's states, a step has
the property if and only if it is guarded. It is then exact for whole runs. -/
theorem along_iff_guarded (hexact : ∀ s a, Inv s → (R s a (step s a) ↔ G s a))
    (hkeep : ∀ s a t, Inv s → G s a → step s a = .ok t → Inv t) (hs : Inv s) :
    Along step R s as ↔ Guarded step G s as :=
  along_congr hexact hkeep hs

/-- If the guard decides whether a step keeps an invariant and has the property `P` or ends
in a state that violates it, the guard is exact for whole runs. -/
theorem along_iff_of_decides {P : σ → σ → Prop}
    (hstep : ∀ s a, Inv s → Decides (G s a) (step s a) (fun t => Inv t ∧ P s t) (fun t => ¬ P s t))
    (hs : Inv s) :
    Along step (fun s _ r => ∀ t, r = .ok t → P s t) s as ↔ Guarded step G s as := by
  apply along_iff_guarded ?_ ?_ hs
  · intro s a hs
    constructor
    · intro h
      by_contra hG
      obtain ⟨t, ht, hP⟩ := (hstep s a hs).2 hG
      exact hP (h t ht)
    · intro hG t ht
      exact ((hstep s a hs).1 hG t ht).2
  · intro s a t hs hG ht
    exact ((hstep s a hs).1 hG t ht).1

/-- Two properties that agree in the states of an invariant hold in all states of the
same runs. -/
theorem always_congr (I : σ → Prop) {P Q : σ → Prop} (hexact : ∀ s, I s → (P s ↔ Q s))
    (hkeep : ∀ s a t, I s → step s a = .ok t → I t) (hs : I s) :
    Always step P s as ↔ Always step Q s as :=
  along_congr (fun s a hs => forall₂_congr fun t ht => hexact t (hkeep s a t hs ht))
    (fun s a t hs _ => hkeep s a t hs) hs

/-- If in the invariant's states a step that satisfies `P` succeeds exactly when it is guarded,
a run of such steps succeeds exactly when it is. -/
theorem run_ok_iff_guarded {P : α → Prop}
    (hexact : ∀ s a, Inv s → P a → ((∃ t, step s a = .ok t) ↔ G s a))
    (hkeep : ∀ s a t, Inv s → G s a → step s a = .ok t → Inv t) (hs : Inv s)
    (has : ∀ a ∈ as, P a) : (∃ t, run step s as = .ok t) ↔ Guarded step G s as := by
  induction as generalizing s with
  | nil => exact ⟨fun _ => trivial, fun _ => ⟨s, rfl⟩⟩
  | cons a as ih =>
    obtain ⟨hPa, hPas⟩ := List.forall_mem_cons.mp has
    have hstep := hexact s a hs hPa
    rw [Guarded, Along, ← hstep]
    constructor
    · rintro ⟨t, hrun⟩
      obtain ⟨u, hu, hrest⟩ := run_cons_eq_ok.mp hrun
      refine ⟨⟨u, hu⟩, fun v hv => ?_⟩
      obtain rfl := Except.ok.inj (hu.symm.trans hv)
      exact (ih (hkeep s a u hs (hstep.mp ⟨u, hu⟩) hu) hPas).mp ⟨t, hrest⟩
    · rintro ⟨⟨u, hu⟩, hrest⟩
      obtain ⟨t, ht⟩ := (ih (hkeep s a u hs (hstep.mp ⟨u, hu⟩) hu) hPas).mpr (hrest u hu)
      exact ⟨t, run_cons_eq_ok.mpr ⟨u, hu, ht⟩⟩

/-- Forward simulation: if every guarded step from related states is matched by the
abstract step, a guarded run ends without a fault in a state related to the result of
the abstract run. -/
theorem run_of_simulation {τ : Type*} {R : σ → τ → Prop} {spec : τ → α → τ} {q : τ}
    (hstep : ∀ s q a, R s q → G s a → ∃ t, step s a = .ok t ∧ R t (spec q a))
    (hs : R s q) (h : Guarded step G s as) :
    ∃ t, run step s as = .ok t ∧ R t (as.foldl spec q) := by
  induction as generalizing s q with
  | nil => exact ⟨s, rfl, hs⟩
  | cons a as ih =>
    obtain ⟨t, ht, hR⟩ := hstep s q a hs h.1
    obtain ⟨u, hu, hfinal⟩ := ih hR (h.2 t ht)
    exact ⟨u, by simpa only [run, ht] using hu, hfinal⟩

end

end Transition
