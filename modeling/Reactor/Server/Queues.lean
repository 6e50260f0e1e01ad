import Reactor.Server.Basic

/-!
# The functors of the loops

What a step does to the functors that are still to be called, and to those that exist:
a functor is queued, the queue becomes a batch, and the batch loses its first functor to
the call.
-/

namespace Reactor

/-- Two descriptors have different decimal representations. -/
theorem toString_nat_inj {m n : ℕ} (h : toString m = toString n) : m = n := by
  have hdigits : Nat.toDigits 10 m = Nat.toDigits 10 n := by
    rw [← Nat.toList_repr, ← Nat.toList_repr]
    exact congrArg String.toList h
  have hvalue := congrArg (Nat.ofDigitChars 10 · 0) hdigits
  simpa only [Nat.ofDigitChars_ten_toDigits] using hvalue

namespace ServerLoop

variable {ι : Type*} {loop : ServerLoop ι} {f : LoopFunctor ι}

/-- A functor that is still to be called exists. -/
theorem mem_held_of_mem_unexecuted (h : f ∈ loop.unexecuted) : f ∈ loop.held := by
  unfold unexecuted at h
  unfold held
  split at h
  · exact h
  · rw [List.append_assoc]
    exact List.mem_append_right _ h

end ServerLoop

namespace Server

variable {ι : Type*} [DecidableEq ι]

/-- The functor is still to be called in the loop `l`. -/
def Queued (s : Server ι) (l : ι) (f : LoopFunctor ι) : Prop := f ∈ (s.loops l).unexecuted

/-- A connection that is in the map, or on its way to the functor that unregisters it. -/
def Kept (s : Server ι) (conn : Connection ι) : Prop :=
  s.InMap conn ∨ s.Removing conn ∨ s.Queued conn.ioLoop (.removeConnectionInPoller conn)

/-- A connection that no function has established yet, and nothing removes. -/
structure New (s : Server ι) (conn : Connection ι) : Prop where
  inMap : s.InMap conn
  not_registered : ¬ s.Registered conn
  not_removing : ¬ s.Removing conn
  not_removed : ∀ l, ¬ s.Queued l (.removeConnection conn)
  not_unregistered : ∀ l, ¬ s.Queued l (.removeConnectionInPoller conn)

section

variable {s : Server ι} {c d : Connection ι} {l : ι} {f : LoopFunctor ι}

omit [DecidableEq ι] in
/-- Different numbers give different names. -/
theorem nameOf_inj {m n : ℕ} (h : s.nameOf m = s.nameOf n) : m = n :=
  toString_nat_inj ((String.append_right_inj s.name).mp h)

omit [DecidableEq ι] in
/-- The base loop calls functors and handles events only outside `removeConnection`. -/
theorem removing_eq_none (hbusy : ¬ s.Busy l) (hl : l = s.base) : s.removing = none := by
  by_contra hne
  exact hbusy ⟨hl, hne⟩

/-- One loop is set. -/
theorem loops_setLoop (s : Server ι) (l : ι) (loop : ServerLoop ι) (l' : ι) :
    (s.setLoop l loop).loops l' = if l' = l then loop else s.loops l' := by
  unfold setLoop
  exact Function.update_apply ..

/-- A functor is queued behind those of its loop. -/
theorem unexecuted_queueInLoop (s : Server ι) (l : ι) (f : LoopFunctor ι) (l' : ι) :
    ((s.queueInLoop l f).loops l').unexecuted =
      if l' = l then (s.loops l).unexecuted ++ [f] else (s.loops l').unexecuted := by
  unfold queueInLoop
  rw [loops_setLoop]
  split
  · unfold ServerLoop.unexecuted
    dsimp only
    split
    · rfl
    · rw [List.append_assoc]
  · rfl

omit [DecidableEq ι] in
/-- A functor that is held after one has been queued is that one or was held before. -/
theorem mem_held_queueInLoop {loop : ServerLoop ι} {g : LoopFunctor ι}
    (h : g ∈ ServerLoop.held { loop with pendingFunctors := loop.pendingFunctors ++ [f] }) :
    g ∈ loop.held ∨ g = f := by
  unfold ServerLoop.held at h ⊢
  dsimp only at h
  split at h
  · simpa using h
  · simp only [List.mem_append, List.mem_singleton] at h ⊢
    tauto

/-! ## The next functor of a batch -/

/-- The batch of the loop `l` with its next functor called. -/
def popped (s : Server ι) (l : ι) (called : List (LoopFunctor ι)) (f : LoopFunctor ι)
    (rest : List (LoopFunctor ι)) : Server ι :=
  s.setLoop l { s.loops l with phase := .functors (called ++ [f]) rest }

section

variable {called rest : List (LoopFunctor ι)}

/-- The first functor of the batch is taken. -/
theorem unexecuted_popped_self
    (hphase : (s.loops l).phase = .functors called (f :: rest)) :
    (s.loops l).unexecuted = f :: ((s.popped l called f rest).loops l).unexecuted := by
  unfold popped
  rw [loops_setLoop, if_pos rfl]
  simp [ServerLoop.unexecuted, hphase]

/-- The functor that is about to be called is queued. -/
theorem queued_next (hphase : (s.loops l).phase = .functors called (f :: rest)) : s.Queued l f := by
  unfold Queued
  rw [unexecuted_popped_self hphase]
  exact List.mem_cons_self

/-- The other loops execute nothing meanwhile. -/
theorem unexecuted_popped_of_ne {l' : ι} (hne : l' ≠ l) :
    ((s.popped l called f rest).loops l').unexecuted = (s.loops l').unexecuted := by
  unfold popped
  rw [loops_setLoop, if_neg hne]

/-- Taking a functor changes no map of channels. -/
theorem channelMap_popped (l' : ι) :
    ((s.popped l called f rest).loops l').channelMap = (s.loops l').channelMap := by
  unfold popped
  rw [loops_setLoop]
  split
  · next heq => rw [heq]
  · rfl

/-- What is queued behind the functor taken was queued before. -/
theorem queued_of_popped (hphase : (s.loops l).phase = .functors called (f :: rest))
    {l' : ι} {g : LoopFunctor ι}
    (hg : (s.popped l called f rest).Queued l' g) : s.Queued l' g := by
  unfold Queued at hg ⊢
  by_cases heq : l' = l
  · subst heq
    rw [unexecuted_popped_self hphase]
    exact List.mem_cons_of_mem f hg
  · rwa [unexecuted_popped_of_ne heq] at hg

/-- All functors but the one taken stay queued. -/
theorem queued_popped (hphase : (s.loops l).phase = .functors called (f :: rest))
    {l' : ι} {g : LoopFunctor ι} (hg : s.Queued l' g) (hne : g ≠ f) :
    (s.popped l called f rest).Queued l' g := by
  unfold Queued at hg ⊢
  by_cases heq : l' = l
  · subst heq
    rw [unexecuted_popped_self hphase] at hg
    exact (List.mem_cons.mp hg).resolve_left hne
  · rwa [unexecuted_popped_of_ne heq]

/-- The other functors are queued as often as before. -/
theorem count_popped (hphase : (s.loops l).phase = .functors called (f :: rest)) (l' : ι)
    {g : LoopFunctor ι} (hne : g ≠ f) :
    ((s.popped l called f rest).loops l').unexecuted.count g = (s.loops l').unexecuted.count g := by
  by_cases heq : l' = l
  · subst heq
    rw [unexecuted_popped_self hphase, List.count_cons_of_ne hne.symm]
  · rw [unexecuted_popped_of_ne heq]

/-- No functor is queued more often than before. -/
theorem count_popped_le (hphase : (s.loops l).phase = .functors called (f :: rest)) (l' : ι)
    (g : LoopFunctor ι) :
    ((s.popped l called f rest).loops l').unexecuted.count g ≤
      (s.loops l').unexecuted.count g := by
  by_cases heq : l' = l
  · subst heq
    rw [unexecuted_popped_self hphase]
    exact List.count_le_count_cons
  · rw [unexecuted_popped_of_ne heq]

/-- A new connection stays new while functors of others are taken. -/
theorem New.popped (h : s.New c) (hphase : (s.loops l).phase = .functors called (f :: rest)) :
    (s.popped l called f rest).New c where
  inMap := h.inMap
  not_registered hregistered := by
    unfold Registered at hregistered
    rw [channelMap_popped] at hregistered
    exact h.not_registered hregistered
  not_removing := h.not_removing
  not_removed l' hqueued := h.not_removed l' (queued_of_popped hphase hqueued)
  not_unregistered l' hqueued := h.not_unregistered l' (queued_of_popped hphase hqueued)

end

/-! ## Establishing a connection -/

/-- The entries of the poller's map behind `connectEstablished`. -/
theorem lookup_connectEstablished {fd : ℕ}
    (h : ((s.connectEstablished c).loops l).channelMap.lookup fd = some d) :
    (s.loops l).channelMap.lookup fd = some d ∨ l = c.ioLoop ∧ fd = c.sockfd ∧ d = c := by
  change ((s.setLoop c.ioLoop _).loops l).channelMap.lookup fd = some d at h
  rw [loops_setLoop] at h
  split at h
  · next heq =>
    subst heq
    dsimp only at h
    split at h
    · exact .inl h
    · by_cases hfd : fd = c.sockfd
      · subst hfd
        rw [Finmap.lookup_insert] at h
        exact .inr ⟨rfl, rfl, (Option.some.inj h).symm⟩
      · rw [Finmap.lookup_insert_of_ne _ hfd] at h
        exact .inl h
  · exact .inl h

/-- Establishing a connection queues nothing. -/
theorem unexecuted_connectEstablished (s : Server ι) (c : Connection ι) (l : ι) :
    ((s.connectEstablished c).loops l).unexecuted = (s.loops l).unexecuted := by
  change ((s.setLoop c.ioLoop _).loops l).unexecuted = _
  rw [loops_setLoop]
  split
  · next heq =>
    rw [heq]
    rfl
  · rfl

/-- Establishing a connection leaves what is queued. -/
@[simp] theorem queued_connectEstablished :
    (s.connectEstablished c).Queued l f ↔ s.Queued l f := by
  unfold Queued
  rw [unexecuted_connectEstablished]

end

end Server

end Reactor
