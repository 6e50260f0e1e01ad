import Reactor.Buffer.Drain

/-!
# Draining and reading on any list of chains

The effect of `bufferDrain` and `bufferRead` depends on the list alone: on what the
chains count and hold and on `lastWithData_`, whatever operations have built it. The
pointer may lie in a chain that the drain deletes, and only if the chain it leads to is
the first one that stays.
-/

namespace Reactor

open Transition

namespace Buffer

/-- `*lastWithData_` is the last chain with data, if there is one. -/
def LeadsToLastData (b : Buffer) (slot : Slot) : Prop :=
  ∀ before c rest, b.chains = before ++ c :: rest → c.off ≠ 0 → (∀ d ∈ rest, d.off = 0) →
    b.pointee slot = .ok (some c.addr)

/-- A list of chains that counts its data, with `lastWithData_` at the last of them. -/
structure WellLinked (b : Buffer) : Prop extends b.Accounted where
  link : b.HasLink b.lastWithData
  leads : b.LeadsToLastData b.lastWithData

/-! ## The link that leads to a chain -/

section

variable {b : Buffer} {before : List BufferChain} {c : BufferChain} {rest : List BufferChain}

/-- The walk over the chains before a chain ends at a link that leads to it. -/
theorem pointee_linkAfter (hb : (b.chains.map BufferChain.addr).Nodup)
    (hsplit : b.chains = before ++ c :: rest) :
    b.pointee (linkAfter .first before) = .ok (some c.addr) := by
  rw [pointee, follow_linkAfter hb hsplit]
  rfl

/-- Only one link leads to a chain. -/
theorem eq_linkAfter_of_pointee (hb : (b.chains.map BufferChain.addr).Nodup)
    (hsplit : b.chains = before ++ c :: rest) {slot : Slot} (hlink : b.HasLink slot)
    (hslot : b.pointee slot = .ok (some c.addr)) : slot = linkAfter .first before := by
  obtain ⟨init, hinit, tail, htail⟩ : ∃ init, slot = linkAfter .first init ∧
      ∃ tail, b.chains = init ++ tail := by
    cases slot with
    | first => exact ⟨[], rfl, b.chains, rfl⟩
    | next addr =>
      obtain ⟨init, d, tail, -, hchains, hd⟩ := exists_locate hlink
      refine ⟨init ++ [d], ?_, tail, by simp [hchains]⟩
      simp [linkAfter, hd]
  rw [hinit, pointee, follow_linkAfter hb htail, ok_bind] at hslot
  cases tail with
  | nil => simp at hslot
  | cons e tail =>
    have he : e.addr = c.addr := by simpa using hslot
    have h₁ := locate_append rest rfl (ne_addr_of_nodup (hsplit ▸ hb))
    have h₂ := locate_append tail rfl (ne_addr_of_nodup (htail ▸ hb))
    rw [← hsplit] at h₁
    rw [← htail, he, h₁] at h₂
    obtain rfl : before = init := congrArg Prod.fst (Except.ok.inj h₂)
    exact hinit

end

/-! ## Draining -/

/-- After a drain the pointer leads to the last chain with data again: to the first
chain if the chain that holds it has been deleted, and else to the same chain. -/
theorem WellLinked.leads_drained {b b' : Buffer} (hb : b.WellLinked) {dropped : List BufferChain}
    {c : BufferChain} {next : List BufferChain} {k : ℕ}
    (hsplit : b.chains = dropped ++ c :: next) (hchains : b'.chains = c.consume k :: next)
    (hk : k < c.off) : b'.LeadsToLastData (linkAfterDrain b.lastWithData dropped) := by
  intro before e rest hsplit' hdata hrest
  have hdistinct := hb.distinct
  rw [hsplit, List.map_append, List.nodup_append] at hdistinct
  have hdistinct' : (b'.chains.map BufferChain.addr).Nodup := by
    rw [hchains]
    exact hdistinct.2.1
  rw [hchains] at hsplit'
  cases before with
  | nil =>
    -- the last chain with data is the first that stays, and the link to it is deleted
    obtain ⟨rfl, rfl⟩ := List.cons.inj hsplit'
    have hslot := eq_linkAfter_of_pointee hb.distinct hsplit hb.link
      (hb.leads dropped c next hsplit (by omega) hrest)
    have hfirst : linkAfterDrain b.lastWithData dropped = .first := by
      have h := linkAfterDrain_of_prefix dropped []
      rwa [List.append_nil, ← hslot] at h
    rw [hfirst, pointee_first, hchains]
    rfl
  | cons d before =>
    -- the link lies in a chain that stays
    obtain ⟨rfl, hnext⟩ := List.cons.inj hsplit'
    have hsplit'' : b.chains = (dropped ++ c :: before) ++ e :: rest := by simp [hsplit, hnext]
    have hslot := eq_linkAfter_of_pointee hb.distinct hsplit'' hb.link
      (hb.leads _ e rest hsplit'' hdata hrest)
    have hstays : linkAfterDrain b.lastWithData dropped =
        linkAfter .first (c.consume k :: before) := by
      have hnodup' : ((dropped ++ c :: before).map BufferChain.addr).Nodup := by
        have h := hb.distinct
        rw [hsplit'', List.map_append] at h
        exact (List.nodup_append.mp h).1
      rw [hslot, linkAfterDrain_append hnodup' (by simp)]
      exact linkAfter_congr .first rfl
    rw [hstays]
    exact pointee_linkAfter hdistinct' (hchains.trans (congrArg _ hnext))

/-- `bufferDrain` removes the first bytes and leaves `lastWithData_` a link of the list
that leads to its last chain with data. -/
theorem WellLinked.bufferDrain_ok {b : Buffer} (hb : b.WellLinked) (n : ℕ) :
    ∃ b', b.bufferDrain n = .ok b' ∧ b'.stored = b.stored.drop (min n b.totalSize) ∧
      b'.totalSize = b.totalSize - min n b.totalSize ∧ b'.HasLink b'.lastWithData ∧
      b'.LeadsToLastData b'.lastWithData := by
  by_cases hn : b.totalSize ≤ n
  · refine ⟨_, bufferDrain_of_le hn, ?_, ?_, trivial, ?_⟩
    · rw [Nat.min_eq_right hn, List.drop_eq_nil_of_le hb.toAccounted.length_stored.le]
      rfl
    · dsimp only
      omega
    · intro before c rest hsplit
      simp at hsplit
  · rw [Nat.min_eq_left (Nat.le_of_not_le hn)]
    obtain ⟨dropped, c, next, remain, hsplit, hlt, hsum, hok⟩ :=
      hb.toAccounted.bufferDrain_lt hb.link (Nat.not_le.mp hn)
    refine ⟨_, hok, stored_eq_drop hsplit hlt.le hsum, rfl, ?_, hb.leads_drained hsplit rfl hlt⟩
    refine hasLink_linkAfterDrain (fun addr haddr hnot => ?_) hb.link
    rw [hsplit, List.map_append, List.mem_append] at haddr
    exact haddr.resolve_left hnot

/-- `bufferDrain` removes exactly the first bytes and leaves the pointer at the last
chain with data; `bufferRead` copies out those bytes and has the same effect. -/
theorem WellLinked.drain_and_read_exact {b : Buffer} (hb : b.WellLinked) (n : ℕ) :
    ∃ b', b.bufferDrain n = .ok b' ∧
      b'.stored = b.stored.drop (min n b.totalSize) ∧
      b'.totalSize = b.totalSize - min n b.totalSize ∧
      b'.HasLink b'.lastWithData ∧ b'.LeadsToLastData b'.lastWithData ∧
      ∃ b'', b.bufferRead n = .ok (b'', b.stored.take (min n b.totalSize)) ∧
        b''.chains = b'.chains ∧ b''.lastWithData = b'.lastWithData ∧
        b''.totalSize = b'.totalSize ∧
        (b.last = b.chains.getLast?.map BufferChain.addr → b'' = b') := by
  obtain ⟨b', hdrain, hstored, htotal, hlink, hleads⟩ := hb.bufferDrain_ok n
  refine ⟨b', hdrain, hstored, htotal, hlink, hleads, ?_⟩
  have htake : b.stored.take (min n b.totalSize) = b.stored.take n := by
    rw [← hb.toAccounted.length_stored, ← List.take_eq_take_min]
  obtain ⟨b'', hread, hsame | ⟨rfl, hnil⟩⟩ := hb.toAccounted.bufferRead_ok hb.link n
  · obtain rfl : b'' = b' := Except.ok.inj (hsame.symm.trans hdrain)
    exact ⟨b'', htake ▸ hread, rfl, rfl, rfl, fun _ => rfl⟩
  · -- `bufferRead` leaves an empty list alone, and there is nothing to drain
    have hzero : b''.totalSize = 0 := by rw [hb.total_eq, hnil]; rfl
    have hfirst : b''.lastWithData = .first := by
      have hlink := hb.link
      cases hslot : b''.lastWithData with
      | first => rfl
      | next addr =>
        rw [hslot, HasLink, hnil] at hlink
        simp at hlink
    rw [bufferDrain_of_le (by omega)] at hdrain
    obtain rfl := Except.ok.inj hdrain
    refine ⟨b'', htake ▸ hread, hnil, hfirst, hzero, fun hlast => ?_⟩
    rw [hnil] at hlast
    cases b''
    simp_all

/-- Two bytes in a chain before an empty one, whose link leads to the last byte. -/
def gappedBuffer : Buffer :=
  { chains := [{ addr := 0, bufferSize := 512, misalign := 0, off := 2, buffer := fun _ => some 7 },
      .empty 1 512,
      { addr := 2, bufferSize := 512, misalign := 3, off := 1, buffer := fun _ => some 9 }]
    last := some 2, lastWithData := .next 1, totalSize := 3, fresh := 3 }

/-- The drain deletes the chain that holds the link. -/
theorem gappedBuffer_drain_and_read :
    ∃ b', gappedBuffer.bufferDrain 2 = .ok b' ∧ b'.stored = [some 9] ∧ b'.totalSize = 1 ∧
      b'.LeadsToLastData b'.lastWithData ∧
      gappedBuffer.bufferRead 2 = .ok (b', [some 7, some 7]) := by
  have hb : gappedBuffer.WellLinked := by
    refine ⟨⟨by decide, ?_, ?_, by decide⟩, ?_, ?_⟩
    · simp [gappedBuffer]
    · simp [gappedBuffer]
    · simp [HasLink, gappedBuffer]
    · intro before c rest hsplit hdata hrest
      rcases before with _ | ⟨d, _ | ⟨e, _ | ⟨f, before⟩⟩⟩
      · obtain ⟨-, rfl⟩ := List.cons.inj hsplit
        simp at hrest
      · obtain ⟨-, hsplit⟩ := List.cons.inj hsplit
        obtain ⟨rfl, -⟩ := List.cons.inj hsplit
        exact absurd rfl hdata
      · obtain ⟨-, hsplit⟩ := List.cons.inj hsplit
        obtain ⟨-, hsplit⟩ := List.cons.inj hsplit
        obtain ⟨rfl, -⟩ := List.cons.inj hsplit
        rfl
      · simp [gappedBuffer] at hsplit
  obtain ⟨b', hdrain, hstored, htotal, -, hleads, b'', hread, -, -, -, hsame⟩ :=
    hb.drain_and_read_exact 2
  obtain rfl := hsame rfl
  exact ⟨b'', hdrain, hstored, htotal, hleads, hread⟩

end Buffer

end Reactor
