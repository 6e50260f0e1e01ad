import Reactor.Buffer.Add
import Reactor.Buffer.Socket
import Mathlib.Tactic.NormNum

/-!
# Expanding

`bufferExpandFast` scans the chains from `*lastWithData_` on for `n` free bytes. It counts
in `avail` the bytes that it has found and in `used` the chains that they are in, and
compares both with `n`. Every chain that it counts has a free byte, so `used` does not
reach `n` before `avail` does: the scan finds the room or meets the end of the list, and
the branch that deletes chains is never entered.
-/

namespace Reactor

open Transition

namespace BufferChain

/-- The space that the source computes is the room. -/
theorem Bounded.chainSpace_eq {c : BufferChain} (h : c.Bounded) : c.chainSpace = c.room := by
  have := h.data_le
  rw [h.room_eq, chainSpace, sizeSub_of_le (a := c.bufferSize) (by omega),
    sizeSub_of_le (by omega), Nat.sub_right_comm]

/-- An aligned chain without data is all room. -/
theorem Bounded.room_of_empty {c : BufferChain} (hc : c.Bounded) (haligned : c.misalign = 0)
    (h : c.off = 0) : c.room = c.bufferSize := by
  rw [hc.room_eq, h, haligned, Nat.sub_zero, Nat.sub_zero]

/-- What the scan leaves of a chain that it visits: an empty one loses its gap. -/
def scanned (c : BufferChain) : BufferChain := if c.off = 0 then { c with misalign := 0 } else c

/-- A chain behind a scan that may have visited it. -/
def Keeps (c d : BufferChain) : Prop := d = c ∨ d = c.scanned

/-- The scan leaves a chain with data as it is. -/
theorem scanned_of_off_ne {c : BufferChain} (h : c.off ≠ 0) : c.scanned = c := if_neg h

/-- The scan closes the gap of a chain without data. -/
theorem scanned_of_off_eq {c : BufferChain} (h : c.off = 0) :
    c.scanned = { c with misalign := 0 } :=
  if_pos h

/-- A chain that is empty has no gap to lose if it has none. -/
theorem scanned_of_aligned {c : BufferChain} (h : c.off = 0 → c.misalign = 0) : c.scanned = c := by
  by_cases hoff : c.off = 0
  · rw [scanned_of_off_eq hoff, ← h hoff]
  · exact scanned_of_off_ne hoff

/-- The scan keeps addresses. -/
@[simp] theorem addr_scanned (c : BufferChain) : c.scanned.addr = c.addr := by
  unfold scanned
  split <;> rfl

/-- The scan keeps what is counted. -/
@[simp] theorem off_scanned (c : BufferChain) : c.scanned.off = c.off := by
  unfold scanned
  split <;> rfl

/-- The scan keeps the data. -/
@[simp] theorem stored_scanned (c : BufferChain) : c.scanned.stored = c.stored := by
  by_cases hoff : c.off = 0
  · rw [stored_of_off_eq_zero hoff, stored_of_off_eq_zero ((off_scanned c).trans hoff)]
  · rw [scanned_of_off_ne hoff]

/-- A scanned chain is within its bounds. -/
theorem Bounded.scanned {c : BufferChain} (hc : c.Bounded) : c.scanned.Bounded := by
  by_cases hoff : c.off = 0
  · rw [scanned_of_off_eq hoff]
    exact ⟨by simp [hoff], hc.pos, hc.size_le⟩
  · rwa [scanned_of_off_ne hoff]

/-- After the scan an empty chain is all room. -/
theorem Bounded.room_scanned {c : BufferChain} (hc : c.Bounded) (hoff : c.off = 0) :
    c.scanned.room = c.bufferSize := by
  have hroom := hc.scanned.room_of_empty (by rw [scanned_of_off_eq hoff]) (by simpa using hoff)
  rw [hroom, scanned_of_off_eq hoff]

/-- A kept chain has the same address. -/
theorem Keeps.addr_eq {c d : BufferChain} (h : c.Keeps d) : d.addr = c.addr := by
  rcases h with rfl | rfl <;> simp

/-- A kept chain has the same data. -/
theorem Keeps.stored_eq {c d : BufferChain} (h : c.Keeps d) : d.stored = c.stored := by
  rcases h with rfl | rfl <;> simp

/-- A kept chain is within its bounds. -/
theorem Keeps.bounded {c d : BufferChain} (h : c.Keeps d) (hc : c.Bounded) : d.Bounded := by
  rcases h with rfl | rfl
  · exact hc
  · exact hc.scanned

end BufferChain

/-- The size of the chain that `createNewBufferChain` allocates. -/
def allocatedSize (n : ℕ) : ℕ := (doubleUntil n 64 kDefaultAllocSize).getD 0

/-- A request of at most `2 ^ 63` bytes gets a chain with at least that room. -/
theorem createNewBufferChain_eq (addr : ℕ) {n : ℕ} (h : n ≤ 2 ^ 63) :
    createNewBufferChain addr n = .ok (.empty addr (allocatedSize n)) ∧ n ≤ allocatedSize n ∧
      (BufferChain.empty addr (allocatedSize n)).Bounded := by
  obtain ⟨size, hends, hle, hbounded⟩ := exists_toalloc h
  have hsize : allocatedSize n = size := by rw [allocatedSize, hends, Option.getD_some]
  rw [hsize]
  exact ⟨createNewBufferChain_of_ends addr hends, hle, hbounded addr⟩

/-- Only requests of at most `2 ^ 63` bytes are served. -/
theorem createNewBufferChain_le {addr n : ℕ} {c : BufferChain}
    (hok : createNewBufferChain addr n = .ok c) : n ≤ 2 ^ 63 := by
  by_contra h
  rw [createNewBufferChain_error addr (Nat.not_le.mp h)] at hok
  cases hok

/-- Every chain that is ever allocated is empty and bounded, and it holds what was asked for. -/
theorem of_createNewBufferChain {addr n : ℕ} {c : BufferChain}
    (hok : createNewBufferChain addr n = .ok c) :
    c = .empty addr (allocatedSize n) ∧ n ≤ allocatedSize n ∧ c.Bounded := by
  obtain ⟨heq, hle, hbounded⟩ := createNewBufferChain_eq addr (createNewBufferChain_le hok)
  obtain rfl := Except.ok.inj (heq.symm.trans hok)
  exact ⟨rfl, hle, hbounded⟩

/-- The free room of the chains of a list. -/
def rooms (chains : List BufferChain) : List ℕ := chains.map BufferChain.room

/-- No chain, no room. -/
@[simp] theorem rooms_nil : rooms [] = [] := rfl

/-- The room of the first chain comes first. -/
@[simp] theorem rooms_cons (c : BufferChain) (chains : List BufferChain) :
    rooms (c :: chains) = c.room :: rooms chains := rfl

/-- Rooms are in the order of the chains. -/
@[simp] theorem rooms_append (l l' : List BufferChain) : rooms (l ++ l') = rooms l ++ rooms l' :=
  List.map_append

/-- A new chain behind the others adds its size. -/
theorem rooms_append_empty {addr size : ℕ} (h : (BufferChain.empty addr size).Bounded)
    (chains : List BufferChain) :
    rooms (chains ++ [.empty addr size]) = rooms chains ++ [size] := by
  rw [rooms_append, rooms_cons, h.room_of_empty rfl rfl]
  rfl

/-- The chains behind a scan: the same blocks with the same data. -/
abbrev KeepsAll : List BufferChain → List BufferChain → Prop := List.Forall₂ BufferChain.Keeps

/-- Chains that are not touched are kept. -/
theorem KeepsAll.refl (chains : List BufferChain) : KeepsAll chains chains :=
  List.forall₂_same.mpr fun _ _ => .inl rfl

/-- Kept chains have their addresses in the same order. -/
theorem KeepsAll.map_addr {chains chains' : List BufferChain} (h : KeepsAll chains chains') :
    chains'.map BufferChain.addr = chains.map BufferChain.addr := by
  induction h with
  | nil => rfl
  | cons hc _ ih => rw [List.map_cons, List.map_cons, hc.addr_eq, ih]

/-- Kept chains hold the same data together. -/
theorem KeepsAll.stored_eq {chains chains' : List BufferChain} (h : KeepsAll chains chains') :
    chains'.flatMap BufferChain.stored = chains.flatMap BufferChain.stored := by
  induction h with
  | nil => rfl
  | cons hc _ ih => rw [List.flatMap_cons, List.flatMap_cons, hc.stored_eq, ih]

/-- Kept chains are within their bounds. -/
theorem KeepsAll.bounded {chains chains' : List BufferChain} (h : KeepsAll chains chains')
    (hb : ∀ c ∈ chains, c.Bounded) : ∀ c ∈ chains', c.Bounded := by
  induction h with
  | nil => exact hb
  | cons hc _ ih =>
    obtain ⟨hhead, htail⟩ := List.forall_mem_cons.mp hb
    exact List.forall_mem_cons.mpr ⟨hc.bounded hhead, ih htail⟩

/-- Nothing changes where no empty chain has a gap. -/
theorem KeepsAll.eq_of_aligned {chains chains' : List BufferChain} (h : KeepsAll chains chains')
    (haligned : ∀ c ∈ chains, c.off = 0 → c.misalign = 0) : chains' = chains := by
  induction h with
  | nil => rfl
  | cons hc _ ih =>
    obtain ⟨hhead, htail⟩ := List.forall_mem_cons.mp haligned
    rw [ih htail]
    rcases hc with rfl | rfl
    · rfl
    · rw [BufferChain.scanned_of_aligned hhead]

namespace Buffer

/-- The list splits at `lastWithData_`, and it leads to a chain unless there is none. -/
structure Splits (b : Buffer) (before rest : List BufferChain) : Prop where
  chains_eq : b.chains = before ++ rest
  link_eq : b.lastWithData = linkAfter .first before
  leads : rest = [] → before = []

/-- Following `lastWithData_` leads to where the chains split. -/
theorem Splits.follow_eq {b : Buffer} {before rest : List BufferChain}
    (hsplit : b.Splits before rest) (hb : (b.chains.map BufferChain.addr).Nodup) :
    b.follow b.lastWithData = .ok (before, rest) := by
  rw [hsplit.link_eq]
  exact follow_linkAfter hb hsplit.chains_eq

/-- The buffer with an empty chain of a size linked at the end. -/
def withChain (b : Buffer) (size : ℕ) : Buffer :=
  { b with
    chains := b.chains ++ [.empty b.fresh size], last := some b.fresh, fresh := b.fresh + 1 }

/-- A chain put behind the others belongs to the second part. -/
theorem Splits.withChain {b : Buffer} {before rest : List BufferChain}
    (hsplit : b.Splits before rest) (size : ℕ) :
    (b.withChain size).Splits before (rest ++ [.empty b.fresh size]) where
  chains_eq := by rw [Buffer.withChain, hsplit.chains_eq, List.append_assoc]
  link_eq := hsplit.link_eq
  leads := by simp

/-- A new chain adds no data. -/
@[simp] theorem stored_withChain (b : Buffer) (size : ℕ) :
    (b.withChain size).stored = b.stored := by
  simp [withChain, stored, BufferChain.stored]

/-! ## The scan -/

/-- One chain of the scan. The chain is counted in `used` only if it has a free byte, so
`used` stays below `avail`, and neither sum wraps while `avail` is below `n`. -/
theorem expandLoop_cons {n : ℕ} (hn : n ≤ 2 ^ 63) {c : BufferChain} (hc : c.Bounded)
    (next : List BufferChain) {avail used : ℕ} (havail : avail < n) (hused : used ≤ avail) :
    ∃ used' ≤ avail + c.scanned.room, expandLoop n (c :: next) avail used =
      if n ≤ avail + c.scanned.room then (c.scanned :: next, none)
      else if used' = n then (c.scanned :: next, some (avail + c.scanned.room, used'))
      else (c.scanned :: (expandLoop n next (avail + c.scanned.room) used').1,
        (expandLoop n next (avail + c.scanned.room) used').2) := by
  have hsize := hc.size_le
  have hpos := hc.pos
  by_cases hoff : c.off = 0
  · rw [hc.room_scanned hoff, BufferChain.scanned_of_off_eq hoff]
    refine ⟨used + 1, by omega, ?_⟩
    rw [expandLoop, if_neg (by simpa using hoff), sizeAdd_of_lt (by omega),
      sizeAdd_of_lt (by omega)]
  · rw [BufferChain.scanned_of_off_ne hoff]
    have hle : c.room ≤ c.bufferSize := by
      rw [hc.room_eq]
      omega
    by_cases hroom : c.room = 0
    · refine ⟨used, by omega, ?_⟩
      rw [expandLoop, if_pos hoff, hc.chainSpace_eq, hroom, if_neg (by simp), Nat.add_zero]
    · refine ⟨used + 1, by omega, ?_⟩
      rw [expandLoop, if_pos hoff, hc.chainSpace_eq, if_pos hroom,
        sizeAdd_of_lt (by omega), sizeAdd_of_lt (by omega)]

/-- The scan finds the room, or meets the end of the list with `used` below `n`. -/
theorem expandLoop_spec {n : ℕ} (hn : n ≤ 2 ^ 63) {chains : List BufferChain}
    (hb : ∀ c ∈ chains, c.Bounded) {avail used : ℕ} (havail : avail < n) (hused : used ≤ avail) :
    ∃ chains', KeepsAll chains chains' ∧
      ((expandLoop n chains avail used = (chains', none) ∧ n ≤ avail + (rooms chains').sum) ∨
      ∃ used', expandLoop n chains avail used =
          (chains', some (avail + (rooms chains').sum, used')) ∧
        used' ≤ avail + (rooms chains').sum ∧ avail + (rooms chains').sum < n) := by
  induction chains generalizing avail used with
  | nil =>
    exact ⟨[], .nil, .inr ⟨used, by simp [expandLoop], by simpa using hused, by simpa using havail⟩⟩
  | cons c next ih =>
    obtain ⟨hc, hnext⟩ := List.forall_mem_cons.mp hb
    obtain ⟨used', hle, hstep⟩ := expandLoop_cons hn hc next havail hused
    rw [hstep]
    by_cases hdone : n ≤ avail + c.scanned.room
    · refine ⟨c.scanned :: next, .cons (.inr rfl) (KeepsAll.refl next), .inl ⟨if_pos hdone, ?_⟩⟩
      rw [rooms_cons, List.sum_cons]
      omega
    · rw [if_neg hdone, if_neg (by omega)]
      obtain ⟨next', hkeeps, hscan⟩ := ih hnext (Nat.not_le.mp hdone) hle
      refine ⟨c.scanned :: next', .cons (.inr rfl) hkeeps, ?_⟩
      rw [rooms_cons, List.sum_cons, ← Nat.add_assoc]
      rcases hscan with ⟨heq, hroom⟩ | ⟨used'', heq, hle', hlt⟩
      · exact .inl ⟨by rw [heq], hroom⟩
      · exact .inr ⟨used'', by rw [heq], hle', hlt⟩

/-- A request of nothing is met by the first chain. -/
theorem expandLoop_zero (c : BufferChain) (next : List BufferChain) :
    expandLoop 0 (c :: next) 0 0 = (c.scanned :: next, none) := by
  by_cases hoff : c.off = 0
  · rw [expandLoop, if_neg (by simpa using hoff), BufferChain.scanned_of_off_eq hoff]
    exact if_pos (Nat.zero_le _)
  · rw [expandLoop, if_pos hoff, BufferChain.scanned_of_off_ne hoff]
    by_cases hroom : c.chainSpace = 0
    · rw [if_neg (by simpa using hroom)]
      exact if_pos (Nat.zero_le _)
    · rw [if_pos hroom]
      exact if_pos (Nat.zero_le _)

/-! ## The room behind the scan -/

/-- What `bufferExpandFast` is promised of the list: `last_` is its end, and `lastWithData_`
is a link of it that leads to a chain unless there is none. -/
structure Expandable (b : Buffer) : Prop where
  distinct : (b.chains.map BufferChain.addr).Nodup
  allocated : ∀ c ∈ b.chains, c.addr < b.fresh
  bounded : ∀ c ∈ b.chains, c.Bounded
  last_eq : b.last = b.chains.getLast?.map BufferChain.addr
  link : ∃ before rest, b.Splits before rest

/-- `bufferExpandFast` stops if the chains from `*lastWithData_` on have room for `n` bytes,
and else links a chain for the bytes that lack room at the end. -/
theorem Expandable.bufferExpandFast_eq {b : Buffer} (hb : b.Expandable)
    {before rest : List BufferChain} (hsplit : b.Splits before rest) {n : ℕ} (hn : n ≤ 2 ^ 63) :
    ∃ rest', KeepsAll rest rest' ∧
      ((b.bufferExpandFast n = .ok { b with chains := before ++ rest' } ∧ rest ≠ [] ∧
          n ≤ (rooms rest').sum) ∨
        (b.bufferExpandFast n = .ok ({ b with chains := before ++ rest' }.withChain
            (allocatedSize (n - (rooms rest').sum))) ∧
          (rest = [] ∨ (rooms rest').sum < n))) := by
  have hfollow := hsplit.follow_eq hb.distinct
  have hrest : ∀ c ∈ rest, c.Bounded := fun c hc => hb.bounded c (by simp [hsplit.chains_eq, hc])
  cases rest with
  | nil =>
    obtain rfl := hsplit.leads rfl
    have hchains : b.chains = [] := hsplit.chains_eq
    have hlink : b.lastWithData = .first := hsplit.link_eq
    have hlast : b.last = none := by rw [hb.last_eq, hchains]; rfl
    obtain ⟨hnew, -, -⟩ := createNewBufferChain_eq b.fresh hn
    have hinsert := bufferInsertChain_ok (b := { b with fresh := b.fresh + 1 })
      (c := BufferChain.empty b.fresh (allocatedSize n)) hlink (by simp [hchains]) rfl
    refine ⟨[], .nil, .inr ⟨?_, .inl rfl⟩⟩
    rw [bufferExpandFast, if_pos hlast, hnew, ok_bind, hinsert, hchains]
    rfl
  | cons c next =>
    have hlast : b.last ≠ none := by
      rw [hb.last_eq, hsplit.chains_eq]
      simp
    rcases Nat.eq_zero_or_pos n with rfl | hpos
    · refine ⟨c.scanned :: next, .cons (.inr rfl) (KeepsAll.refl next),
        .inl ⟨?_, by simp, Nat.zero_le _⟩⟩
      rw [bufferExpandFast, if_neg hlast, hfollow, ok_bind]
      simp only [expandLoop_zero, pure_eq_ok]
    · obtain ⟨rest', hkeeps, hscan⟩ := expandLoop_spec hn hrest hpos le_rfl
      refine ⟨rest', hkeeps, ?_⟩
      rw [bufferExpandFast, if_neg hlast, hfollow, ok_bind]
      rcases hscan with ⟨heq, hroom⟩ | ⟨used, heq, hused, hroom⟩
      · refine .inl ⟨?_, by simp, by rwa [Nat.zero_add] at hroom⟩
        simp only [heq, pure_eq_ok]
      · rw [Nat.zero_add] at heq hroom hused
        have hlack : n - (rooms rest').sum ≤ 2 ^ 63 := by omega
        obtain ⟨hnew, -, -⟩ := createNewBufferChain_eq b.fresh hlack
        refine .inr ⟨?_, .inr hroom⟩
        simp only [heq, sizeSub_of_le hroom.le, if_pos (show used < n by omega), hnew,
          ok_bind, pure_eq_ok, Buffer.withChain, BufferChain.addr_empty]

/-- What an expansion for `n` bytes has done: the chains are the old ones with their data,
and at most one behind them, and those from `*lastWithData_` on have room for `n` bytes. -/
structure Expanded (b b' : Buffer) (n : ℕ) : Prop where
  expandable : b'.Expandable
  stored_eq : b'.stored = b.stored
  total_eq : b'.totalSize = b.totalSize
  chains_eq : ∃ kept, KeepsAll b.chains kept ∧
    (b'.chains = kept ∨ ∃ newChain, b'.chains = kept ++ [newChain])
  has_room : ∃ before rest, b'.follow b'.lastWithData = .ok (before, rest) ∧ n ≤ (rooms rest).sum

/-- Whenever the scan ends without the room, it has counted fewer than `n` chains, so the
branch that deletes chains is not entered. -/
def NeverDeletes (b : Buffer) (n : ℕ) : Prop :=
  ∀ before rest chains avail used, b.last ≠ none →
    b.follow b.lastWithData = .ok (before, rest) →
    expandLoop n rest 0 0 = (chains, some (avail, used)) → avail < n ∧ used < n

/-- A change of the chains that keeps their addresses. -/
theorem Expandable.setChains {b : Buffer} (hb : b.Expandable) {chains : List BufferChain}
    (haddr : chains.map BufferChain.addr = b.chains.map BufferChain.addr)
    (hbounded : ∀ c ∈ chains, c.Bounded) {slot : Slot} {totalSize : ℕ}
    (hlink : ∃ before rest, Splits { b with chains, lastWithData := slot, totalSize } before rest) :
    Expandable { b with chains, lastWithData := slot, totalSize } where
  distinct := haddr ▸ hb.distinct
  allocated := addr_lt_of_map_eq haddr hb.allocated
  bounded := hbounded
  last_eq := by rw [hb.last_eq, ← List.getLast?_map, ← List.getLast?_map, haddr]
  link := hlink

/-- A new chain at the end of the list. -/
theorem Expandable.snoc {b : Buffer} (hb : b.Expandable) {c : BufferChain}
    (haddr : c.addr = b.fresh)
    (hbounded : c.Bounded) (totalSize : ℕ) :
    Expandable { b with
      chains := b.chains ++ [c], last := some c.addr, totalSize, fresh := b.fresh + 1 } where
  distinct := nodup_addr_concat hb.distinct hb.allocated haddr
  allocated := addr_lt_concat hb.allocated haddr
  bounded := List.forall_mem_append.mpr ⟨hb.bounded, List.forall_mem_singleton.mpr hbounded⟩
  last_eq := by simp
  link := by
    obtain ⟨before, rest, hsplit⟩ := hb.link
    refine ⟨before, rest ++ [c], ?_, hsplit.link_eq, by simp⟩
    rw [hsplit.chains_eq, List.append_assoc]

/-- A buffer takes a new chain and can be expanded again. -/
theorem Expandable.withChain {b : Buffer} (hb : b.Expandable) {size : ℕ}
    (hsize : (BufferChain.empty b.fresh size).Bounded) : (b.withChain size).Expandable :=
  hb.snoc (BufferChain.addr_empty ..) hsize b.totalSize

/-- A scan that visits the chains from `*lastWithData_` on. -/
theorem Expandable.scanned {b : Buffer} (hb : b.Expandable) {before rest : List BufferChain}
    (hsplit : b.Splits before rest) {rest' : List BufferChain} (hkeeps : KeepsAll rest rest') :
    Expandable { b with chains := before ++ rest' } ∧
      Splits { b with chains := before ++ rest' } before rest' := by
  have haddr : (before ++ rest').map BufferChain.addr = b.chains.map BufferChain.addr := by
    rw [hsplit.chains_eq, List.map_append, List.map_append, hkeeps.map_addr]
  have hsplit' : Splits { b with chains := before ++ rest' } before rest' := by
    refine ⟨rfl, hsplit.link_eq, fun hnil => hsplit.leads ?_⟩
    rw [← List.length_eq_zero_iff, hkeeps.length_eq, hnil, List.length_nil]
  have hbounded := hb.bounded
  rw [hsplit.chains_eq, List.forall_mem_append] at hbounded
  refine ⟨hb.setChains haddr ?_ ⟨_, _, hsplit'⟩, hsplit'⟩
  exact List.forall_mem_append.mpr ⟨hbounded.1, hkeeps.bounded hbounded.2⟩

/-- The scan never gets to the branch that deletes chains. -/
theorem Expandable.neverDeletes {b : Buffer} (hb : b.Expandable) {n : ℕ} (hn : n ≤ 2 ^ 63) :
    b.NeverDeletes n := by
  intro before rest chains avail used hlast hfollow hscan
  obtain ⟨before', rest', hsplit⟩ := hb.link
  rw [hsplit.follow_eq hb.distinct] at hfollow
  obtain ⟨rfl, rfl⟩ := Prod.mk.inj (Except.ok.inj hfollow)
  have hrest : ∀ c ∈ rest', c.Bounded := fun c hc => hb.bounded c (by simp [hsplit.chains_eq, hc])
  rcases Nat.eq_zero_or_pos n with rfl | hpos
  · -- the first chain suffices for nothing
    cases rest' with
    | nil =>
      obtain rfl := hsplit.leads rfl
      rw [hb.last_eq, hsplit.chains_eq] at hlast
      exact absurd rfl hlast
    | cons c next =>
      rw [expandLoop_zero] at hscan
      cases hscan
  · obtain ⟨chains', -, ⟨heq, -⟩ | ⟨used', heq, hused, hlt⟩⟩ := expandLoop_spec hn hrest hpos le_rfl
    · rw [heq] at hscan
      cases hscan
    · rw [heq] at hscan
      cases hscan
      exact ⟨hlt, by omega⟩

/-- `bufferExpandFast` reserves room for `n` bytes and touches no data. -/
theorem bufferExpandFast_reserves {b : Buffer} (hb : b.Expandable) {n : ℕ} (hn : n < 2 ^ 63) :
    (∃ b', b.bufferExpandFast n = .ok b' ∧ b.Expanded b' n) ∧ b.NeverDeletes n := by
  refine ⟨?_, hb.neverDeletes hn.le⟩
  obtain ⟨before, rest, hsplit⟩ := hb.link
  obtain ⟨rest', hkeeps, hscan⟩ := hb.bufferExpandFast_eq hsplit hn.le
  obtain ⟨hscanned, hsplit'⟩ := hb.scanned hsplit hkeeps
  have hall : KeepsAll b.chains (before ++ rest') := by
    rw [hsplit.chains_eq]
    exact List.rel_append (KeepsAll.refl before) hkeeps
  have hstored : ({ b with chains := before ++ rest' } : Buffer).stored = b.stored := hall.stored_eq
  rcases hscan with ⟨hok, -, hroom⟩ | ⟨hok, -⟩
  · exact ⟨_, hok, hscanned, hstored, rfl, ⟨_, hall, .inl rfl⟩,
      before, rest', hsplit'.follow_eq hscanned.distinct, hroom⟩
  · have hlack : n - (rooms rest').sum ≤ 2 ^ 63 := by omega
    obtain ⟨-, hle, hbounded⟩ := createNewBufferChain_eq b.fresh hlack
    have hnext := hscanned.withChain hbounded
    refine ⟨_, hok, hnext, by rw [stored_withChain, hstored], rfl, ⟨_, hall, .inr ⟨_, rfl⟩⟩,
      before, _, (hsplit'.withChain _).follow_eq hnext.distinct, ?_⟩
    rw [rooms_append_empty hbounded, List.sum_append, List.sum_singleton]
    omega

/-- A full chain, one with room, and an empty one that drains have left a gap in. -/
def mixedBuffer : Buffer :=
  { chains := [
      { addr := 0, bufferSize := 512, misalign := 0, off := 512, buffer := fun _ => some 7 },
      { addr := 1, bufferSize := 512, misalign := 12, off := 100, buffer := fun _ => some 7 },
      { addr := 2, bufferSize := 512, misalign := 9, off := 0, buffer := fun _ => none }]
    last := some 2
    lastWithData := .next 0
    totalSize := 612
    fresh := 3 }

/-- A buffer with all kinds of chains gets the room that it is asked for. -/
theorem mixedBuffer_reserves :
    (∃ b', mixedBuffer.bufferExpandFast 1000 = .ok b' ∧ mixedBuffer.Expanded b' 1000) ∧
      mixedBuffer.NeverDeletes 1000 := by
  refine bufferExpandFast_reserves ⟨by decide, by decide, ?_, rfl, ?_⟩ (by norm_num)
  · intro c hc
    simp only [mixedBuffer, List.mem_cons, List.not_mem_nil, or_false] at hc
    rcases hc with rfl | rfl | rfl <;> exact ⟨by decide, by decide, by norm_num⟩
  · exact ⟨mixedBuffer.chains.take 1, mixedBuffer.chains.drop 1, rfl, rfl, by simp [mixedBuffer]⟩

end Buffer

end Reactor
