import Mathlib.Data.List.Sort

/-!
# Ordered sets

A set of a linear order kept as its strictly increasing list, with the operations of an
ordered container: insertion, removal, the first element, and the cut of the set below a
bound.
-/

/-- A finite set as the increasing list of its elements. -/
structure OrderedSet (α : Type*) [LinearOrder α] where
  toList : List α
  sorted : toList.Pairwise (· < ·)

namespace OrderedSet

variable {α : Type*} [LinearOrder α] {s : OrderedSet α} {a b x : α}

instance : Membership α (OrderedSet α) := ⟨fun s a => a ∈ s.toList⟩

instance : Decidable (a ∈ s) := inferInstanceAs (Decidable (a ∈ s.toList))

/-- No element occurs twice. -/
theorem nodup (s : OrderedSet α) : s.toList.Nodup := s.sorted.imp ne_of_lt

/-- The empty set. -/
protected def empty : OrderedSet α := ⟨[], .nil⟩

instance : EmptyCollection (OrderedSet α) := ⟨OrderedSet.empty⟩

/-- The empty set has no elements. -/
@[simp] theorem notMem_empty : a ∉ (∅ : OrderedSet α) := List.not_mem_nil

/-- A list without duplicates that is ordered is strictly ordered. -/
theorem pairwise_lt {l : List α} (h : l.Pairwise (· ≤ ·)) (hnodup : l.Nodup) :
    l.Pairwise (· < ·) :=
  h.imp₂ (fun _ _ hle hne => lt_of_le_of_ne hle hne) hnodup

/-- Insertion, which keeps an element that is present. -/
def insert (s : OrderedSet α) (a : α) : OrderedSet α :=
  if h : a ∈ s then s
  else ⟨s.toList.orderedInsert (· ≤ ·) a, pairwise_lt
    ((s.sorted.imp le_of_lt).orderedInsert _ _)
    ((List.perm_orderedInsert _ a s.toList).nodup_iff.mpr (List.nodup_cons.mpr ⟨h, s.nodup⟩))⟩

/-- The elements after an insertion. -/
@[simp] theorem mem_insert : b ∈ s.insert a ↔ b = a ∨ b ∈ s := by
  rw [insert]
  split
  · next h =>
    constructor
    · exact .inr
    · rintro (rfl | hb)
      · exact h
      · exact hb
  · exact List.mem_orderedInsert _

/-- Removal. -/
def erase (s : OrderedSet α) (a : α) : OrderedSet α :=
  ⟨s.toList.erase a, s.sorted.sublist List.erase_sublist⟩

/-- The elements after an erasure. -/
@[simp] theorem mem_erase : b ∈ s.erase a ↔ b ≠ a ∧ b ∈ s := s.nodup.mem_erase_iff

/-- The first element. -/
def first? (s : OrderedSet α) : Option α := s.toList.head?

/-- The first element is one of the set. -/
theorem first?_mem (h : s.first? = some a) : a ∈ s := List.mem_of_head? h

/-- The first element is the least one. -/
theorem first?_le (h : s.first? = some a) (hb : b ∈ s) : a ≤ b := by
  obtain ⟨l, hl⟩ := List.head?_eq_some_iff.mp h
  have hsorted := s.sorted
  rw [hl, List.pairwise_cons] at hsorted
  have hb' : b ∈ a :: l := hl ▸ hb
  rcases List.mem_cons.mp hb' with rfl | hb'
  · exact le_refl _
  · exact (hsorted.1 b hb').le

/-- Only the empty set has no first element. -/
theorem first?_eq_none : s.first? = none ↔ ∀ a, a ∉ s := by
  rw [first?, List.head?_eq_none_iff, List.eq_nil_iff_forall_not_mem]
  exact Iff.rfl

/-- The elements before the lower bound of `x`. -/
def below (s : OrderedSet α) (x : α) : List α := s.toList.takeWhile (· < x)

/-- The set without the elements before the lower bound of `x`. -/
def dropBelow (s : OrderedSet α) (x : α) : OrderedSet α :=
  ⟨s.toList.dropWhile (· < x), s.sorted.sublist (List.dropWhile_sublist _)⟩

/-- What is below is in order. -/
theorem below_sorted (s : OrderedSet α) (x : α) : (s.below x).Pairwise (· < ·) :=
  s.sorted.sublist (List.takeWhile_sublist _)

/-- The cut of an increasing list. -/
theorem mem_cut {l : List α} (h : l.Pairwise (· < ·)) :
    (a ∈ l.takeWhile (· < x) ↔ a ∈ l ∧ a < x) ∧ (a ∈ l.dropWhile (· < x) ↔ a ∈ l ∧ x ≤ a) := by
  induction l with
  | nil => simp
  | cons b l ih =>
    obtain ⟨hb, hl⟩ := List.pairwise_cons.mp h
    by_cases hbx : b < x
    · simp only [List.takeWhile_cons, List.dropWhile_cons, hbx, decide_true, if_true,
        List.mem_cons, ih hl]
      grind
    · have hge : ∀ c ∈ l, ¬ c < x := fun c hc hcx => hbx ((hb c hc).trans hcx)
      simp only [List.takeWhile_cons, List.dropWhile_cons, hbx, decide_false,
        Bool.false_eq_true, if_false, List.mem_cons]
      grind

/-- The elements below `x`. -/
@[simp] theorem mem_below : a ∈ s.below x ↔ a ∈ s ∧ a < x := (mem_cut s.sorted).1

/-- The elements that are left from `x` on. -/
@[simp] theorem mem_dropBelow : a ∈ s.dropBelow x ↔ a ∈ s ∧ x ≤ a := (mem_cut s.sorted).2

end OrderedSet
