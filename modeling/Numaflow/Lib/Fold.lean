import Mathlib

/-!
# Smallest and largest elements by folding

A loop that keeps the smallest or the largest element it has seen, starting from a given
bound.

Main results: `le_foldl_min`, `foldl_max_le`, `foldl_min_eq_foldl_max_iff`.
-/

namespace Numaflow.Lib

variable {α : Type} [LinearOrder α] {l : List α} {a b v : α}

open List

/-- What is below the smallest element. -/
theorem le_foldl_min : v ≤ l.foldl min a ↔ v ≤ a ∧ ∀ x ∈ l, v ≤ x := by
  induction l generalizing a with
  | nil => simp
  | cons x l ih => rw [foldl_cons, ih, le_min_iff, forall_mem_cons, and_assoc]

/-- What is above the largest element. -/
theorem foldl_max_le : l.foldl max a ≤ v ↔ a ≤ v ∧ ∀ x ∈ l, x ≤ v := by
  induction l generalizing a with
  | nil => simp
  | cons x l ih => rw [foldl_cons, ih, max_le_iff, forall_mem_cons, and_assoc]

variable {x : α}

theorem foldl_min_le_of_mem (hx : x ∈ l) : l.foldl min a ≤ x :=
  (le_foldl_min.mp (le_refl (l.foldl min a))).2 x hx

theorem le_foldl_max_of_mem (hx : x ∈ l) : x ≤ l.foldl max a :=
  (foldl_max_le.mp (le_refl (l.foldl max a))).2 x hx

theorem foldl_max_mem_cons : l.foldl max a ∈ a :: l := by
  induction l generalizing a with
  | nil => exact mem_cons_self
  | cons x l ih =>
    rw [foldl_cons]
    rcases mem_cons.mp (ih (a := max a x)) with heq | hmem
    · rcases max_choice a x with hmax | hmax
      · rw [heq, hmax]
        exact mem_cons_self
      · rw [heq, hmax]
        exact mem_cons_of_mem _ mem_cons_self
    · exact mem_cons_of_mem _ (mem_cons_of_mem _ hmem)

/-- The largest element is one of the elements, when the start is below them. -/
theorem foldl_max_mem (hne : l ≠ []) (hlower : ∀ x ∈ l, a ≤ x) : l.foldl max a ∈ l := by
  rcases mem_cons.mp (foldl_max_mem_cons (l := l) (a := a)) with heq | hmem
  · obtain ⟨x, hx⟩ := exists_mem_of_ne_nil l hne
    have hxa := le_antisymm (heq ▸ le_foldl_max_of_mem hx) (hlower x hx)
    rw [heq, ← hxa]
    exact hx
  · exact hmem

/-- The largest element does not depend on the order. -/
theorem foldl_max_congr {l' : List α} (h : ∀ x, x ∈ l ↔ x ∈ l') :
    l.foldl max a = l'.foldl max a := by
  refine eq_of_forall_ge_iff fun v => ?_
  rw [foldl_max_le, foldl_max_le]
  simp only [h]

/-- The largest of equal elements. -/
theorem foldl_max_of_forall_eq (hne : l ≠ []) (hb : ∀ x ∈ l, x = v) (ha : a ≤ v) :
    l.foldl max a = v := by
  obtain ⟨x, hx⟩ := exists_mem_of_ne_nil l hne
  refine le_antisymm (foldl_max_le.mpr ⟨ha, fun y hy => (hb y hy).le⟩) ?_
  exact hb x hx ▸ le_foldl_max_of_mem hx

/-- Within the bounds, the smallest and the largest element are the same exactly when all
elements are. -/
theorem foldl_min_eq_foldl_max_iff (hne : l ≠ []) (hupper : ∀ x ∈ l, x ≤ a)
    (hlower : ∀ x ∈ l, b ≤ x) : l.foldl min a = l.foldl max b ↔ ∃ k, ∀ x ∈ l, x = k := by
  constructor
  · intro heq
    refine ⟨l.foldl max b, fun x hx => le_antisymm (le_foldl_max_of_mem hx) ?_⟩
    exact heq ▸ foldl_min_le_of_mem hx
  · rintro ⟨k, hk⟩
    obtain ⟨x, hx⟩ := exists_mem_of_ne_nil l hne
    have hxk := hk x hx
    rw [foldl_max_of_forall_eq hne hk (hxk ▸ hlower x hx)]
    refine le_antisymm (hxk ▸ foldl_min_le_of_mem hx) ?_
    exact le_foldl_min.mpr ⟨hxk ▸ hupper x hx, fun y hy => (hk y hy).ge⟩

end Numaflow.Lib
