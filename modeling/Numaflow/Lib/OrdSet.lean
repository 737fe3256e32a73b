import Mathlib

/-!
# Sets ordered by a key

A balanced-tree set compares its elements with an ordering that may look at a
part of the element only.  Two elements with equal keys are then one element of
the set: inserting the second leaves the first in place, and removing either
removes whichever is stored.  This file models such a set by its sorted list of
elements, so that an unsorted or key-colliding set cannot be built.

Main results: `OrdSet.mem_insert`, `OrdSet.mem_remove`, `OrdSet.first_le`.
-/

namespace Numaflow.Lib

variable {α β : Type} [LinearOrder β]

/-- A set of elements kept in strictly ascending order of `key`. -/
structure OrdSet (key : α → β) where
  toList : List α
  sorted : toList.Pairwise (fun a b => key a < key b)

open List

namespace OrdSet

variable {key : α → β}

instance : Membership α (OrdSet key) := ⟨fun s a => a ∈ s.toList⟩

variable {s : OrdSet key} {a b x : α} {l : List α}

@[simp]
theorem mem_toList : a ∈ s.toList ↔ a ∈ s :=
  Iff.rfl

instance [DecidableEq α] (a : α) (s : OrdSet key) : Decidable (a ∈ s) :=
  inferInstanceAs (Decidable (a ∈ s.toList))

/-- The set without elements. -/
def empty : OrdSet key := ⟨[], List.Pairwise.nil⟩

@[simp]
theorem not_mem_empty (a : α) : a ∉ (empty : OrdSet key) := by
  simp [← mem_toList, empty]

/-- Two stored elements with equal keys are the same element. -/
theorem eq_of_key_eq (ha : a ∈ s) (hb : b ∈ s) (hkey : key a = key b) : a = b := by
  obtain ⟨l, hl⟩ := s
  change a ∈ l at ha
  change b ∈ l at hb
  induction l with
  | nil => simp at ha
  | cons x l ih =>
    rw [pairwise_cons] at hl
    rcases mem_cons.mp ha with rfl | ha'
    · rcases mem_cons.mp hb with rfl | hb'
      · rfl
      · exact absurd hkey (hl.1 b hb').ne
    · rcases mem_cons.mp hb with rfl | hb'
      · exact absurd hkey.symm (hl.1 a ha').ne
      · exact ih hl.2 ha' hb'

/-! ## Insertion -/

/-- Insert into a sorted list; an element with an equal key stays in place. -/
def insertList (key : α → β) (a : α) : List α → List α
  | [] => [a]
  | b :: l =>
    if key a < key b then a :: b :: l
    else if key a = key b then b :: l
    else b :: insertList key a l

/-- An element is inserted unless there is one with its key. -/
theorem mem_insertList (hl : l.Pairwise (fun a b => key a < key b)) :
    x ∈ insertList key a l ↔ x ∈ l ∨ (x = a ∧ ∀ b ∈ l, key b ≠ key a) := by
  induction l with
  | nil => simp [insertList]
  | cons b l ih =>
    rw [pairwise_cons] at hl
    unfold insertList
    split_ifs with hlt heq
    · have hall : ∀ c ∈ b :: l, key c ≠ key a := by
        intro c hc
        rcases mem_cons.mp hc with rfl | hc
        · exact hlt.ne'
        · exact (hlt.trans (hl.1 c hc)).ne'
      constructor
      · intro hx
        rcases mem_cons.mp hx with rfl | hx
        · exact .inr ⟨rfl, hall⟩
        · exact .inl hx
      · rintro (hx | ⟨rfl, -⟩)
        · exact mem_cons_of_mem a hx
        · exact mem_cons_self
    · constructor
      · exact .inl
      · rintro (hx | ⟨-, hne⟩)
        · exact hx
        · exact absurd heq.symm (hne b mem_cons_self)
    · rw [mem_cons, ih hl.2, mem_cons]
      constructor
      · rintro (rfl | hx | ⟨rfl, hne⟩)
        · exact .inl (.inl rfl)
        · exact .inl (.inr hx)
        · refine .inr ⟨rfl, ?_⟩
          intro c hc
          rcases mem_cons.mp hc with rfl | hc
          · exact fun h => heq h.symm
          · exact hne c hc
      · rintro ((rfl | hx) | ⟨rfl, hne⟩)
        · exact .inl rfl
        · exact .inr (.inl hx)
        · exact .inr (.inr ⟨rfl, fun c hc => hne c (mem_cons_of_mem b hc)⟩)

theorem pairwise_insertList (hl : l.Pairwise (fun a b => key a < key b)) :
    (insertList key a l).Pairwise (fun a b => key a < key b) := by
  induction l with
  | nil => simp [insertList]
  | cons b l ih =>
    have hl' := pairwise_cons.mp hl
    unfold insertList
    split_ifs with hlt heq
    · refine pairwise_cons.mpr ⟨?_, hl⟩
      intro c hc
      rcases mem_cons.mp hc with rfl | hc
      · exact hlt
      · exact hlt.trans (hl'.1 c hc)
    · exact hl
    · refine pairwise_cons.mpr ⟨?_, ih hl'.2⟩
      intro c hc
      rcases (mem_insertList hl'.2).mp hc with hc | ⟨rfl, -⟩
      · exact hl'.1 c hc
      · exact lt_of_le_of_ne (not_lt.mp hlt) (Ne.symm heq)

/-- Insert an element.  A stored element with an equal key is not replaced. -/
def insert (s : OrdSet key) (a : α) : OrdSet key :=
  ⟨insertList key a s.toList, pairwise_insertList s.sorted⟩

/-- Insertion adds the element exactly when no stored element has its key. -/
theorem mem_insert : x ∈ s.insert a ↔ x ∈ s ∨ (x = a ∧ ∀ b ∈ s, key b ≠ key a) :=
  mem_insertList s.sorted

/-- An element whose key is not stored yet is added. -/
theorem mem_insert_new (hnew : ∀ b ∈ s, key b ≠ key a) : x ∈ s.insert a ↔ x = a ∨ x ∈ s := by
  rw [mem_insert]
  constructor
  · intro hx
    rcases hx with hx | ⟨hx, -⟩
    · exact .inr hx
    · exact .inl hx
  · intro hx
    rcases hx with hx | hx
    · exact .inr ⟨hx, hnew⟩
    · exact .inl hx

/-- Some stored element carries the key of an inserted element. -/
theorem exists_key_insert (s : OrdSet key) (a : α) : ∃ b ∈ s.insert a, key b = key a := by
  by_cases h : ∃ b ∈ s, key b = key a
  · obtain ⟨b, hb, hkey⟩ := h
    exact ⟨b, mem_insert.mpr (.inl hb), hkey⟩
  · refine ⟨a, mem_insert.mpr (.inr ⟨rfl, ?_⟩), rfl⟩
    intro b hb hkey
    exact h ⟨b, hb, hkey⟩

/-- Insert every element of a list, from left to right. -/
def extend (s : OrdSet key) (l : List α) : OrdSet key :=
  l.foldl insert s

@[simp]
theorem extend_cons (s : OrdSet key) (a : α) (l : List α) :
    s.extend (a :: l) = (s.insert a).extend l :=
  rfl

theorem mem_of_mem_extend (hx : x ∈ s.extend l) : x ∈ s ∨ x ∈ l := by
  induction l generalizing s with
  | nil => exact .inl hx
  | cons a l ih =>
    rcases ih hx with h | h
    · rcases mem_insert.mp h with h | ⟨h, -⟩
      · exact .inl h
      · exact .inr (h ▸ mem_cons_self)
    · exact .inr (mem_cons_of_mem a h)

theorem mem_extend_of_mem (hx : x ∈ s) : x ∈ s.extend l := by
  induction l generalizing s with
  | nil => exact hx
  | cons a l ih => exact ih (mem_insert.mpr (.inl hx))

/-- Some stored element carries the key of every inserted element. -/
theorem exists_key_extend (ha : a ∈ l) : ∃ b ∈ s.extend l, key b = key a := by
  induction l generalizing s with
  | nil => exact absurd ha not_mem_nil
  | cons c l ih =>
    rcases mem_cons.mp ha with rfl | ha
    · rcases exists_key_insert s a with ⟨b, hb, hkey⟩
      rw [extend_cons]
      exact ⟨b, mem_extend_of_mem hb, hkey⟩
    · exact ih ha

/-! ## Removal and selection -/

/-- Remove the stored element with the key of `a`, if there is one. -/
def remove (s : OrdSet key) (a : α) : OrdSet key :=
  ⟨s.toList.filter (fun b => key b ≠ key a), s.sorted.filter _⟩

/-- Removal drops exactly the stored element with the given key. -/
@[simp]
theorem mem_remove : x ∈ s.remove a ↔ x ∈ s ∧ key x ≠ key a := by
  simp [← mem_toList, remove]

/-- A stored element is exchanged for one whose key no other element has. -/
theorem mem_exchange (ha : a ∈ s) (hnew : ∀ c ∈ s, c ≠ a → key c ≠ key b) :
    x ∈ (s.remove a).insert b ↔ x = b ∨ (x ∈ s ∧ x ≠ a) := by
  have hremove : ∀ c, c ∈ s.remove a ↔ c ∈ s ∧ c ≠ a := by
    intro c
    rw [mem_remove]
    constructor
    · intro hc
      exact ⟨hc.1, fun heq => hc.2 (congrArg key heq)⟩
    · intro hc
      exact ⟨hc.1, fun heq => hc.2 (eq_of_key_eq hc.1 ha heq)⟩
  rw [mem_insert_new, hremove]
  intro c hc
  rcases (hremove c).mp hc with ⟨hc, hne⟩
  exact hnew c hc hne

/-- Whether an element with the key of `a` is stored. -/
def contains (s : OrdSet key) (a : α) : Bool :=
  s.toList.any (fun b => key b = key a)

@[simp]
theorem contains_iff : s.contains a = true ↔ ∃ b ∈ s, key b = key a := by
  simp [← mem_toList, contains]

/-- Keep the elements that satisfy a predicate. -/
def filter (s : OrdSet key) (p : α → Bool) : OrdSet key :=
  ⟨s.toList.filter p, s.sorted.filter p⟩

variable {p : α → Bool}

@[simp]
theorem mem_filter : x ∈ s.filter p ↔ x ∈ s ∧ p x = true := by
  simp [← mem_toList, filter]

/-- Take the elements that satisfy a predicate out of the set, in order. -/
def extractIf (s : OrdSet key) (p : α → Bool) : List α × OrdSet key :=
  (s.toList.filter p, s.filter (fun a => !p a))

theorem extractIf_fst (s : OrdSet key) (p : α → Bool) : (s.extractIf p).1 = s.toList.filter p :=
  rfl

theorem mem_extractIf_snd : x ∈ (s.extractIf p).2 ↔ x ∈ s ∧ p x = false := by
  simp [extractIf]

/-- The first element in the order of the keys. -/
def first (s : OrdSet key) : Option α :=
  s.toList.head?

/-- The first element is stored. -/
theorem first_mem (h : s.first = some a) : a ∈ s :=
  mem_of_mem_head? h

/-- The first element has the least key. -/
theorem first_le (h : s.first = some a) (hb : b ∈ s) : key a ≤ key b := by
  obtain ⟨l, hl⟩ := s
  change b ∈ l at hb
  cases l with
  | nil => simp at hb
  | cons =>
    simp only [first, List.head?_cons, Option.some.injEq] at h
    subst h
    rcases mem_cons.mp hb with rfl | hb
    · exact le_rfl
    · exact ((pairwise_cons.mp hl).1 b hb).le

/-- Only the empty set has no first element. -/
theorem first_eq_none : s.first = none ↔ ∀ a, a ∉ s := by
  simp [first, eq_nil_iff_forall_not_mem]

end OrdSet
end Numaflow.Lib
