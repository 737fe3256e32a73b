import Mathlib

/-!
# Checks in sequence

A validator is a sequence of checks that stops at the first one that fails, with the
error of that check.  Some of its loops also keep the keys they have seen.

Main results: `andThen_ok`, `bind_ok`, `forM_ok`, `forEachSeen_nodup`.
-/

namespace Numaflow.Lib

variable {ε α β κ : Type}

/-- Fail with `error` when `failed` holds. -/
def check (failed : Bool) (error : ε) : Except ε Unit :=
  if failed then .error error else .ok ()

variable {failed : Bool} {error : ε} {y : Except ε β} {f : α → Except ε β} {b : β}

@[simp]
theorem check_ok : check failed error = .ok () ↔ failed = false := by
  cases failed <;> simp [check]

theorem exists_error_iff {x : Except ε Unit} : (∃ e, x = .error e) ↔ x ≠ .ok () := by
  cases x with
  | error | ok => simp

/-- A sequence passes when both parts pass. -/
@[simp]
theorem andThen_ok {x : Except ε Unit} : (x >>= fun _ => y) = .ok b ↔ x = .ok () ∧ y = .ok b := by
  cases x with
  | error => exact ⟨nofun, nofun⟩
  | ok => exact ⟨fun h => ⟨rfl, h⟩, fun h => h.2⟩

/-- A computation whose first part gives a value goes on with it. -/
theorem bind_ok {x : Except ε α} : (x >>= f) = .ok b ↔ ∃ a, x = .ok a ∧ f a = .ok b := by
  cases x with
  | error => exact ⟨nofun, nofun⟩
  | ok a => exact ⟨fun h => ⟨a, rfl, h⟩, fun ⟨_, ha, h⟩ => by cases ha; exact h⟩

@[simp]
theorem elim_ok {o : Option α} {a : α} : o.elim (Except.error error) Except.ok = .ok a ↔ o = some a := by
  cases o with
  | none | some => simp

open List

/-- A loop passes when every element passes. -/
@[simp]
theorem forM_ok {f : α → Except ε Unit} {l : List α} :
    l.forM f = .ok () ↔ ∀ x ∈ l, f x = .ok () := by
  induction l with
  | nil => exact ⟨fun _ => forall_mem_nil _, fun _ => rfl⟩
  | cons x l ih =>
    rw [forall_mem_cons, ← ih]
    exact andThen_ok

/-- Check the elements of a list in order; each check is given the keys seen before. -/
def forEachSeen (key : α → κ) (f : List κ → α → Except ε Unit) :
    List κ → List α → Except ε Unit
  | _, [] => .ok ()
  | seen, x :: l => do
      f seen x
      forEachSeen key f (key x :: seen) l

section

variable {key : α → κ} {f : List κ → α → Except ε Unit} {seen : List κ} {l : List α}

/-- What every check establishes holds of all elements of a loop that passes. -/
theorem forEachSeen_forall {P : α → Prop} (hf : ∀ seen x, f seen x = .ok () → P x)
    (h : forEachSeen key f seen l = .ok ()) : ∀ x ∈ l, P x := by
  induction l generalizing seen with
  | nil => exact forall_mem_nil _
  | cons x l ih =>
    rw [forEachSeen, andThen_ok] at h
    exact forall_mem_cons.mpr ⟨hf seen x h.1, ih h.2⟩

/-- When every check refuses a key seen before, a loop that passes has distinct keys, and none
of those it started with. -/
theorem forEachSeen_nodup (hf : ∀ seen x, f seen x = .ok () → key x ∉ seen)
    (h : forEachSeen key f seen l = .ok ()) :
    (l.map key).Nodup ∧ ∀ x ∈ l, key x ∉ seen := by
  induction l generalizing seen with
  | nil => exact ⟨nodup_nil, forall_mem_nil _⟩
  | cons x l ih =>
    rw [forEachSeen, andThen_ok] at h
    obtain ⟨hnodup, hseen⟩ := ih h.2
    constructor
    · rw [map_cons, nodup_cons]
      refine ⟨?_, hnodup⟩
      intro hmem
      obtain ⟨y, hy, heq⟩ := mem_map.mp hmem
      apply hseen y hy
      rw [heq]
      exact mem_cons_self
    · rw [forall_mem_cons]
      exact ⟨hf seen x h.1, fun y hy hmem => hseen y hy (mem_cons_of_mem _ hmem)⟩

end

end Numaflow.Lib
