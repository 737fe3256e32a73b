import Mathlib

/-!
# Watching a log that grows

A watcher reads the entries of a log that match a condition, one after the other.  It notes how
far it has come with every entry that it receives, holds the entry until it is done with it, and
after a break starts again behind the last entry that it has received.

Main results: `Watch.next_spec`, `Watch.Moves.receive`, `Watch.Moves.rewind`.
-/

namespace Numaflow.Lib

variable {α : Type}

/-- A watcher: the number of entries up to the last one that it has received, the number of
entries that its stream has passed, and the position of the entry that it holds. -/
structure Watch where
  latest : Nat := 0
  position : Nat := 0
  hand : Option Nat := none
deriving DecidableEq, Repr

namespace Watch

variable (w : Watch)

/-- The next matching entry of the stream. -/
def next (p : α → Bool) (log : List α) : Option Nat :=
  (List.range log.length).find? fun i => w.position ≤ i && log[i]?.any p

/-- An entry is received and passed over. -/
def skip (i : Nat) : Watch :=
  { w with latest := i + 1, position := i + 1 }

/-- An entry is received and held. -/
def receive (i : Nat) : Watch :=
  { w.skip i with hand := some i }

/-- The watcher is done with the entry that it holds. -/
def release : Watch :=
  { w with hand := none }

/-- The stream breaks; a new one starts behind the last entry. -/
def rewind : Watch :=
  { w with position := w.latest }

/-- What a watcher has received lies behind it. -/
structure Ok : Prop where
  latest_le : w.latest ≤ w.position
  hand_lt : ∀ i, w.hand = some i → i < w.latest

/-- The watcher has received the entry and is done with it. -/
def Past (i : Nat) : Prop :=
  i < w.latest ∧ w.hand ≠ some i

variable {w} {p : α → Bool} {log : List α} {i : Nat}

/-- The next entry matches and lies ahead. -/
theorem next_spec (h : w.next p log = some i) :
    w.position ≤ i ∧ ∃ entry, log[i]? = some entry ∧ p entry = true := by
  have hfound := List.find?_some h
  rw [Bool.and_eq_true, decide_eq_true_eq, Option.any_eq_true] at hfound
  exact hfound

theorem Ok.new : Ok {} where
  latest_le := Nat.le_refl 0
  hand_lt _ h := by cases h

/-- A step of a watcher: it stays in order, what it is done with stays behind it, and it only
takes up admissible entries. -/
structure Moves (P : Nat → Prop) (w w' : Watch) : Prop where
  ok : Ok w → Ok w'
  past : Ok w → ∀ j, w.Past j → w'.Past j
  hand : ∀ j, w'.hand = some j → w.hand = some j ∨ P j

variable {P : Nat → Prop}

theorem Moves.skip (hhand : w.hand = none) (hi : w.position ≤ i) : Moves P w (w.skip i) where
  ok _ := by
    refine ⟨Nat.le_refl _, fun j hj => ?_⟩
    change w.hand = some j at hj
    rw [hhand] at hj
    cases hj
  past hok j hj := by
    refine ⟨?_, hj.2⟩
    have hlt := hj.1
    have hlatest := hok.latest_le
    change j < i + 1
    omega
  hand j hj := .inl hj

theorem Moves.receive (hi : w.position ≤ i) (hP : P i) : Moves P w (w.receive i) where
  ok _ := by
    refine ⟨Nat.le_refl _, fun j hj => ?_⟩
    cases hj
    exact Nat.lt_succ_self _
  past hok j hj := by
    have hlt := Nat.lt_of_lt_of_le hj.1 (Nat.le_trans hok.latest_le hi)
    exact ⟨Nat.lt_succ_of_lt hlt, fun heq => Nat.ne_of_gt hlt (Option.some.inj heq)⟩
  hand j hj := by
    cases hj
    exact .inr hP

theorem Moves.release : Moves P w w.release where
  ok h := ⟨h.latest_le, fun _ hj => by cases hj⟩
  past _ _ hj := ⟨hj.1, nofun⟩
  hand _ hj := by cases hj

theorem Moves.rewind : Moves P w w.rewind where
  ok h := ⟨Nat.le_refl _, h.hand_lt⟩
  past _ _ hj := hj
  hand _ hj := .inl hj

/-- The entry that was held lies behind now. -/
theorem Ok.past_release (h : Ok w) (hhand : w.hand = some i) : w.release.Past i :=
  ⟨h.hand_lt i hhand, nofun⟩

end Watch
end Numaflow.Lib
