import Mathlib

/-!
# Computations that leave a log

A computation that calls others leaves a record of the calls, and it may stop with an error.
The record of what was done before the error stays.

Main results: `Logged.yields_bind`, `Logged.logs_bind`.
-/

namespace Numaflow.Lib

variable {ω ε α β : Type}

/-- A log and a result or an error. -/
structure Logged (ω ε α : Type) where
  log : List ω
  result : Except ε α

namespace Logged

/-- Stop with an error. -/
def fail (e : ε) : Logged ω ε α :=
  ⟨[], .error e⟩

/-- Add an entry to the log. -/
def tell (w : ω) : Logged ω ε Unit :=
  ⟨[w], .ok ()⟩

/-- Do one step after the other; after an error the second one is not done. -/
protected def bind (x : Logged ω ε α) (f : α → Logged ω ε β) : Logged ω ε β :=
  match x.result with
  | .ok a => ⟨x.log ++ (f a).log, (f a).result⟩
  | .error e => ⟨x.log, .error e⟩

instance : Monad (Logged ω ε) where
  pure a := ⟨[], .ok a⟩
  bind := Logged.bind

/-- The computation succeeds with a value and leaves a log. -/
def Yields (x : Logged ω ε α) (log : List ω) (a : α) : Prop :=
  x.log = log ∧ x.result = .ok a

variable {x : Logged ω ε α} {a : α} {log : List ω}

theorem yields_self (h : x.result = .ok a) : x.Yields x.log a :=
  ⟨rfl, h⟩

variable {b : α} {e : ε} {w : ω} {u : Unit} {p : Prop} {y : Logged ω ε α}

@[simp]
theorem yields_pure : (pure a : Logged ω ε α).Yields log b ↔ log = [] ∧ b = a := by
  refine ⟨fun h => ⟨h.1.symm, (Except.ok.inj h.2).symm⟩, ?_⟩
  rintro ⟨rfl, rfl⟩
  exact ⟨rfl, rfl⟩

@[simp]
theorem not_yields_fail : ¬ (fail e : Logged ω ε α).Yields log a := by
  rintro ⟨-, h⟩
  cases h

@[simp]
theorem yields_tell : (tell w : Logged ω ε Unit).Yields log u ↔ log = [w] :=
  ⟨fun h => h.1.symm, fun h => ⟨h.symm, rfl⟩⟩

/-- Two steps succeed exactly when both do, and their logs follow each other. -/
theorem yields_bind {f : α → Logged ω ε β} {b : β} : (x >>= f).Yields log b ↔
      ∃ first a second, x.Yields first a ∧ (f a).Yields second b ∧ log = first ++ second := by
  constructor
  · rintro ⟨hlog, hresult⟩
    change (Logged.bind x f).log = log at hlog
    change (Logged.bind x f).result = .ok b at hresult
    unfold Logged.bind at hlog hresult
    cases hx : x.result with
    | error =>
      rw [hx] at hresult
      cases hresult
    | ok a =>
      rw [hx] at hlog hresult
      exact ⟨x.log, a, (f a).log, ⟨rfl, hx⟩, ⟨rfl, hresult⟩, hlog.symm⟩
  · rintro ⟨first, a, second, ⟨rfl, hx⟩, ⟨rfl, hf⟩, rfl⟩
    constructor
    · change (Logged.bind x f).log = _
      rw [Logged.bind, hx]
    · change (Logged.bind x f).result = _
      rw [Logged.bind, hx]
      exact hf

theorem yields_ite [Decidable p] :
    (if p then x else y).Yields log a ↔ p ∧ x.Yields log a ∨ ¬ p ∧ y.Yields log a := by
  split_ifs with hp <;> simp [hp]

/-! ## Logs of computations that may fail -/

/-- Every entry of the log is as it should be, whether the computation succeeds or not. -/
def Logs (x : Logged ω ε α) (P : ω → Prop) : Prop :=
  ∀ e ∈ x.log, P e

section

variable {P : ω → Prop}

theorem logs_pure (a : α) : (pure a : Logged ω ε α).Logs P :=
  nofun

theorem logs_fail (e : ε) : (fail e : Logged ω ε α).Logs P :=
  nofun

theorem logs_tell (h : P w) : (tell w : Logged ω ε Unit).Logs P :=
  List.forall_mem_singleton.mpr h

/-- The second step is only taken with what the first one yields. -/
theorem logs_bind {f : α → Logged ω ε β} (hx : x.Logs P)
    (hf : ∀ a, x.Yields x.log a → (f a).Logs P) : (x >>= f).Logs P := by
  change (Logged.bind x f).Logs P
  unfold Logged.bind
  cases hresult : x.result with
  | error => exact hx
  | ok a => exact List.forall_mem_append.mpr ⟨hx, hf a (yields_self hresult)⟩

theorem logs_ite [Decidable p] (hx : p → x.Logs P) (hy : ¬ p → y.Logs P) :
    (if p then x else y).Logs P := by
  split_ifs with hp
  · exact hx hp
  · exact hy hp

end

end Logged
end Numaflow.Lib
