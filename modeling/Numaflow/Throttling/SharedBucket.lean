import Numaflow.Throttling.Refill

/-!
# Tasks that share a bucket

Clones of a rate limiter share the bucket, and a call to acquire tokens is several atomic
steps: load the epoch; in a new second compute the refill under the lock, store the tokens,
store the epoch and load the epoch again; then take tokens.  A run interleaves the steps of
the calls of any number of tasks, all in the same second.

Main results: `exec_call`, `Stage.step`, `returned_le_refill`.
-/

namespace Numaflow.Throttling

open Lib

/-- The next atomic step of a call. -/
inductive Pc where
  | refill
  | storeToken (newTokenCount : Nat)
  | storeEpoch
  | reload
  | take
deriving DecidableEq, Repr

/-- A call is between a load that found the old epoch and its store of the new one. -/
def Pc.refilling : Pc → Bool
  | .refill => true
  | .storeToken _ => true
  | .storeEpoch => true
  | .reload => false
  | .take => false

/-- A call in progress: how many tokens it wants and where it is. -/
structure Call where
  n : Option Nat
  pc : Pc
deriving DecidableEq, Repr

/-- The bucket, the call of each task, and what the finished calls have returned. -/
structure SharedBucket (F : Type) where
  limit : RateLimit F
  calls : HashMap Nat Call
  returned : List Nat

/-- A task begins a call by loading the epoch, or does the next step of its call. -/
inductive TaskAction where
  | call (task : Nat) (n : Option Nat)
  | advance (task : Nat)
deriving DecidableEq, Repr

namespace SharedBucket

variable {F : Type}

/-- No call is in progress. -/
def init (limit : RateLimit F) : SharedBucket F where
  limit := limit
  calls := ∅
  returned := []

/-- The call goes on with its next step. -/
def goOn (s : SharedBucket F) (task : Nat) (n : Option Nat) (pc : Pc) : SharedBucket F :=
  { s with calls := s.calls.insert task ⟨n, pc⟩ }

/-- The call is over. -/
def finish (s : SharedBucket F) (task : Nat) (tokens : Nat) : SharedBucket F :=
  { s with calls := s.calls.erase task, returned := s.returned ++ [tokens] }

variable {task curEpoch t newTokenCount : Nat} {n : Option Nat} {c : Call}

section

variable {s : SharedBucket F} {pc : Pc} {tokens : Nat}

@[simp]
theorem lookup_goOn : (s.goOn task n pc).calls.lookup task = some ⟨n, pc⟩ :=
  AList.lookup_insert _

@[simp]
theorem lookup_finish : (s.finish task tokens).calls.lookup task = none :=
  AList.lookup_erase _ _

/-- There is one call in progress. -/
def Only (s : SharedBucket F) (task : Nat) (c : Call) : Prop :=
  ∀ t c', s.calls.lookup t = some c' ↔ t = task ∧ c' = c

theorem Only.lookup (h : s.Only task c) : s.calls.lookup task = some c :=
  (h task c).mpr ⟨rfl, rfl⟩

/-- When no other task is in a call, the call that goes on is the only one. -/
theorem Only.of_goOn (h : ∀ t c, s.calls.lookup t = some c → t = task) :
    (s.goOn task n pc).Only task ⟨n, pc⟩ := by
  intro t c
  by_cases ht : t = task
  · subst ht
    rw [lookup_goOn, Option.some_inj]
    exact ⟨fun heq => ⟨rfl, heq.symm⟩, fun heq => heq.2.symm⟩
  · rw [goOn, AList.lookup_insert_ne ht]
    exact ⟨fun hc => absurd (h t c hc) ht, fun hc => absurd hc.1 ht⟩

end

/-- A call finds the old epoch only when no other call is about to replace it. -/
def OneRefill (curEpoch : Nat) (s : SharedBucket F) : TaskAction → Prop
  | .call _ _ => s.limit.lastQueriedEpoch < curEpoch →
      ∀ c ∈ HashMap.values s.calls, c.pc.refilling = false
  | .advance _ => True

instance (curEpoch : Nat) (s : SharedBucket F) : DecidablePred (OneRefill curEpoch s) := fun _ => by
  unfold OneRefill
  split <;> infer_instance

/-- No call begins while the only one is about to refill the bucket. -/
theorem Only.not_oneRefill {s : SharedBucket F} (h : s.Only task c) (hpc : c.pc.refilling = true)
    (hepoch : s.limit.lastQueriedEpoch < curEpoch) : ¬ OneRefill curEpoch s (.call t n) := by
  intro hone
  have hfalse := hone hepoch c (HashMap.mem_values.mpr ⟨task, h.lookup⟩)
  rw [hpc] at hfalse
  cases hfalse

variable [F32 F] (curEpoch : Nat)

def step (s : SharedBucket F) : TaskAction → SharedBucket F
  | .call task n =>
    if task ∈ s.calls then s
    else s.goOn task n (if s.limit.lastQueriedEpoch < curEpoch then .refill else .take)
  | .advance task =>
    match s.calls.lookup task with
    | none => s
    | some ⟨n, .refill⟩ =>
      let (newTokenCount, maxEverFilled) := s.limit.computeRefill curEpoch
      { s with limit := { s.limit with maxEverFilled := maxEverFilled } }.goOn task n
        (.storeToken newTokenCount)
    | some ⟨n, .storeToken newTokenCount⟩ =>
      { s with limit := { s.limit with token := newTokenCount } }.goOn task n .storeEpoch
    | some ⟨n, .storeEpoch⟩ =>
      { s with limit := { s.limit with lastQueriedEpoch := curEpoch } }.goOn task n .reload
    | some ⟨n, .reload⟩ =>
      if s.limit.lastQueriedEpoch < curEpoch then
        s.finish task TokenAvailability.recompute.tokens
      else s.goOn task n .take
    | some ⟨n, .take⟩ =>
      let (availability, limit) := s.limit.takeTokens n
      { s with limit := limit }.finish task availability.tokens

/-! ## Steps of one call -/

variable {curEpoch} {s : SharedBucket F}

theorem step_call (h : task ∉ s.calls) : s.step curEpoch (.call task n) =
    s.goOn task n (if s.limit.lastQueriedEpoch < curEpoch then .refill else .take) :=
  if_neg h

theorem step_refill (h : s.calls.lookup task = some ⟨n, .refill⟩) :
    s.step curEpoch (.advance task) =
      { s with limit := { s.limit with maxEverFilled := (s.limit.computeRefill curEpoch).2 } }.goOn
        task n (.storeToken (s.limit.computeRefill curEpoch).1) := by
  simp only [step, h]

theorem step_storeToken (h : s.calls.lookup task = some ⟨n, .storeToken newTokenCount⟩) :
    s.step curEpoch (.advance task) =
      { s with limit := { s.limit with token := newTokenCount } }.goOn task n .storeEpoch := by
  simp only [step, h]

theorem step_storeEpoch (h : s.calls.lookup task = some ⟨n, .storeEpoch⟩) :
    s.step curEpoch (.advance task) =
      { s with limit := { s.limit with lastQueriedEpoch := curEpoch } }.goOn task n .reload := by
  simp only [step, h]

theorem step_reload (h : s.calls.lookup task = some ⟨n, .reload⟩)
    (hepoch : ¬ s.limit.lastQueriedEpoch < curEpoch) :
    s.step curEpoch (.advance task) = s.goOn task n .take := by
  simp only [step, h, if_neg hepoch]

theorem step_take (h : s.calls.lookup task = some ⟨n, .take⟩) : s.step curEpoch (.advance task) =
      { s with limit := (s.limit.takeTokens n).2 }.finish task (s.limit.takeTokens n).1.tokens := by
  simp only [step, h]

theorem step_none (h : s.calls.lookup task = none) : s.step curEpoch (.advance task) = s := by
  simp only [step, h]

theorem exec_advance_of_none (h : s.calls.lookup task = none) (k : Nat) :
    exec (step curEpoch) s (List.replicate k (.advance task)) = s := by
  induction k with
  | zero => rfl
  | succ k ih => rw [List.replicate_succ, exec, step_none h, ih]

/-- A call whose five steps are not interrupted does what the sequential function does. -/
theorem exec_call (h : task ∉ s.calls) :
    (exec (step curEpoch) s (.call task n :: List.replicate 5 (.advance task))).limit =
        (s.limit.attemptAcquireN n curEpoch).2 ∧
      (exec (step curEpoch) s (.call task n :: List.replicate 5 (.advance task))).returned =
        s.returned ++ [(s.limit.attemptAcquireN n curEpoch).1] := by
  rw [exec, step_call h]
  by_cases hepoch : s.limit.lastQueriedEpoch < curEpoch
  · simp only [List.replicate, exec, if_pos hepoch]
    rw [step_refill lookup_goOn, step_storeToken lookup_goOn, step_storeEpoch lookup_goOn,
      step_reload lookup_goOn (lt_irrefl curEpoch), step_take lookup_goOn,
      RateLimit.attemptAcquireN_of_lt hepoch]
    exact ⟨rfl, rfl⟩
  · rw [if_neg hepoch, List.replicate_succ, exec, step_take lookup_goOn,
      exec_advance_of_none lookup_finish, RateLimit.attemptAcquireN_of_le (not_lt.mp hepoch)]
    exact ⟨rfl, rfl⟩

/-! ## One refill -/

/-- How far the refill of the second is.  Before the new epoch is stored there is at most
one call; after it every call takes tokens of that one refill. -/
inductive Stage (rl : RateLimit F) (curEpoch : Nat) : SharedBucket F → Prop where
  | idle {s : SharedBucket F} (hlimit : s.limit = rl) (hcalls : ∀ t, s.calls.lookup t = none)
      (hreturned : s.returned = []) : Stage rl curEpoch s
  | refill {s : SharedBucket F} (task : Nat) (n : Option Nat) (hlimit : s.limit = rl) (hcalls : s.Only task ⟨n, .refill⟩)
      (hreturned : s.returned = []) : Stage rl curEpoch s
  | storeToken {s : SharedBucket F} (task : Nat) (n : Option Nat)
      (hlimit : s.limit = { rl with maxEverFilled := (rl.computeRefill curEpoch).2 })
      (hcalls : s.Only task ⟨n, .storeToken (rl.computeRefill curEpoch).1⟩)
      (hreturned : s.returned = []) : Stage rl curEpoch s
  | storeEpoch {s : SharedBucket F} (task : Nat) (n : Option Nat)
      (hlimit : s.limit = { rl.refill curEpoch with lastQueriedEpoch := rl.lastQueriedEpoch })
      (hcalls : s.Only task ⟨n, .storeEpoch⟩)
      (hreturned : s.returned = []) : Stage rl curEpoch s
  | filled {s : SharedBucket F} (hlimit : s.limit = { rl.refill curEpoch with token := s.limit.token })
      (hcalls : ∀ t c, s.calls.lookup t = some c → c.pc.refilling = false)
      (hsum : s.limit.token + s.returned.sum = (rl.computeRefill curEpoch).1) :
      Stage rl curEpoch s

variable {rl : RateLimit F}

/-- Only the one call can do a step. -/
theorem Only.advance (h : s.Only task c) (ht : t ≠ task) : s.step curEpoch (.advance t) = s := by
  have hnone : s.calls.lookup t = none := by
    refine Option.eq_none_iff_forall_ne_some.mpr fun c' hc' => ht ((h t c').mp hc').1
  exact step_none hnone

namespace Stage

/-- A call begins with an untouched bucket. -/
theorem idle_call (hepoch : rl.lastQueriedEpoch < curEpoch) (hlimit : s.limit = rl)
    (hcalls : ∀ t, s.calls.lookup t = none) (hreturned : s.returned = []) :
    Stage rl curEpoch (s.step curEpoch (.call task n)) := by
  have hnew : task ∉ s.calls := by
    rw [← AList.lookup_eq_none]
    exact hcalls task
  rw [step_call hnew, hlimit, if_pos hepoch]
  refine .refill task n hlimit (.of_goOn fun t c hc => ?_) hreturned
  rw [hcalls t] at hc
  cases hc

/-- After the new epoch is stored, calls only move tokens out of the bucket. -/
theorem filled_step (hlimit : s.limit = { rl.refill curEpoch with token := s.limit.token })
    (hcalls : ∀ t c, s.calls.lookup t = some c → c.pc.refilling = false)
    (hsum : s.limit.token + s.returned.sum = (rl.computeRefill curEpoch).1) (a : TaskAction) :
    Stage rl curEpoch (s.step curEpoch a) := by
  have hepoch : ¬ s.limit.lastQueriedEpoch < curEpoch := by
    rw [hlimit]
    exact lt_irrefl curEpoch
  -- the calls after one more has begun or gone on to take tokens
  have hgoOn : ∀ task n pc, pc.refilling = false →
      ∀ t c, (s.goOn task n pc).calls.lookup t = some c → c.pc.refilling = false := by
    intro task n pc hpc t c hc
    by_cases ht : t = task
    · subst ht
      rw [lookup_goOn] at hc
      cases hc
      exact hpc
    · rw [goOn, AList.lookup_insert_ne ht] at hc
      exact hcalls t c hc
  cases a with
  | call task n =>
    by_cases hin : task ∈ s.calls
    · rw [step, if_pos hin]
      exact .filled hlimit hcalls hsum
    · rw [step_call hin, if_neg hepoch]
      exact .filled hlimit (hgoOn task n .take rfl) hsum
  | advance task =>
    cases hlookup : s.calls.lookup task with
    | none =>
      rw [step_none hlookup]
      exact .filled hlimit hcalls hsum
    | some c =>
      obtain ⟨n, pc⟩ := c
      have hpc := hcalls task ⟨n, pc⟩ hlookup
      cases pc with
      | refill | storeToken | storeEpoch => cases hpc
      | reload =>
        rw [step_reload hlookup hepoch]
        exact .filled hlimit (hgoOn task n .take rfl) hsum
      | take =>
        rw [step_take hlookup]
        have herase : ∀ t c, (s.calls.erase task).lookup t = some c → c.pc.refilling = false := by
          intro t c hc
          by_cases ht : t = task
          · subst ht
            rw [AList.lookup_erase] at hc
            cases hc
          · rw [AList.lookup_erase_ne ht] at hc
            exact hcalls t c hc
        rcases s.limit.takeTokens_cases n with htake | ⟨taken, left, htake, hleft⟩
        · rw [htake]
          refine .filled hlimit herase ?_
          simpa [finish, TokenAvailability.tokens] using hsum
        · rw [htake]
          refine .filled ?_ herase ?_
          · rw [hlimit]
            rfl
          · simp only [finish, TokenAvailability.tokens, List.sum_append, List.sum_singleton]
            omega

variable (h : Stage rl curEpoch s)

include h

variable {a : TaskAction}

/-- One step of one task, when calls find the old epoch one at a time. -/
theorem step (hepoch : rl.lastQueriedEpoch < curEpoch)
    (hone : OneRefill curEpoch s a) : Stage rl curEpoch (s.step curEpoch a) := by
  cases h with
  | idle hlimit hcalls hreturned =>
    cases a with
    | call => exact idle_call hepoch hlimit hcalls hreturned
    | advance task =>
      rw [step_none (hcalls task)]
      exact .idle hlimit hcalls hreturned
  | refill task n hlimit hcalls hreturned =>
    cases a with
    | call => exact absurd hone (hcalls.not_oneRefill rfl (hlimit ▸ hepoch))
    | advance t =>
      by_cases ht : t = task
      · subst ht
        rw [step_refill hcalls.lookup, hlimit]
        exact .storeToken t n rfl (.of_goOn fun t c hc => ((hcalls t c).mp hc).1) hreturned
      · rw [hcalls.advance ht]
        exact .refill task n hlimit hcalls hreturned
  | storeToken task n hlimit hcalls hreturned =>
    cases a with
    | call => exact absurd hone (hcalls.not_oneRefill rfl (hlimit ▸ hepoch))
    | advance t =>
      by_cases ht : t = task
      · subst ht
        rw [step_storeToken hcalls.lookup, hlimit]
        exact .storeEpoch t n rfl (.of_goOn fun t c hc => ((hcalls t c).mp hc).1) hreturned
      · rw [hcalls.advance ht]
        exact .storeToken task n hlimit hcalls hreturned
  | storeEpoch task n hlimit hcalls hreturned =>
    cases a with
    | call => exact absurd hone (hcalls.not_oneRefill rfl (hlimit ▸ hepoch))
    | advance t =>
      by_cases ht : t = task
      · subst ht
        rw [step_storeEpoch hcalls.lookup, hlimit]
        refine .filled rfl (fun t' c hc => ?_) ?_
        · have hnow := (Only.of_goOn (fun t' c hc => ((hcalls t' c).mp hc).1) t' c).mp hc
          rw [hnow.2]
          rfl
        · rw [hreturned]
          rfl
      · rw [hcalls.advance ht]
        exact .storeEpoch task n hlimit hcalls hreturned
  | filled hlimit hcalls hsum => exact filled_step hlimit hcalls hsum a

theorem returned_le : s.returned.sum ≤ (rl.computeRefill curEpoch).1 := by
  cases h with
  | idle _ _ hreturned | refill _ n _ _ hreturned
  | storeToken _ n _ _ hreturned | storeEpoch _ n _ _ hreturned =>
    simp [hreturned]
  | filled => omega

theorem maxEverFilled_eq : s.limit.maxEverFilled = rl.maxEverFilled ∨
      s.limit.maxEverFilled = (rl.computeRefill curEpoch).2 := by
  cases h with
  | idle hlimit | refill _ n hlimit =>
    exact .inl (by rw [hlimit])
  | storeToken _ n hlimit => exact .inr (by rw [hlimit])
  | storeEpoch _ n hlimit | filled hlimit =>
    exact .inr (by rw [hlimit]; rfl)

end Stage

/-- In every run of calls of one second in which a call finds the old epoch only when no
other call is about to replace it, all calls together return at most one refill, and the
largest number of tokens advances at most by that refill. -/
theorem returned_le_refill (rl : RateLimit F) (curEpoch : Nat)
    (hepoch : rl.lastQueriedEpoch < curEpoch) (actions : List TaskAction)
    (hrun : Along (OneRefill curEpoch) (step curEpoch) (init rl) actions) :
    (exec (step curEpoch) (init rl) actions).returned.sum ≤ (rl.computeRefill curEpoch).1 ∧
      ((exec (step curEpoch) (init rl) actions).limit.maxEverFilled = rl.maxEverFilled ∨
        (exec (step curEpoch) (init rl) actions).limit.maxEverFilled =
          (rl.computeRefill curEpoch).2) := by
  have hinit : Stage rl curEpoch (init rl) := .idle rfl (fun _ => rfl) rfl
  have hstage := exec_invariant (I := Stage rl curEpoch)
    (fun s a h hone => h.step hepoch hone) hinit hrun
  exact ⟨hstage.returned_le, hstage.maxEverFilled_eq⟩

/-- A limiter that starts with ten tokens and adds ten in every second. -/
def tenMore : RateLimit ℚ :=
  .new { slope := 10, max := 100, min := 10, mode := .relaxed }

/-- Two tasks, one after the other. -/
def inTurn : List TaskAction :=
  [.call 0 (some 15), .advance 0, .advance 0, .advance 0, .call 1 none, .advance 0, .advance 0,
    .advance 1]

theorem inTurn_returned : (exec (step 1) (init tenMore) inTurn).returned = [15, 5] ∧
    (exec (step 1) (init tenMore) inTurn).returned.sum ≤ (tenMore.computeRefill 1).1 :=
  ⟨by decide +kernel,
    (returned_le_refill tenMore 1 (by decide +kernel) inTurn (by decide +kernel)).1⟩

/-- Two tasks load the old epoch before one of them stores the new one. -/
def bothLoad : List TaskAction :=
  [.call 0 none, .call 1 none, .advance 0, .advance 0, .advance 0, .advance 0, .advance 0,
    .advance 1, .advance 1, .advance 1, .advance 1, .advance 1]

theorem bothLoad_returned : (tenMore.computeRefill 1).1 = 20 ∧
      (exec (step 1) (init tenMore) bothLoad).returned.sum = 50 ∧
      (exec (step 1) (init tenMore) bothLoad).limit.maxEverFilled = 30 := by
  decide +kernel

end SharedBucket
end Numaflow.Throttling
