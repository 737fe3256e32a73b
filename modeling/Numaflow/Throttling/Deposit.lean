import Numaflow.Throttling.Pool
import Numaflow.Throttling.Refill

/-!
# Unused tokens

A processor of a pool takes tokens out of the bucket for all processors at once and gets one
part of them.  What it does not use it puts back, again for all processors, if the second is
that of the last refill.  The bucket does not know in which second the tokens were taken, nor
how large the pool was.

A run notes what every acquisition has left, and what the last refill has stored.

Main results: `DistributedLimit.attemptAcquireN_spec`, `token_le_refilled`.
-/

namespace Numaflow.Throttling

open Lib List

/-- A rate limit that is shared with the other processors of a pool. -/
structure DistributedLimit (F : Type) where
  limit : RateLimit F
  state : Member

namespace DistributedLimit

variable {F : Type}

section

variable (d : DistributedLimit F)

/-- The pool size that tokens are divided by. -/
def pool : Nat :=
  max d.state.known 1

/-- The bucket with another number of tokens. -/
def withToken (token : Nat) : DistributedLimit F :=
  { d with limit := { d.limit with token := token } }

def getTokens (n : Option Nat) (curEpoch : Nat) :
    TokenAvailability × DistributedLimit F :=
  if d.limit.lastQueriedEpoch < curEpoch then (.recompute, d)
  else
    let processorTokens := d.limit.token / d.pool
    if d.limit.token = 0 ∨ processorTokens = 0 then (.exhausted, d)
    else
      let tokens := n.elim processorTokens (min processorTokens)
      (.available tokens, d.withToken (d.limit.token - tokens * d.pool))

/-- Put unused tokens back for every processor, unless the second is another one than that of
the last refill.  Machine words wrap around. -/
def attemptDepositUnused (n curEpoch : Nat) : DistributedLimit F :=
  if curEpoch ≠ d.limit.lastQueriedEpoch then d
  else d.withToken
    (wrappingAdd d.limit.token (n * d.state.known % (usizeMax + 1)))

end

variable [F32 F]

section

variable (d : DistributedLimit F) (n : Option Nat)

/-- Take tokens, after a refill when the second is new. -/
def attemptAcquireN (curEpoch : Nat) :
    Nat × DistributedLimit F :=
  match d.getTokens n curEpoch with
  | (.available tokens, d) => (tokens, d)
  | (.exhausted, d) => (0, d)
  | (.recompute, d) =>
    let (availability, d) := { d with limit := d.limit.refill curEpoch }.getTokens n curEpoch
    (availability.tokens, d)

variable {curEpoch : Nat}

omit [F32 F] in
theorem getTokens_spec
    (h : d.limit.lastQueriedEpoch = curEpoch) : (d.getTokens n curEpoch).1 ≠ .recompute ∧
      (d.getTokens n curEpoch).2.limit.lastQueriedEpoch = curEpoch ∧
      (d.getTokens n curEpoch).2.limit.token + (d.getTokens n curEpoch).1.tokens * d.pool =
        d.limit.token := by
  simp only [getTokens, h, lt_irrefl, if_false]
  split_ifs with hempty
  · exact ⟨by simp, h, by simp [TokenAvailability.tokens]⟩
  · have hle : n.elim (d.limit.token / d.pool) (min (d.limit.token / d.pool)) ≤
        d.limit.token / d.pool := by
      cases n with
      | none => exact le_rfl
      | some => exact min_le_left _ _
    exact ⟨by simp, h, Nat.sub_add_cancel
      ((Nat.mul_le_mul_right _ hle).trans (Nat.div_mul_le_self _ _))⟩

/-- An acquisition takes its tokens, times the pool size, out of the bucket of the second. -/
theorem attemptAcquireN_spec
    (hle : d.limit.lastQueriedEpoch ≤ curEpoch) :
    (d.attemptAcquireN n curEpoch).2.limit.lastQueriedEpoch = curEpoch ∧
      (d.attemptAcquireN n curEpoch).2.limit.token + (d.attemptAcquireN n curEpoch).1 * d.pool =
        d.limit.available curEpoch := by
  rcases hle.lt_or_eq with hlt | heq
  · have hspec := getTokens_spec { d with limit := d.limit.refill curEpoch } n rfl
    rw [attemptAcquireN, getTokens, if_pos hlt, RateLimit.available, if_pos hlt]
    exact hspec.2
  · have hspec := getTokens_spec d n heq
    rw [attemptAcquireN, RateLimit.available_of_queried heq]
    split
    · rename_i hget
      rw [hget] at hspec
      exact hspec.2
    · rename_i hget
      rw [hget] at hspec
      exact hspec.2
    · rename_i hget
      exact absurd (by rw [hget]) hspec.1

end

end DistributedLimit

/-! ## Runs -/

/-- What is left of the tokens of an acquisition, with its second and its pool size. -/
structure Receipt where
  left : Nat
  epoch : Nat
  pool : Nat
deriving DecidableEq, Repr

/-- What the receipt has taken out of the bucket of the given second. -/
def Receipt.value (epoch : Nat) (r : Receipt) : Nat :=
  if r.epoch = epoch then r.left * r.pool else 0

/-- What all receipts have taken out of the bucket of the given second. -/
def owed (epoch : Nat) (receipts : List Receipt) : Nat :=
  (receipts.map (Receipt.value epoch)).sum

/-- A processor with the receipts of its acquisitions, the tokens that the last refill has
stored, and the second of the last call. -/
structure DepositRun (F : Type) where
  limiter : DistributedLimit F
  receipts : List Receipt
  refilled : Nat
  time : Nat

/-- A deposit returns unused tokens of one of the acquisitions. -/
inductive DepositAction where
  | acquire (n : Option Nat) (epoch : Nat)
  | deposit (index n epoch : Nat)
  | update (consensus : Consensus)
deriving DecidableEq, Repr

namespace DepositRun

variable {F : Type} [F32 F]

/-- Nothing was acquired yet. -/
def init (limiter : DistributedLimit F) : DepositRun F where
  limiter := limiter
  receipts := []
  refilled := limiter.limit.token
  time := limiter.limit.lastQueriedEpoch

def step (s : DepositRun F) : DepositAction → DepositRun F
  | .acquire n epoch =>
    if epoch < s.time then s
    else
      let (tokens, limiter) := s.limiter.attemptAcquireN n epoch
      { limiter := limiter
        receipts := s.receipts ++ [⟨tokens, epoch, s.limiter.pool⟩]
        refilled := if s.limiter.limit.lastQueriedEpoch < epoch then
          (s.limiter.limit.computeRefill epoch).1 else s.refilled
        time := epoch }
  | .deposit index n epoch =>
    match s.receipts[index]? with
    | none => s
    | some r =>
      if epoch < s.time ∨ r.left < n then s
      else
        { s with
          limiter := s.limiter.attemptDepositUnused n epoch
          receipts := s.receipts.set index { r with left := r.left - n }
          time := epoch }
  | .update consensus =>
    { s with limiter := { s.limiter with state := s.limiter.state.updateState consensus } }

/-- A deposit that is accepted is for tokens of the same second, and the pool is not larger
than it was when they were taken. -/
def Matched (s : DepositRun F) : DepositAction → Prop
  | .deposit index _ epoch => epoch = s.limiter.limit.lastQueriedEpoch →
      ∀ r ∈ s.receipts[index]?, r.epoch = epoch ∧ s.limiter.state.known ≤ r.pool
  | _ => True

instance (s : DepositRun F) : DecidablePred s.Matched := fun _ => by
  unfold Matched
  split <;> infer_instance

/-- The tokens in the bucket, and those that were taken out of it, are of the last refill. -/
structure Funded (s : DepositRun F) : Prop where
  time : s.limiter.limit.lastQueriedEpoch ≤ s.time
  past : ∀ r ∈ s.receipts, r.epoch ≤ s.limiter.limit.lastQueriedEpoch
  funded : s.limiter.limit.token + owed s.limiter.limit.lastQueriedEpoch s.receipts ≤ s.refilled

theorem owed_append (epoch : Nat) (receipts : List Receipt) (r : Receipt) :
    owed epoch (receipts ++ [r]) = owed epoch receipts + r.value epoch := by
  simp [owed]

variable {epoch i index n : Nat} {r : Receipt} {a : DepositAction}

theorem owed_set {receipts : List Receipt} (h : receipts[i]? = some r) (r' : Receipt) :
    owed epoch (receipts.set i r') + r.value epoch = owed epoch receipts + r'.value epoch := by
  unfold owed
  induction receipts generalizing i with
  | nil => cases h
  | cons _ _ ih =>
    cases i with
    | zero =>
      cases h
      simp only [set_cons_zero, map_cons, sum_cons]
      omega
    | succ =>
      have hrest := ih h
      simp only [set_cons_succ, map_cons, sum_cons]
      omega

/-- Before the first acquisition of a second nothing was taken out of its bucket. -/
theorem owed_eq_zero {receipts : List Receipt} (h : ∀ r ∈ receipts, r.epoch < epoch) :
    owed epoch receipts = 0 := by
  apply sum_eq_zero
  intro v hv
  rcases mem_map.mp hv with ⟨r, hr, rfl⟩
  exact if_neg (h r hr).ne

variable {s : DepositRun F}

theorem Funded.acquire (h : s.Funded) (n : Option Nat) (epoch : Nat) :
    (s.step (.acquire n epoch)).Funded := by
  by_cases hpast : epoch < s.time
  · rw [step, if_pos hpast]
    exact h
  have hle := h.time.trans (not_lt.mp hpast)
  have hfunded := h.funded
  rcases s.limiter.attemptAcquireN_spec n hle with ⟨hepoch, hsum⟩
  rw [step, if_neg hpast]
  refine ⟨hepoch.le, ?_, ?_⟩
  · rw [hepoch]
    exact forall_mem_concat.mpr ⟨fun r hr => (h.past r hr).trans hle, le_rfl⟩
  · simp only [hepoch, owed_append, Receipt.value, if_true]
    rw [RateLimit.available] at hsum
    split_ifs at hsum ⊢ with hnew
    · have howed := owed_eq_zero fun r hr => (h.past r hr).trans_lt hnew
      omega
    · rw [le_antisymm hle (not_lt.mp hnew)] at hfunded
      omega

/-- A deposit returns tokens of the last refill only. -/
theorem Funded.deposit (h : s.Funded) (hok : s.Matched (.deposit index n epoch)) :
    (s.step (.deposit index n epoch)).Funded := by
  simp only [step]
  split
  · exact h
  rename_i r hr
  split_ifs with hpast
  · exact h
  rw [not_or, not_lt, not_lt] at hpast
  have howed : owed s.limiter.limit.lastQueriedEpoch _ + _ = _ :=
    owed_set hr { r with left := r.left - n }
  have hfunded := h.funded
  have hreceipts : ∀ r' ∈ s.receipts.set index { r with left := r.left - n },
      r'.epoch ≤ s.limiter.limit.lastQueriedEpoch := by
    intro r' hr'
    rcases mem_set_cases hr' with rfl | ⟨j, -, hj⟩
    · exact h.past r (mem_of_getElem? hr)
    · exact h.past r' (mem_of_getElem? hj)
  by_cases hepoch : epoch = s.limiter.limit.lastQueriedEpoch
  · rcases hok hepoch r hr with ⟨hsame, hpool⟩
    have hback : n * s.limiter.state.known + (r.left - n) * r.pool ≤ r.left * r.pool := by
      rw [← Nat.sub_add_cancel hpast.2, Nat.add_sub_cancel, Nat.add_mul, Nat.add_comm]
      exact Nat.add_le_add_left (Nat.mul_le_mul_left n hpool) _
    rw [DistributedLimit.attemptDepositUnused, if_neg (not_not.mpr hepoch)]
    refine ⟨hepoch.ge, hreceipts, ?_⟩
    have hvalue : ∀ left, Receipt.value s.limiter.limit.lastQueriedEpoch { r with left := left } =
        left * r.pool := fun _ => if_pos (hsame.trans hepoch)
    rw [hvalue, hvalue] at howed
    have hwrap := Nat.mod_le (n * s.limiter.state.known) (usizeMax + 1)
    refine (Nat.add_le_add_right (wrappingAdd_le _ _) _).trans ?_
    simp only [DistributedLimit.withToken]
    omega
  · rw [DistributedLimit.attemptDepositUnused, if_pos hepoch]
    refine ⟨h.time.trans hpast.1, hreceipts, ?_⟩
    have hless : Receipt.value s.limiter.limit.lastQueriedEpoch { r with left := r.left - n } ≤
        r.value s.limiter.limit.lastQueriedEpoch := by
      simp only [Receipt.value]
      split_ifs
      · exact Nat.mul_le_mul_right _ (Nat.sub_le _ _)
      · exact le_rfl
    simp only
    omega

theorem Funded.step (h : s.Funded) (hok : s.Matched a) : (s.step a).Funded := by
  cases a with
  | acquire n epoch => exact h.acquire n epoch
  | deposit => exact h.deposit hok
  | update => exact ⟨h.time, h.past, h.funded⟩

/-- In every run whose accepted deposits are for tokens of the same second, taken with a pool
that is not smaller, the bucket never has more than the refill of the second stored. -/
theorem token_le_refilled (limiter : DistributedLimit F) {actions : List DepositAction}
    (hrun : Along Matched step (init limiter) actions) :
    (exec step (init limiter) actions).limiter.limit.token ≤
      (exec step (init limiter) actions).refilled := by
  have hfunded : (exec step (init limiter) actions).Funded :=
    exec_invariant (fun _ _ h hok => h.step hok) ⟨le_rfl, List.forall_mem_nil _, le_rfl⟩ hrun
  exact (Nat.le_add_right _ _).trans hfunded.funded

/-- Ten tokens a second, for a pool of two. -/
def tenTokens : DistributedLimit ℚ :=
  { limit := .new { slope := 1, max := 10, min := 10, mode := .relaxed },
    state := { phase := .consuming, known := 2, desired := 2 } }

/-- Tokens are put back in their second, and after the pool has become smaller. -/
theorem token_le_refilled_sameSecond :
    let s := exec step (init tenTokens) [.acquire (some 3) 1, .deposit 0 2 1,
      .update (.agree 1), .deposit 0 1 1]
    s.limiter.limit.token = 9 ∧ s.limiter.limit.token ≤ s.refilled :=
  ⟨by decide +kernel, token_le_refilled tenTokens (by decide +kernel)⟩

/-- Tokens are put back in the next second, after its refill. -/
def lateDeposit : DepositRun ℚ :=
  exec step (init tenTokens) [.acquire none 1, .acquire (some 0) 2, .deposit 0 5 2]

/-- Tokens are put back after the pool has grown. -/
def grownPool : DepositRun ℚ :=
  exec step (init tenTokens) [.acquire none 1, .update (.agree 3), .deposit 0 5 1]

theorem deposit_exceeds_refill : lateDeposit.limiter.limit.token = 20 ∧ lateDeposit.refilled = 10 ∧
      grownPool.limiter.limit.token = 15 ∧ grownPool.refilled = 10 := by
  decide +kernel

end DepositRun
end Numaflow.Throttling
