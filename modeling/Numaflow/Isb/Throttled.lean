import Numaflow.Throttling.Refill

/-!
# Throttled reads

The reader of an inter-step buffer asks its rate limiter for as many tokens as a batch has
messages, fetches at most as many messages as it was granted, and deposits tokens for the
messages it did not read.  The tokens it deposits are counted from the size of the batch,
not from the tokens it was granted.

Main results: `applyRateLimitingAndFetch_of_epoch`, `reads_accounted`,
`partialGrant_not_accounted`.
-/

namespace Numaflow.Isb

open Lib Throttling

/-- The batch size of a call, the second in which it begins, the later seconds in which it
tries again for tokens, what the buffer answers, and the second in which it ends. -/
structure FetchCall (α : Type) where
  batchSize : Nat
  epoch : Nat
  later : List Nat
  fetched : Option (List α)
  depositEpoch : Nat
deriving DecidableEq, Repr

/-- The rate limiter of a reader and all messages the reader has read. -/
structure ThrottledReader (F α : Type) where
  rateLimiter : Option (RateLimit F)
  read : List α

variable {F α : Type} [F32 F]

/-- The messages of a fetch: none when throttled or when the fetch fails, otherwise what the
buffer has, up to the number asked for. -/
def fetch (effectiveBatchSize : Nat) (fetched : Option (List α)) : List α :=
  if effectiveBatchSize = 0 then []
  else
    match fetched with
    | some batch => batch.take effectiveBatchSize
    | none => []

omit [F32 F] in
theorem length_fetch_le (effectiveBatchSize : Nat) (fetched : Option (List α)) :
    (fetch effectiveBatchSize fetched).length ≤ effectiveBatchSize := by
  unfold fetch
  split_ifs
  · exact Nat.zero_le _
  · cases fetched with
    | none => exact Nat.zero_le _
    | some => exact List.length_take_le _ _

/-- Acquire tokens, fetch a batch and deposit the unused tokens. -/
def applyRateLimitingAndFetch (rateLimiter : Option (RateLimit F)) (call : FetchCall α) :
    List α × Option (RateLimit F) :=
  match rateLimiter with
  | none => (fetch call.batchSize call.fetched, none)
  | some rl =>
    let (acquired, rl) := rl.acquireN (some call.batchSize) call.epoch call.later
    let batch := fetch (min acquired call.batchSize) call.fetched
    (batch, some (rl.attemptDepositUnused (call.batchSize - batch.length) call.depositEpoch))

/-- One more call. -/
def ThrottledReader.step (s : ThrottledReader F α) (call : FetchCall α) : ThrottledReader F α :=
  let (batch, rateLimiter) := applyRateLimitingAndFetch s.rateLimiter call
  ⟨rateLimiter, s.read ++ batch⟩

/-- All clock readings of a call fall into one second. -/
def FetchCall.InEpoch (call : FetchCall α) (epoch : Nat) : Prop :=
  call.epoch = epoch ∧ (∀ e ∈ call.later, e = epoch) ∧ call.depositEpoch = epoch
deriving Decidable

/-- The tokens that a call in the given second finds; none without a rate limiter. -/
def ThrottledReader.available (s : ThrottledReader F α) (epoch : Nat) : Nat :=
  s.rateLimiter.elim 0 fun rl => rl.available epoch

/-- The bucket of the second and what was read in it add up to the refill. -/
structure Accounted (epoch refill : Nat) (s : ThrottledReader F α) : Prop where
  limited : ∃ rl, s.rateLimiter = some rl ∧ rl.lastQueriedEpoch ≤ epoch
  total : s.available epoch + s.read.length = refill

variable {epoch refill : Nat} {call : FetchCall α}

/-- Within one second a call takes the tokens it can get, and puts back the size of the
batch less what it read. -/
theorem applyRateLimitingAndFetch_of_epoch {rl : RateLimit F}
    (hqueried : rl.lastQueriedEpoch ≤ epoch) (hcall : call.InEpoch epoch) :
    ∃ batch rl', applyRateLimitingAndFetch (some rl) call = (batch, some rl') ∧
      batch.length ≤ min (rl.available epoch) call.batchSize ∧
      rl'.lastQueriedEpoch = epoch ∧
      rl'.token =
        wrappingAdd (rl.available epoch - call.batchSize) (call.batchSize - batch.length) := by
  obtain ⟨rfl, hlater, hdeposit⟩ := hcall
  obtain ⟨htokens, hepoch, hleft⟩ := RateLimit.acquireN_of_epoch hqueried call.batchSize hlater
  refine ⟨_, _, rfl, ?_, ?_, ?_⟩
  · have hlength := length_fetch_le
      (min (rl.acquireN (some call.batchSize) call.epoch call.later).1 call.batchSize) call.fetched
    omega
  · rw [RateLimit.attemptDepositUnused, hepoch, hdeposit, if_neg (not_not.mpr rfl)]
  · rw [RateLimit.attemptDepositUnused, hepoch, hdeposit, if_neg (not_not.mpr rfl)]
    simp only [hleft]

/-- A call that is granted a full batch keeps the account: what it puts back fits into the
refill, so the deposit does not wrap. -/
theorem Accounted.step {s : ThrottledReader F α} (h : Accounted epoch refill s)
    (hrefill : refill ≤ usizeMax) (hcall : call.InEpoch epoch) (hfull : call.batchSize ≤ s.available epoch) :
    Accounted epoch refill (s.step call) := by
  obtain ⟨rl, hrl, hqueried⟩ := h.limited
  have htotal := h.total
  obtain ⟨batch, rl', hfetch, hlength, hepoch, htoken⟩ :=
    applyRateLimitingAndFetch_of_epoch hqueried hcall
  have hstep : s.step call = ⟨some rl', s.read ++ batch⟩ := by
    rw [ThrottledReader.step, hrl, hfetch]
  rw [ThrottledReader.available, hrl, Option.elim_some] at hfull htotal
  refine ⟨⟨rl', by rw [hstep], hepoch.le⟩, ?_⟩
  rw [hstep, ThrottledReader.available, Option.elim_some, RateLimit.available_of_queried hepoch,
    htoken, wrappingAdd_of_le (by omega), List.length_append]
  omega

/-- When every call of a second finds tokens for a full batch, no more messages are read
than the refill of the second has tokens, and the tokens left are those not used. -/
theorem reads_accounted (rl : RateLimit F) (epoch : Nat) (hnew : rl.lastQueriedEpoch < epoch)
    (calls : List (FetchCall α))
    (hcalls : Along (fun s call => call.InEpoch epoch ∧ call.batchSize ≤ s.available epoch)
      ThrottledReader.step ⟨some rl, []⟩ calls) :
    let s := exec ThrottledReader.step ⟨some rl, []⟩ calls
    s.read.length ≤ (rl.computeRefill epoch).1 ∧
      s.available epoch + s.read.length = (rl.computeRefill epoch).1 := by
  have hinit : Accounted epoch (rl.computeRefill epoch).1
      (⟨some rl, []⟩ : ThrottledReader F α) := by
    refine ⟨⟨rl, rfl, hnew.le⟩, ?_⟩
    rw [ThrottledReader.available, Option.elim_some, RateLimit.available, if_pos hnew]
    rfl
  have hend := exec_invariant (I := Accounted epoch (rl.computeRefill epoch).1)
    (fun s call hs hok => hs.step (rl.computeRefill_le epoch) hok.1 hok.2) hinit hcalls
  exact ⟨hend.total ▸ Nat.le_add_left _ _, hend.total⟩

/-- Three tokens in every second. -/
def threePerSecond : RateLimit ℚ :=
  .new { slope := 1, max := 3, min := 3, mode := .relaxed }

/-- A call of the first second that gets as many messages as it may read. -/
def readAll (batchSize : Nat) : FetchCall Nat :=
  ⟨batchSize, 1, [], some (List.range batchSize), 1⟩

/-- Two reads of batches that the bucket can cover, with a short fetch between them. -/
theorem reads_accounted_threePerSecond :
    let calls := [readAll 2, ⟨1, 1, [], none, 1⟩, readAll 1]
    let s := exec ThrottledReader.step ⟨some threePerSecond, []⟩ calls
    s.read.length ≤ (threePerSecond.computeRefill 1).1 ∧
      s.available 1 + s.read.length = (threePerSecond.computeRefill 1).1 :=
  reads_accounted threePerSecond 1 (by decide +kernel)
    [readAll 2, ⟨1, 1, [], none, 1⟩, readAll 1] (by decide +kernel)

/-- A batch of ten with three tokens in the bucket: the reader takes three tokens, reads
three messages and deposits seven tokens, which the next call reads with. -/
theorem partialGrant_not_accounted :
    let s := exec ThrottledReader.step ⟨some threePerSecond, []⟩ [readAll 10, readAll 10]
    (∀ call ∈ [readAll 10, readAll 10], call.InEpoch 1) ∧
      ¬ s.read.length ≤ (threePerSecond.computeRefill 1).1 ∧
      s.available 1 + s.read.length ≠ (threePerSecond.computeRefill 1).1 := by
  refine ⟨?_, by decide +kernel, by decide +kernel⟩
  intro call hcall
  obtain rfl : call = readAll 10 := by simpa using hcall
  exact ⟨rfl, by simp [readAll], rfl⟩

end Numaflow.Isb
