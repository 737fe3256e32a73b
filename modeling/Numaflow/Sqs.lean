import Mathlib

/-!
# The batch of an SQS source

A read of the SQS source divides its batch over the queues.  The remainder goes to one
queue more than the quotient each, starting at a cursor that moves on with every read.  The
actor of a queue answers from its buffer, which holds the messages of an answer that the
reader did not take, or asks SQS.

Main results: `batch_budget`.
-/

namespace Numaflow.Sqs

open Finset

variable {μ : Type}

/-- The place of a queue in the rotation of a read. -/
def slot (numQueues cursor idx : Nat) : Nat :=
  (idx + numQueues - cursor % numQueues) % numQueues

/-- The number of messages that a read asks from a queue. -/
def count (batchSize numQueues cursor idx : Nat) : Nat :=
  batchSize / numQueues + if slot numQueues cursor idx < batchSize % numQueues then 1 else 0

/-- A queue and the messages that were received and not taken, at most one answer of SQS. -/
structure SQSActor (μ : Type) where
  maxNumberOfMessages : Option Int
  buffered : List μ
  small : buffered.length ≤ 10

namespace SQSActor

/-- A new actor has nothing buffered. -/
def new (maxNumberOfMessages : Option Int) : SQSActor μ :=
  ⟨maxNumberOfMessages, [], Nat.zero_le _⟩

/-- The number of messages that is requested from SQS. -/
def maxMessages (a : SQSActor μ) (count : Int) : Int :=
  max 1 (min 10 (min count (a.maxNumberOfMessages.getD 10)))

/-- The answer to a request, whose count is a 32-bit integer.  SQS is asked when nothing is
buffered, and a failed call gives nothing. -/
def response (a : SQSActor μ) (receiveMessage : Nat → Option (List μ)) (count : Int) : List μ :=
  if a.buffered = [] then (receiveMessage (a.maxMessages count).toNat).getD []
  else a.buffered.take (count % 2 ^ 64).toNat

variable {a : SQSActor μ} {receiveMessage : Nat → Option (List μ)}
  (hsqs : ∀ k, ∀ messages ∈ receiveMessage k, messages.length ≤ k)

include hsqs

theorem length_receiveMessage (a : SQSActor μ) (count : Int) :
    ((receiveMessage (a.maxMessages count).toNat).getD []).length ≤ (a.maxMessages count).toNat := by
  cases h : receiveMessage (a.maxMessages count).toNat with
  | none => exact Nat.zero_le _
  | some messages => exact hsqs _ messages h

/-- No answer is longer than the count, also when the count does not fit 32 bits. -/
theorem length_response_le {n : Nat} (hcount : 1 ≤ n) :
    (a.response receiveMessage ((n : Int).bmod (2 ^ 32))).length ≤ n := by
  have hsmall := a.small
  have hfetched := length_receiveMessage hsqs a ((n : Int).bmod (2 ^ 32))
  unfold response
  by_cases hn : n < 2 ^ 31
  · rw [Int.bmod_eq_of_le (by omega) (by omega)] at hfetched ⊢
    unfold maxMessages at hfetched ⊢
    split_ifs
    · omega
    · rw [List.length_take]
      omega
  · unfold maxMessages at hfetched ⊢
    split_ifs
    · omega
    · rw [List.length_take]
      omega

/-- One request.  An answer that the reader does not take goes back to the front. -/
def handleReceive (a : SQSActor μ) (count : Int) (taken : Bool) : SQSActor μ where
  maxNumberOfMessages := a.maxNumberOfMessages
  buffered :=
    (if taken then [] else a.response receiveMessage count) ++
      if a.buffered = [] then [] else a.buffered.drop (count % 2 ^ 64).toNat
  small := by
    have hsmall := a.small
    have hfetched := length_receiveMessage hsqs a count
    unfold maxMessages at hfetched
    rw [response]
    split_ifs <;> simp [maxMessages] <;> omega

end SQSActor

/-- The messages of a read, where the reader takes the answers of the queues in
`order`.  A queue without a share is not asked. -/
def readMessages (batchSize cursor : Nat) (actors : List (SQSActor μ))
    (receiveMessage : Nat → Nat → Option (List μ)) (order : List Nat) : List μ :=
  order.flatMap fun idx =>
    match actors[idx]? with
    | none => []
    | some a =>
      let n := count batchSize actors.length cursor idx
      if n = 0 then [] else a.response (receiveMessage idx) ((n : Int).bmod (2 ^ 32))

/-! ## Shares -/

variable {n r : Nat}

/-- Of the values of a permutation of the numbers below `n`, `r` are below `r`. -/
theorem sum_lt_of_injOn {f : Nat → Nat} (hmaps : ∀ t < n, f t < n)
    (hinj : ∀ s < n, ∀ t < n, f s = f t → s = t) (hr : r ≤ n) :
    ∑ t ∈ range n, (if f t < r then 1 else 0) = r := by
  have hmaps' : Set.MapsTo f (range n) (range n) := by simpa [Set.MapsTo] using hmaps
  have hinj' : Set.InjOn f (range n) := by
    simpa [Set.InjOn] using fun s hs t ht => hinj s hs t ht
  rw [sum_nbij (t := range n) f hmaps' hinj' (surjOn_of_injOn_of_card_le f hmaps' hinj' le_rfl)
    (g := fun t => if t < r then 1 else 0) fun _ _ => rfl]
  rw [← sum_filter, ← card_eq_sum_ones,
    show (range n).filter (· < r) = range r by ext t; simp; omega, card_range]

variable (hn : 1 ≤ n)

include hn

theorem slot_modEq (cursor idx : Nat) : slot n cursor idx + cursor ≡ idx [MOD n] := by
  have hlt := Nat.mod_lt cursor hn
  calc slot n cursor idx + cursor
    _ ≡ idx + n - cursor % n + cursor % n [MOD n] :=
      (Nat.mod_modEq _ _).add (Nat.mod_modEq _ _).symm
    _ = idx + n := by omega
    _ ≡ idx [MOD n] := by simp [Nat.ModEq]

/-- A sum of shares in which the slots are a permutation. -/
theorem sum_count {cursor idx : Nat → Nat} (batchSize : Nat) (hinj : ∀ s < n, ∀ t < n,
      slot n (cursor s) (idx s) = slot n (cursor t) (idx t) → s = t) :
    ∑ t ∈ range n, count batchSize n (cursor t) (idx t) = batchSize := by
  have hextra : ∑ t ∈ range n, (if slot n (cursor t) (idx t) < batchSize % n then 1 else 0) =
      batchSize % n :=
    sum_lt_of_injOn (fun t _ => Nat.mod_lt _ hn) hinj (Nat.mod_lt batchSize hn).le
  simp only [count, sum_add_distrib, hextra, sum_const, card_range]
  exact Nat.div_add_mod batchSize n

theorem sum_count_queues (batchSize cursor : Nat) :
    ∑ idx ∈ range n, count batchSize n cursor idx = batchSize := by
  refine sum_count hn batchSize fun s hs t ht heq => ?_
  have hs' := slot_modEq hn cursor s
  rw [heq] at hs'
  exact (hs'.symm.trans (slot_modEq hn cursor t)).eq_of_lt_of_lt hs ht

theorem sum_count_cursors (batchSize cursor idx : Nat) :
    ∑ k ∈ range n, count batchSize n (cursor + k) idx = batchSize := by
  refine sum_count hn batchSize fun s hs t ht heq => ?_
  have hs' := slot_modEq hn (cursor + s) idx
  rw [heq] at hs'
  have hst := Nat.ModEq.add_left_cancel' _ (hs'.trans (slot_modEq hn (cursor + t) idx).symm)
  exact (Nat.ModEq.add_left_cancel' _ hst).eq_of_lt_of_lt hs ht

/-- The answers that a read takes are within the shares of their queues. -/
theorem length_readMessages_le (batchSize cursor : Nat) {actors : List (SQSActor μ)}
    {receiveMessage : Nat → Nat → Option (List μ)} {order : List Nat}
    (hsqs : ∀ idx k, ∀ messages ∈ receiveMessage idx k, messages.length ≤ k)
    (hactors : actors.length = n) (horder : order.Nodup) :
    (readMessages batchSize cursor actors receiveMessage order).length ≤ batchSize := by
  subst hactors
  let share idx := if idx < actors.length then count batchSize actors.length cursor idx else 0
  have hanswers : (readMessages batchSize cursor actors receiveMessage order).length ≤
      (order.map share).sum := by
    rw [readMessages, List.length_flatMap]
    refine List.sum_le_sum fun idx _ => ?_
    cases ha : actors[idx]? with
    | none => exact Nat.zero_le _
    | some a =>
      obtain ⟨hlt, -⟩ := List.getElem?_eq_some_iff.mp ha
      simp only [share, hlt, if_true]
      split_ifs with hzero
      · exact Nat.zero_le _
      · exact SQSActor.length_response_le (hsqs idx) (Nat.one_le_iff_ne_zero.mpr hzero)
  calc (readMessages batchSize cursor actors receiveMessage order).length
    _ ≤ (order.map share).sum := hanswers
    _ = ∑ idx ∈ order.toFinset, share idx := (List.sum_toFinset _ horder).symm
    _ ≤ ∑ idx ∈ range actors.length, share idx := by
      refine sum_le_sum_of_ne_zero fun idx _ hne => ?_
      by_contra hnot
      exact hne (if_neg (by simpa using hnot))
    _ = batchSize := by
      rw [sum_congr rfl fun idx hidx => if_pos (mem_range.mp hidx)]
      exact sum_count_queues hn batchSize cursor

/-- The batch is divided exactly and evenly, every queue gets its part over a round of the
cursor, and a read returns no more than the batch. -/
theorem batch_budget (batchSize cursor : Nat) :
    ∑ idx ∈ range n, count batchSize n cursor idx = batchSize ∧
    (∀ i j, count batchSize n cursor i ≤ count batchSize n cursor j + 1) ∧
    (∀ idx, ∑ k ∈ range n, count batchSize n (cursor + k) idx = batchSize) ∧
    ∀ (actors : List (SQSActor μ)) (receiveMessage : Nat → Nat → Option (List μ))
      (order : List Nat), actors.length = n → order.Nodup →
      (∀ idx k, ∀ messages ∈ receiveMessage idx k, messages.length ≤ k) →
      (readMessages batchSize cursor actors receiveMessage order).length ≤ batchSize := by
  refine ⟨sum_count_queues hn _ _, fun i j => ?_, sum_count_cursors hn _ _, ?_⟩
  · simp only [count]
    split_ifs <;> omega
  · intro actors receiveMessage order hactors horder hsqs
    exact length_readMessages_le hn batchSize cursor hsqs hactors horder

omit hn in
/-- SQS has as many messages as it is asked for. -/
theorem length_answer_le : ∀ k, ∀ messages ∈ some (List.range k), messages.length ≤ k := by
  rintro k messages ⟨⟩
  exact (List.length_range).le

/-- Two new actors, of which one asks for at most two messages at a time, and one between them
with five messages of an answer that the reader did not take. -/
def threeActors : List (SQSActor Nat) :=
  [.new none, (SQSActor.new none).handleReceive length_answer_le 5 false, .new (some 2)]

omit hn in
/-- A read of ten messages takes four from the buffer, three from SQS and two from the queue that
answers with at most two. -/
theorem batch_budget_three :
    (threeActors.map fun a => a.buffered.length) = [0, 5, 0] ∧
      (readMessages 10 4 threeActors (fun _ k => some (List.range k)) [2, 0, 1]).length = 9 ∧
      (readMessages 10 4 threeActors (fun _ k => some (List.range k)) [2, 0, 1]).length ≤ 10 :=
  ⟨by decide, by decide, (batch_budget (by decide : 1 ≤ 3) 10 4).2.2.2 threeActors _ _ rfl
    (by decide) fun _ => length_answer_le⟩

end Numaflow.Sqs
