import Numaflow.Handle
import Numaflow.Reduce.Unaligned.Windower

/-!
# Identities of session results

The responses of a session reducer become messages whose identity is made of the window and an
index.  The index counts, in 32 bits, the responses with the same keys since the last window of
these keys ended.

Main results: `identities_exec`.
-/

namespace Numaflow.Unaligned

open Lib List

/-- A response of the user's session reducer; a window ends with a response that has no result. -/
structure SessionReduceResponse where
  keyedWindow : Window
  eof : Bool := false
  keys : List String := []
  tags : List String := []
  value : List UInt8 := []
deriving DecidableEq, Repr

def Window.offsetStr (window : Window) : String :=
  toString (timestampMillis window.startTime) ++ "-" ++
    toString (timestampMillis window.endTime) ++ "-" ++ combineKeys window.keys

/-- The identity of the result of a window; its index is signed. -/
def Window.messageID (vertexName : String) (vertexReplica : Nat) (window : Window)
    (index : UInt32) : MessageID :=
  ⟨vertexName ++ "-" ++ toString vertexReplica, window.offsetStr, index.toInt32⟩

/-- An identity tells the text of the window and the index. -/
theorem Window.messageID_inj {vertexName : String} {vertexReplica : Nat} {window window' : Window}
    {index index' : UInt32} (h : window.messageID vertexName vertexReplica index =
      window'.messageID vertexName vertexReplica index') :
    (window.offsetStr, index) = (window'.offsetStr, index') := by
  simp only [messageID, MessageID.mk.injEq, true_and] at h
  have hindex := Function.LeftInverse.injective UInt32.toUInt32_toInt32 h.2
  rw [h.1, hindex]

/-- The message of a response. -/
def SessionReduceResponse.toMessage (vertexName : String) (vertexReplica : Nat)
    (response : SessionReduceResponse) (index : UInt32) : TaggedMessage where
  keys := response.keys
  tags := if response.tags.isEmpty then none else some response.tags
  value := response.value
  eventTime := response.keyedWindow.endTime - 1000000
  watermark := some (response.keyedWindow.endTime - 1000000)
  id := response.keyedWindow.messageID vertexName vertexReplica index

/-- The task that receives the responses, with the responses and indices that it has sent on,
latest first. -/
structure ResponseTask where
  responseIndices : HashMap (List String) UInt32 := ∅
  sent : List (SessionReduceResponse × UInt32) := []

namespace ResponseTask

/-- One response. -/
def step (task : ResponseTask) (response : SessionReduceResponse) : ResponseTask :=
  let windowKeys := response.keyedWindow.keys
  if response.eof then
    ⟨task.responseIndices.erase windowKeys, (response, 0) :: task.sent⟩
  else
    let index := (task.responseIndices.lookup windowKeys).getD 0
    ⟨task.responseIndices.insert windowKeys (index + 1), (response, index) :: task.sent⟩

/-- A result of the window. -/
def isResult (window : Window) (x : SessionReduceResponse × UInt32) : Bool :=
  !x.1.eof && decide (x.1.keyedWindow = window)

/-- The response is not the end of a window with the keys. -/
def notEnd (keys : List String) (x : SessionReduceResponse × UInt32) : Bool :=
  !(x.1.eof && decide (x.1.keyedWindow.keys = keys))

/-- Since the last window of the keys ended, all responses with these keys are of the window of
the response, the window had no results before that and less than 2 ^ 32 since, and no other
window has its identity. -/
def Orderly (task : ResponseTask) (response : SessionReduceResponse) : Prop :=
  response.eof = false →
    (∀ x ∈ task.sent.takeWhile (notEnd response.keyedWindow.keys),
      x.1.keyedWindow.keys = response.keyedWindow.keys → x.1.keyedWindow = response.keyedWindow) ∧
    (∀ x ∈ task.sent.dropWhile (notEnd response.keyedWindow.keys),
      isResult response.keyedWindow x = false) ∧
    task.sent.countP (isResult response.keyedWindow) < 2 ^ 32 ∧
    ∀ x ∈ task.sent, x.1.keyedWindow.offsetStr = response.keyedWindow.offsetStr →
      x.1.keyedWindow = response.keyedWindow
deriving Decidable

/-- The indices count the responses of their keys, what has been sent has its position in its
window, and no two results have the same identity. -/
structure Indexed (task : ResponseTask) : Prop where
  counted : ∀ keys, (task.responseIndices.lookup keys).getD 0 = UInt32.ofNat
    ((task.sent.takeWhile (notEnd keys)).countP fun x => decide (x.1.keyedWindow.keys = keys))
  positions : ∀ x older, x :: older <:+ task.sent → x.1.eof = false →
    x.2 = UInt32.ofNat (older.countP (isResult x.1.keyedWindow))
  distinct : (task.sent.filter fun x => !x.1.eof).Pairwise fun x y =>
    (x.1.keyedWindow.offsetStr, x.2) ≠ (y.1.keyedWindow.offsetStr, y.2)

variable {task : ResponseTask} {response : SessionReduceResponse}

/-- The index of a response is its position among the results of its window. -/
theorem Indexed.index_eq (h : task.Indexed) (horderly : task.Orderly response)
    (heof : response.eof = false) :
    (task.responseIndices.lookup response.keyedWindow.keys).getD 0 =
      UInt32.ofNat (task.sent.countP (isResult response.keyedWindow)) := by
  obtain ⟨hown, hnew, -⟩ := horderly heof
  have hnone : (task.sent.dropWhile (notEnd response.keyedWindow.keys)).countP
      (isResult response.keyedWindow) = 0 :=
    countP_eq_zero.mpr fun x hx => by simp [hnew x hx]
  rw [h.counted, ← takeWhile_append_dropWhile (p := notEnd response.keyedWindow.keys)
    (l := task.sent), countP_append, hnone, takeWhile_append_dropWhile, Nat.add_zero]
  congr 1
  refine countP_congr fun x hx => ?_
  have hend := all_eq_true.mp all_takeWhile x hx
  simp only [notEnd, isResult] at hend ⊢
  grind

/-- The next response gets the next index of its keys. -/
theorem Indexed.step (h : task.Indexed) (horderly : task.Orderly response) :
    (task.step response).Indexed := by
  unfold ResponseTask.step
  cases heof : response.eof with
  | true =>
    refine ⟨fun keys => ?_, fun x older hsuffix hx => ?_, ?_⟩
    · have hcounted := h.counted keys
      by_cases hkeys : response.keyedWindow.keys = keys
      · subst hkeys
        simp [notEnd, heof]
      · simp [notEnd, heof, hkeys, AList.lookup_erase_ne (Ne.symm hkeys), hcounted]
    · rcases suffix_cons_iff.mp hsuffix with heq | hsuffix
      · cases heq
        rw [heof] at hx
        cases hx
      · exact h.positions x older hsuffix hx
    · simpa [heof] using h.distinct
  | false =>
    have hindex := h.index_eq horderly heof
    refine ⟨fun keys => ?_, fun x older hsuffix hx => ?_, ?_⟩
    · have hcounted := h.counted keys
      by_cases hkeys : response.keyedWindow.keys = keys
      · subst hkeys
        simp [notEnd, heof, hcounted, UInt32.ofNat_add]
      · simp [notEnd, heof, hkeys, AList.lookup_insert_ne (Ne.symm hkeys), hcounted]
    · rcases suffix_cons_iff.mp hsuffix with heq | hsuffix
      · cases heq
        exact hindex
      · exact h.positions x older hsuffix hx
    · simp only [Bool.false_eq_true, if_false, filter_cons, heof, Bool.not_false, if_true, pairwise_cons]
      refine ⟨fun x hx heq => ?_, h.distinct⟩
      obtain ⟨hmem, hx⟩ := mem_filter.mp hx
      rw [Bool.not_eq_true'] at hx
      rw [Prod.mk.injEq] at heq
      obtain ⟨-, -, hcount, hown⟩ := horderly heof
      have hwindow := hown x hmem heq.1.symm
      obtain ⟨newer, older, hsent⟩ := append_of_mem hmem
      have hposition := h.positions x older (hsent ▸ suffix_append newer _) hx
      rw [hsent, countP_append, countP_cons_of_pos (by simp [isResult, hx, hwindow])]
        at hindex hcount
      rw [hwindow] at hposition
      have hsame := hindex.symm.trans (heq.2.trans hposition)
      rw [← UInt32.toNat_inj, UInt32.toNat_ofNat_of_lt' (by simpa using hcount),
        UInt32.toNat_ofNat_of_lt' (by simp only [UInt32.size]; omega)] at hsame
      omega

theorem Indexed.init : ({} : ResponseTask).Indexed :=
  ⟨fun _ => rfl, fun _ _ h => absurd (suffix_nil.mp h) (cons_ne_nil _ _), Pairwise.nil⟩

/-- In an orderly sequence of responses a result is identified by its window and by the number of
results that the window had before, and no two results have the same identity. -/
theorem identities_exec (vertexName : String) (vertexReplica : Nat)
    {responses : List SessionReduceResponse} (hrun : Along Orderly step {} responses) :
    (∀ x older, x :: older <:+ (exec step {} responses).sent → x.1.eof = false →
      (x.1.toMessage vertexName vertexReplica x.2).id = x.1.keyedWindow.messageID vertexName
        vertexReplica (.ofNat (older.countP (isResult x.1.keyedWindow)))) ∧
    (((exec step {} responses).sent.filter fun x => !x.1.eof).map fun x =>
      (x.1.toMessage vertexName vertexReplica x.2).id).Nodup := by
  have h := exec_invariant (fun _ _ h hok => Indexed.step h hok) Indexed.init hrun
  refine ⟨fun x older hsuffix hx => ?_, ?_⟩
  · rw [← h.positions x older hsuffix hx]
    rfl
  · exact pairwise_map.mpr (h.distinct.imp fun hne heq => hne (Window.messageID_inj heq))

/-- A window of the keys, with the given end. -/
def sessionAt (endTime : Int) : Window :=
  ⟨0, endTime, ["a"]⟩

/-- Two windows of the same keys, one after the other. -/
def oneByOne : List SessionReduceResponse :=
  [{ keyedWindow := sessionAt 5000000 }, { keyedWindow := sessionAt 5000000 },
    { keyedWindow := sessionAt 5000000, eof := true }, { keyedWindow := sessionAt 9000000 }]

theorem oneByOne_identities : (((exec step {} oneByOne).sent.filter fun x => !x.1.eof).map fun x =>
    (x.1.toMessage "reduce" 0 x.2).id).Nodup :=
  (identities_exec "reduce" 0 (by decide)).2

/-- Two windows of the same keys at once. -/
def atOnce : List SessionReduceResponse :=
  [{ keyedWindow := sessionAt 5000000 }, { keyedWindow := sessionAt 9000000 },
    { keyedWindow := sessionAt 9000000, eof := true }, { keyedWindow := sessionAt 5000000 }]

/-- The first result of the second window has index 1, and the end of the window makes the next
result of the first window start at 0 again. -/
theorem atOnce_identities : (exec step {} atOnce).sent.map Prod.snd = [0, 0, 1, 0] ∧
      ¬(((exec step {} atOnce).sent.filter fun x => !x.1.eof).map fun x =>
        (x.1.toMessage "reduce" 0 x.2).id).Nodup := by
  decide

end ResponseTask
end Numaflow.Unaligned
