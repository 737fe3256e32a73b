import Numaflow.Isb.Delivery
import Numaflow.Watermark.State

/-!
# The watermarks of a map vertex

A map vertex has a reader for every partition of its input; the readers share the tracker.
What the vertex publishes is the lowest watermark of the tracker, where only the first entry
of every partition counts, or the idle watermark of the input when the tracker reports
none.  A message that was nak'd is not tracked while it waits for its next delivery, and a
message that got its watermark is not tracked until it is inserted.

Main results: `Bounded.step`, `published_le_unacked`, `nak_passed`.
-/

namespace Numaflow.Watermark

open Lib Isb ISBWatermarkPublisher

/-- The batch size and the number of messages in flight of the readers. -/
structure MapVertexConfig where
  batchSize : Nat
  maxAckPending : Nat

def MapVertexConfig.reader (c : MapVertexConfig) (partition : Nat) : ISBReader where
  partition := partition
  batchSize := c.batchSize
  maxAckPending := c.maxAckPending

/-- The readers of the partitions, the tracker that they share, and the watermarks. -/
structure MapVertex where
  readers : Nat → ReaderState
  tracker : Tracker Int
  watermark : ISBWatermarkState

/-- A reader or one of its wip loops takes a step, or a watermark is published. -/
inductive VertexAction where
  | read (partition : Nat) (action : ReaderAction)
  | publishWatermark (call : PublishCall)
  | publishIdleWatermark (calls : List PublishCall) (headIdleWmb : Nat → Option Wmb)

namespace MapVertex

/-- The state that a reader sees. -/
def readState (v : MapVertex) (partition : Nat) : ReadState :=
  ⟨v.readers partition, v.tracker⟩

def step (c : MapVertexConfig) (v : MapVertex) (action : VertexAction) : MapVertex :=
  match action with
  | .read partition action =>
    if partition ∈ v.watermark.fromPartitions then
      let s := (v.readState partition).step (c.reader partition) action
      { v with readers := Function.update v.readers partition s.reader, tracker := s.tracker }
    else v
  | .publishWatermark call =>
    { v with watermark := v.watermark.publishWatermark call none v.tracker }
  | .publishIdleWatermark calls headIdleWmb =>
    { v with watermark := v.watermark.publishIdleWatermark calls headIdleWmb none v.tracker }

/-- Nothing has been read. -/
def new (c : MapVertexConfig) (publisher : ISBWatermarkPublisher) (fromPartitions : List Nat) :
    MapVertex where
  readers := fun _ => { permits := c.maxAckPending }
  tracker := Tracker.new
  watermark := ISBWatermarkState.new publisher fromPartitions

end MapVertex

/-- A watermark that is attached is not below a published one. -/
def AbovePublished (v : MapVertex) (action : ReaderAction) : Prop :=
  match action with
  | .attach watermark => ∀ x ∈ v.watermark.publisher.watermarks, x ≤ watermark
  | _ => True

instance (v : MapVertex) (action : ReaderAction) : Decidable (AbovePublished v action) := by
  apply action.casesOn (motive := fun a => Decidable (AbovePublished v a)) <;> intros <;>
    dsimp only [AbovePublished] <;> infer_instance

/-- The readers behave as in a run without naks, a watermark that is attached is not below a
published one, and nothing is published while a message has its watermark and is not
tracked. -/
def Undisturbed (v : MapVertex) (action : VertexAction) : Prop :=
  match action with
  | .read partition action => Steady (v.readState partition) action ∧ AbovePublished v action
  | .publishWatermark _ | .publishIdleWatermark _ _ =>
    ∀ partition ∈ v.watermark.fromPartitions, (v.readers partition).attaching = none

instance (v : MapVertex) (action : VertexAction) : Decidable (Undisturbed v action) := by
  unfold Undisturbed
  split <;> infer_instance

/-- The published watermarks are not above the watermark of a message that is not acked. -/
structure Bounded (c : MapVertexConfig) (v : MapVertex) : Prop where
  orderly : ∀ partition, Orderly (c.reader partition) (v.readState partition)
  idle : ∀ partition, partition ∉ v.watermark.fromPartitions →
    (v.readers partition).attaching = none
  published : ∀ partition i w, noted (v.readers partition).slots i = some w →
    stateAt (v.readers partition).slots i ≠ some .acked →
      ∀ x ∈ v.watermark.publisher.watermarks, x ≤ w

section

variable {c : MapVertexConfig} {v : MapVertex} (h : Bounded c v)

include h

variable {partition i : Nat} {w : Int} {action : ReaderAction}

/-- While a message is not acked, the computed watermark is not above the one it got. -/
theorem Bounded.computed_le
    (hidle : ∀ partition ∈ v.watermark.fromPartitions, (v.readers partition).attaching = none)
    (hnoted : noted (v.readers partition).slots i = some w)
    (hstate : stateAt (v.readers partition).slots i ≠ some .acked) :
    timestampMillis (v.watermark.computeMinWatermark none v.tracker) ≤ w ∧
      timestampMillis (v.watermark.computeMinWatermark none v.tracker) ≠ -1 := by
  have horderly := h.orderly partition
  have hattaching : (v.readers partition).attaching = none := by
    by_cases hmem : partition ∈ v.watermark.fromPartitions
    · exact hidle partition hmem
    · exact h.idle partition hmem
  -- the message is tracked with its watermark
  have htracked : v.tracker.Tracked partition i := by
    rcases horderly.tracked i w hnoted with hacked | ⟨watermark, hattached⟩ | htracked
    · exact absurd hacked hstate
    · cases hattaching.symm.trans hattached
    · exact htracked
  obtain ⟨e, he, hoffset⟩ := htracked
  obtain ⟨j, w', hj, hwatermark, hnoted'⟩ := horderly.entries e he
  obtain rfl : j = i := Int.ofNat_inj.mp (hj.symm.trans hoffset)
  obtain rfl : w' = w := Option.some.inj (hnoted'.symm.trans hnoted)
  obtain ⟨first, hfirst⟩ : ∃ first, (v.tracker.entriesOf partition).first = some first := by
    refine Option.ne_none_iff_exists'.mp fun hnone => ?_
    exact OrdSet.first_eq_none.mp hnone e he
  obtain ⟨w₀, hw₀, hle⟩ := horderly.first_le hfirst he hwatermark
  obtain ⟨hlowest, e', he', hlowest'⟩ := Tracker.lowestWatermark_le hfirst hw₀
  obtain ⟨q, hq⟩ := Tracker.exists_entriesOf he'
  obtain ⟨k, w₁, -, hw₁, hnoted₁⟩ := (h.orderly q).entries e' hq
  have hpositive := (h.orderly q).positive k w₁ hnoted₁
  have heq := Option.some.inj (hlowest'.symm.trans hw₁)
  rw [heq] at hlowest
  simp only [ISBWatermarkState.computeMinWatermark, heq, timestampMillis_fromTimestampMillis]
  unfold fromTimestampMillis at hlowest
  omega

theorem Bounded.publishWatermark (call : PublishCall)
    (hidle : ∀ partition ∈ v.watermark.fromPartitions, (v.readers partition).attaching = none) :
    Bounded c (v.step c (.publishWatermark call)) := by
  refine ⟨h.orderly, h.idle, fun partition i w hnoted hstate x hx => ?_⟩
  rcases watermarks_step hx with hx | rfl
  · exact h.published partition i w hnoted hstate x hx
  · exact (h.computed_le hidle hnoted hstate).1

theorem Bounded.publishIdleWatermark (calls : List PublishCall) (headIdleWmb : Nat → Option Wmb)
    (hidle : ∀ partition ∈ v.watermark.fromPartitions, (v.readers partition).attaching = none) :
    Bounded c (v.step c (.publishIdleWatermark calls headIdleWmb)) := by
  have hpartitions : (v.watermark.publishIdleWatermark calls headIdleWmb none
      v.tracker).fromPartitions = v.watermark.fromPartitions := by
    unfold ISBWatermarkState.publishIdleWatermark
    simp only
    split_ifs <;> rfl
  refine ⟨h.orderly, fun partition hp => h.idle partition (hpartitions ▸ hp),
    fun partition i w hnoted hstate x hx => ?_⟩
  obtain ⟨hle, hne⟩ := h.computed_le hidle hnoted hstate
  have hminWm : v.watermark.idleWatermark headIdleWmb none v.tracker =
      timestampMillis (v.watermark.computeMinWatermark none v.tracker) := if_neg hne
  simp only [MapVertex.step, ISBWatermarkState.publishIdleWatermark] at hx
  rw [hminWm, if_neg hne] at hx
  have hcalls : ∀ call ∈ calls.map fun call : PublishCall =>
      { call with
        watermark := timestampMillis (v.watermark.computeMinWatermark none v.tracker)
        idle := true },
      call.watermark = timestampMillis (v.watermark.computeMinWatermark none v.tracker) := by
    intro call hcall
    obtain ⟨call', -, rfl⟩ := List.mem_map.mp hcall
    rfl
  rcases watermarks_foldl_step hcalls hx with hx | hx
  · exact h.published partition i w hnoted hstate x hx
  · exact hx.trans_le hle

theorem Bounded.read (partition : Nat) (hok : Undisturbed v (.read partition action)) :
    Bounded c (v.step c (.read partition action)) := by
  simp only [MapVertex.step]
  split_ifs with hmem
  · refine ⟨fun p => ?_, fun p hp => ?_, fun p i w hnoted hstate => ?_⟩
    · by_cases hp : p = partition
      · subst hp
        have horderly := (h.orderly p).step rfl hok.1
        simpa [MapVertex.readState] using horderly
      · have hother := (h.orderly p).other (entriesOf_step (r := c.reader partition)
          (s := v.readState partition) action hp)
        simpa [MapVertex.readState, Function.update_of_ne hp] using hother
    · have hp' : p ≠ partition := fun heq => hp (heq ▸ hmem)
      simp only [Function.update_of_ne hp']
      exact h.idle p hp
    · by_cases hp : p = partition
      · subst hp
        simp only [Function.update_self] at hnoted hstate
        rcases noted_step action hnoted with hnoted | rfl
        · exact h.published p i w hnoted fun hacked => hstate (stateAt_step_acked action hacked)
        · exact hok.2
      · simp only [Function.update_of_ne hp] at hnoted hstate
        exact h.published p i w hnoted hstate
  · exact h

/-- One step keeps the published watermarks below the watermarks of the messages that are not acked.
-/
theorem Bounded.step {action : VertexAction} (hok : Undisturbed v action) : Bounded c (v.step c action) := by
  cases action with
  | read partition => exact h.read partition hok
  | publishWatermark call => exact h.publishWatermark call hok
  | publishIdleWatermark calls headIdleWmb => exact h.publishIdleWatermark calls headIdleWmb hok

omit h in
theorem Bounded.new (c : MapVertexConfig) (publisher : ISBWatermarkPublisher)
    (fromPartitions : List Nat) : Bounded c (MapVertex.new c publisher fromPartitions) where
  orderly partition := by
    have hempty : ∀ e, e ∉ (Tracker.new : Tracker Int).entriesOf partition := fun e he =>
      OrdSet.not_mem_empty e he
    exact Orderly.new (c.reader partition) hempty
  idle _ _ := rfl
  published partition i w hnoted := by simp [MapVertex.new, noted] at hnoted

end

/-- In a run without naks, in which the watermarks of a partition never decrease, are not
below a published one, and nothing is published while a message is about to be tracked, no
published watermark is above the watermark that a message got, as long as the message is
not acked. -/
theorem published_le_unacked (c : MapVertexConfig) (publisher : ISBWatermarkPublisher)
    (fromPartitions : List Nat) (actions : List VertexAction)
    (hrun : Along Undisturbed (MapVertex.step c) (MapVertex.new c publisher fromPartitions) actions)
    (partition offset : Nat) (slot : BufferSlot)
    (hslot : ((exec (MapVertex.step c) (MapVertex.new c publisher fromPartitions)
      actions).readers partition).slots[offset]? = some slot)
    (hstate : slot.state ≠ .acked) (w : Int) (hw : slot.firstWatermark = some w) :
    ∀ x ∈ (exec (MapVertex.step c) (MapVertex.new c publisher fromPartitions)
      actions).watermark.publisher.watermarks, x ≤ w := by
  have hbounded : Bounded c
      (exec (MapVertex.step c) (MapVertex.new c publisher fromPartitions) actions) :=
    exec_invariant (I := Bounded c) (fun _ _ h hok => h.step hok)
      (Bounded.new c publisher fromPartitions) hrun
  refine hbounded.published partition offset w ?_ fun hacked => hstate ?_
  · rw [noted, hslot, Option.bind_some, hw]
  · rw [stateAt, hslot, Option.map_some] at hacked
    exact Option.some.inj hacked

/-- The actions of reading a message that gets a watermark. -/
def readOne (watermark : Int) : List VertexAction :=
  [.read 0 .isCancelled, .read 0 .acquire, .read 0 (.fetch 1),
    .read 0 (.handleIdleWatermarks none), .read 0 (.attach watermark), .read 0 (.insert true),
    .read 0 (.send true)]

/-- The first of two messages is acked before the watermark is published. -/
theorem published_le_unacked_acked : let c : MapVertexConfig := ⟨1, 2⟩
    let publisher := new ["out"] [⟨"out", [0], none⟩] 0
    let actions := [VertexAction.read 0 (.write .data 0), .read 0 (.write .data 0)] ++ readOne 10 ++
      readOne 20 ++ [.publishWatermark (outCall 0 0), .read 0 (.outcome 0 .ack),
      .read 0 (.attempt 0 true .ok), .read 0 (.delete 0),
      .publishWatermark (outCall 1 0)]
    ∀ x ∈ (exec (MapVertex.step c) (MapVertex.new c publisher [0])
      actions).watermark.publisher.watermarks, x ≤ 20 := by
  intro c publisher actions
  have hrun : Along Undisturbed (MapVertex.step c) (MapVertex.new c publisher [0]) actions := by
    decide +kernel
  have hslot : ((exec (MapVertex.step c) (MapVertex.new c publisher [0])
      actions).readers 0).slots[1]? = some ⟨.data, 0, .inFlight, some 20⟩ := by
    decide +kernel
  exact published_le_unacked c publisher [0] actions hrun 0 1 _ hslot (by decide) 20 rfl

/-- The first of two messages is nak'd; before it is delivered again, the watermark of the
second one is published. -/
theorem nak_passed : let c : MapVertexConfig := ⟨1, 2⟩
    let publisher := new ["out"] [⟨"out", [0], none⟩] 0
    let actions := [VertexAction.read 0 (.write .data 0), .read 0 (.write .data 0)] ++ readOne 10 ++
      readOne 20 ++ [.read 0 (.outcome 0 (.nak none)), .read 0 (.attempt 0 true .ok),
      .read 0 (.delete 0), .publishWatermark (outCall 0 0)]
    let v := exec (MapVertex.step c) (MapVertex.new c publisher [0]) actions
    (v.readers 0).slots[0]? = some ⟨.data, 0, .pending, some 10⟩ ∧
      (v.watermark.publisher.written "out" 0).map Wmb.watermark = [20] := by
  decide

end Numaflow.Watermark
