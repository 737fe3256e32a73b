import Numaflow.Lib.Fold
import Numaflow.Lib.Run
import Numaflow.Watermark.Processor

/-!
# Fetching watermarks

A vertex asks for the watermark of an offset that it read from a partition.  On every
incoming edge the answer is the smallest one of the processors' timelines; it is stored
for the edge and the partition, and the watermark that is returned is the smallest
stored one.  A deleted processor is removed once an offset beyond its heads is asked.

Main results: `Fetched.of_fetchWatermark`, `le_getWatermark_iff`.
-/

namespace Numaflow.Watermark

open Lib HashMap Option

/-- The largest 64-bit integer. -/
def i64Max : Int := 9223372036854775807

/-- The vertex of an edge with its partitions, and for an outgoing edge the delay between
two publications in nanoseconds. -/
structure BucketConfig where
  vertex : String
  partitions : List Nat
  delay : Option Nat := none

namespace ProcessorManager

section

variable (m : ProcessorManager) (offset : Int)

/-- The smallest watermark of the processors for an offset of a partition. -/
def epoch (partition : Nat) : Int :=
  ((HashMap.values m.processors).filterMap fun processor =>
    (processor.timelines.lookup partition).map fun t => t.getEventTime offset).foldl min i64Max

/-- The deleted processors whose heads the offset has passed. -/
def processorsToDelete : List String :=
  (m.processors.entries.filter fun e =>
    e.2.isDeleted && decide (e.2.headOffset < offset)).map fun e => e.1

/-- Remove the deleted processors whose heads the offset has passed. -/
def removeStale : ProcessorManager :=
  (m.processorsToDelete offset).foldl deleteProcessor m

end

end ProcessorManager

/-- The fetcher of a vertex. -/
structure ISBWatermarkFetcher where
  processorManagers : HashMap String ProcessorManager
  lastProcessedWm : HashMap String (HashMap Nat Int)

namespace ISBWatermarkFetcher

/-- A fetcher that has not processed any message. -/
def new (processorManagers : HashMap String ProcessorManager) (configs : List BucketConfig) :
    ISBWatermarkFetcher where
  processorManagers := processorManagers
  lastProcessedWm := configs.foldl (fun m config =>
    m.insert config.vertex
      (config.partitions.foldl (fun processed partition => processed.insert partition (-1)) ∅)) ∅

section

variable (f : ISBWatermarkFetcher)

/-- Store the watermark of an edge and a partition.  The code stops when it does not
know them. -/
def setLastProcessed (edge : String) (partition : Nat) (epoch : Int) :
    Option ISBWatermarkFetcher :=
  match f.lastProcessedWm.lookup edge with
  | none => none
  | some processed =>
    if partition ∈ processed then
      some { f with
        lastProcessedWm :=
          f.lastProcessedWm.insert edge (processed.insert partition epoch) }
    else none

/-- One edge of a fetch. -/
def fetchEdge (offset : Int) (partition : Nat) (f : ISBWatermarkFetcher) (edge : String) :
    Option ISBWatermarkFetcher :=
  match f.processorManagers.lookup edge with
  | none => some f
  | some m =>
    let f' := { f with
      processorManagers := f.processorManagers.insert edge (m.removeStale offset) }
    if m.epoch offset partition ≠ i64Max then
      f'.setLastProcessed edge partition (m.epoch offset partition)
    else some f'

/-- The smallest stored watermark. -/
def getWatermark : Int :=
  let minWm := ((HashMap.values f.lastProcessedWm).flatMap HashMap.values).foldl min i64Max
  if minWm = i64Max then -1 else minWm

/-- The watermark of an offset of a partition. -/
def fetchWatermark (offset : Int) (partition : Nat) :
    Option (ISBWatermarkFetcher × Int) :=
  (f.processorManagers.keys.foldlM (fetchEdge offset partition) f).map fun f' =>
    (f', f'.getWatermark)

/-- The stored watermark of an edge and a partition. -/
def stored (edge : String) (partition : Nat) : Option Int :=
  (f.lastProcessedWm.lookup edge).bind fun processed => processed.lookup partition

end

end ISBWatermarkFetcher

/-! ## Smallest watermarks -/

variable {v : Int}

namespace ProcessorManager

variable {m : ProcessorManager} {offset : Int} {partition : Nat}

theorem le_epoch_iff : v ≤ m.epoch offset partition ↔
      v ≤ i64Max ∧ m.All fun p t => p = partition → v ≤ t.getEventTime offset := by
  rw [epoch, le_foldl_min]
  refine and_congr_right fun _ => ?_
  simp only [List.mem_filterMap, mem_values, map_eq_some_iff]
  constructor
  · rintro h name processor hp p t ht rfl
    exact h _ ⟨processor, ⟨name, hp⟩, t, ht, rfl⟩
  · rintro h x ⟨processor, ⟨name, hp⟩, t, ht, rfl⟩
    exact h name processor hp partition t ht rfl

theorem epoch_le_max : m.epoch offset partition ≤ i64Max :=
  (le_epoch_iff.mp (le_refl _)).1

variable {Q : Nat → OffsetTimeline → Prop}

theorem All.removeStale (h : m.All Q) (offset : Int) : (m.removeStale offset).All Q :=
  h.deleteProcessors _

end ProcessorManager

namespace ISBWatermarkFetcher

variable {f f' : ISBWatermarkFetcher} {offset w epoch : Int} {partition : Nat}

theorem mem_stored_values : w ∈ (values f.lastProcessedWm).flatMap values ↔
      ∃ edge p, f.stored edge p = some w := by
  simp only [List.mem_flatMap, mem_values, stored, bind_eq_some_iff]
  constructor
  · rintro ⟨processed, ⟨edge, hedge⟩, p, hp⟩
    exact ⟨edge, p, processed, hedge, hp⟩
  · rintro ⟨edge, p, processed, hedge, hp⟩
    exact ⟨processed, ⟨edge, hedge⟩, p, hp⟩

/-- Every stored watermark is below the largest integer, which stands for no watermark. -/
def Proper (f : ISBWatermarkFetcher) : Prop :=
  ∀ edge p w, f.stored edge p = some w → w < i64Max

/-- The returned watermark is the smallest stored one, or the default when nothing is
stored. -/
theorem le_getWatermark_iff (h : f.Proper) :
    v ≤ f.getWatermark ↔ (∀ edge p w, f.stored edge p = some w → v ≤ w) ∧
      ((∀ edge p, f.stored edge p = none) → v ≤ -1) := by
  unfold getWatermark
  by_cases hnone : ∀ edge p, f.stored edge p = none
  · have hempty : (values f.lastProcessedWm).flatMap values = [] := by
      rw [List.eq_nil_iff_forall_not_mem]
      intro w hw
      obtain ⟨edge, p, hp⟩ := mem_stored_values.mp hw
      rw [hnone edge p] at hp
      cases hp
    simp only [hempty, List.foldl_nil, if_true, hnone]
    simp
  · obtain ⟨edge, p, w, hw⟩ : ∃ edge p w, f.stored edge p = some w := by
      push Not at hnone
      obtain ⟨edge, p, hp⟩ := hnone
      exact ⟨edge, p, ne_none_iff_exists'.mp hp⟩
    have hmin := (le_foldl_min.mp (le_refl
      (((values f.lastProcessedWm).flatMap values).foldl min i64Max))).2 w
      (mem_stored_values.mpr ⟨edge, p, hw⟩)
    have hlt := h edge p w hw
    rw [if_neg (by omega), le_foldl_min]
    constructor
    · rintro ⟨-, hall⟩
      exact ⟨fun edge p w hw => hall w (mem_stored_values.mpr ⟨edge, p, hw⟩),
        fun hall => absurd hall hnone⟩
    · rintro ⟨hall, -⟩
      refine ⟨(hall edge p w hw).trans hlt.le, fun w hw => ?_⟩
      obtain ⟨edge, p, hp⟩ := mem_stored_values.mp hw
      exact hall edge p w hp

/-! ## One fetch -/

variable {edge : String} {f'' : ISBWatermarkFetcher}

theorem stored_setLastProcessed (h : f.setLastProcessed edge partition epoch = some f') :
    f'.processorManagers = f.processorManagers ∧ (f.stored edge partition).isSome = true ∧
      ∀ e p, f'.stored e p = if e = edge ∧ p = partition then some epoch else f.stored e p := by
  unfold setLastProcessed at h
  split at h
  case h_1 => cases h
  case h_2 processed hprocessed =>
    split_ifs at h with hmem
    cases h
    refine ⟨rfl, ?_, fun e p => ?_⟩
    · simp only [stored, hprocessed, bind_some]
      exact AList.lookup_isSome.mpr hmem
    · exact lookup_insert_insert hprocessed partition epoch e p

/-- What a fetch stores for an edge and a partition. -/
def storedAfter (f : ISBWatermarkFetcher) (offset : Int) (partition : Nat) (edge : String)
    (p : Nat) : Option Int :=
  match f.processorManagers.lookup edge with
  | none => f.stored edge p
  | some m =>
    if p = partition ∧ m.epoch offset partition ≠ i64Max then
      some (m.epoch offset partition)
    else f.stored edge p

/-- The effect of a fetch on an edge. -/
structure Fetched (offset : Int) (partition : Nat) (edge : String) (f f' : ISBWatermarkFetcher) :
    Prop where
  managers : f'.processorManagers.lookup edge =
    (f.processorManagers.lookup edge).map fun m => m.removeStale offset
  stored : ∀ p, f'.stored edge p = f.storedAfter offset partition edge p
  known : ∀ m, f.processorManagers.lookup edge = some m →
    m.epoch offset partition ≠ i64Max → (f.stored edge partition).isSome = true

/-- Nothing happened to an edge. -/
structure SameEdge (edge : String) (f f' : ISBWatermarkFetcher) : Prop where
  managers : f'.processorManagers.lookup edge = f.processorManagers.lookup edge
  stored : ∀ p, f'.stored edge p = f.stored edge p

theorem SameEdge.trans (h : SameEdge edge f f') (h' : SameEdge edge f' f'') : SameEdge edge f f'' :=
  ⟨h'.managers.trans h.managers, fun p => (h'.stored p).trans (h.stored p)⟩

theorem Fetched.trans_same (h : Fetched offset partition edge f f') (h' : SameEdge edge f' f'') :
    Fetched offset partition edge f f'' :=
  ⟨h'.managers.trans h.managers, fun p => (h'.stored p).trans (h.stored p), h.known⟩

theorem SameEdge.trans_fetched (h : SameEdge edge f f') (h' : Fetched offset partition edge f' f'') :
    Fetched offset partition edge f f'' := by
  refine ⟨by rw [h'.managers, h.managers], fun p => ?_, fun m hm hne => ?_⟩
  · rw [h'.stored]
    simp only [storedAfter, h.managers, h.stored]
  · rw [← h.stored]
    exact h'.known m (h.managers.trans hm) hne

/-- One edge of a fetch only touches that edge. -/
theorem Fetched.of_fetchEdge (h : fetchEdge offset partition f edge = some f') :
    Fetched offset partition edge f f' ∧ ∀ e, e ≠ edge → SameEdge e f f' := by
  unfold fetchEdge at h
  split at h
  case h_1 hnone =>
    cases h
    refine ⟨⟨by rw [hnone]; rfl, fun p => by rw [storedAfter, hnone], fun m hm => ?_⟩,
      fun e he => ⟨rfl, fun p => rfl⟩⟩
    rw [hnone] at hm
    cases hm
  case h_2 m hm =>
    split_ifs at h with hepoch
    · obtain ⟨hmanagers, hknown, hstored⟩ := stored_setLastProcessed h
      refine ⟨⟨?_, fun p => ?_, fun _ _ _ => hknown⟩, fun e he => ⟨?_, fun p => ?_⟩⟩
      · rw [hmanagers, AList.lookup_insert, hm, map_some]
      · rw [hstored, storedAfter, hm]
        simp only [true_and, hepoch, and_true, ne_eq, not_false_eq_true]
        rfl
      · rw [hmanagers, AList.lookup_insert_ne he]
      · rw [hstored, if_neg fun h => he h.1]
        rfl
    · cases h
      refine ⟨⟨?_, fun p => ?_, fun m' hm' hne => ?_⟩, fun e he => ⟨?_, fun p => rfl⟩⟩
      · rw [AList.lookup_insert, hm, map_some]
      · simp only [storedAfter, hm, hepoch, and_false, if_false]
        rfl
      · rw [hm, some.injEq] at hm'
        exact absurd (hm' ▸ hne) hepoch
      · rw [AList.lookup_insert_ne he]

/-- The edges of a fetch do not touch each other. -/
theorem Fetched.of_foldlM {edges : List String} (hnodup : edges.Nodup)
    (h : edges.foldlM (fetchEdge offset partition) f = some f') :
    (∀ e ∈ edges, Fetched offset partition e f f') ∧ ∀ e, e ∉ edges → SameEdge e f f' := by
  induction edges generalizing f with
  | nil =>
    cases h
    exact ⟨fun e he => absurd he List.not_mem_nil, fun e _ => ⟨rfl, fun p => rfl⟩⟩
  | cons edge _ ih =>
    obtain ⟨f₁, h₁, hrest⟩ := bind_eq_some_iff.mp h
    rw [List.nodup_cons] at hnodup
    obtain ⟨hhead, hsame⟩ := of_fetchEdge h₁
    obtain ⟨htail, hsame'⟩ := ih hnodup.2 hrest
    refine ⟨fun e he => ?_, fun e he => ?_⟩
    · rcases List.mem_cons.mp he with rfl | he
      · exact hhead.trans_same (hsame' e hnodup.1)
      · have hne : e ≠ edge := fun heq => hnodup.1 (heq ▸ he)
        exact (hsame e hne).trans_fetched (htail e he)
    · rw [List.mem_cons, not_or] at he
      exact (hsame e he.1).trans (hsame' e he.2)

/-- A fetch treats every edge and returns the smallest stored watermark. -/
theorem Fetched.of_fetchWatermark (h : f.fetchWatermark offset partition = some (f', v)) :
    (∀ edge, Fetched offset partition edge f f') ∧ v = f'.getWatermark := by
  obtain ⟨g, hg, heq⟩ := map_eq_some_iff.mp h
  cases heq
  obtain ⟨hmem, hsame⟩ := of_foldlM f.processorManagers.keys_nodup hg
  refine ⟨fun edge => ?_, rfl⟩
  by_cases hedge : edge ∈ f.processorManagers.keys
  · exact hmem edge hedge
  · have hnone := AList.lookup_eq_none.mpr hedge
    refine ⟨by rw [(hsame edge hedge).managers, hnone]; rfl, fun p => ?_, fun m hm => ?_⟩
    · rw [(hsame edge hedge).stored, storedAfter, hnone]
    · rw [hnone] at hm
      cases hm

end ISBWatermarkFetcher
end Numaflow.Watermark
