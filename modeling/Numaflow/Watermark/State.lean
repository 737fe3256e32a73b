import Numaflow.Tracker
import Numaflow.Watermark.Publisher

/-!
# Watermark state of a vertex

A vertex fetches a watermark for every message it reads and publishes, for what it writes,
the lowest watermark of its work: for a reduce vertex one millisecond before the end of the
oldest window, otherwise the lowest watermark of the messages in flight.  When there is
neither and the input is idle, it passes the head idle watermark of the input on.

What the fetcher returns is an argument here.

Main results: `ISBWatermarkPublisher.watermarks_step`.
-/

namespace Numaflow.Watermark

open Lib List

/-! ## All watermarks of a publisher -/

namespace ISBWatermarkPublisher

variable {b : ISBWatermarkPublisher} {c : PublishCall}

/-- The watermarks that were written or are kept to be written. -/
def watermarks (b : ISBWatermarkPublisher) : List Int :=
  (HashMap.values b.lastPublishedWm).flatMap (fun states =>
      (HashMap.values states).map LastPublishedState.watermark) ++
    (HashMap.values b.otStores).flatMap fun written => written.map Wmb.watermark

variable {x : Int}

theorem mem_watermarks : x ∈ b.watermarks ↔ (∃ v p st, b.state v p = some st ∧ st.watermark = x) ∨
      ∃ v p, ∃ w ∈ b.written v p, w.watermark = x := by
  simp only [watermarks, mem_append, mem_flatMap, mem_map, HashMap.mem_values]
  constructor
  · rintro (⟨states, ⟨v, hv⟩, st, ⟨p, hp⟩, hx⟩ | ⟨written, ⟨v, hv⟩, w, hw, hx⟩)
    · refine .inl ⟨v, p, st, ?_, hx⟩
      rw [state, hv, Option.bind_some, hp]
    · refine .inr ⟨v, w.partition, w, ?_, hx⟩
      rw [ISBWatermarkPublisher.written, hv]
      exact mem_filter.mpr ⟨hw, decide_eq_true rfl⟩
  · rintro (⟨v, p, st, hst, hx⟩ | ⟨v, p, w, hw, hx⟩)
    · obtain ⟨states, hstates, hst⟩ := Option.bind_eq_some_iff.mp hst
      exact .inl ⟨states, ⟨v, hstates⟩, st, ⟨p, hst⟩, hx⟩
    · have hw := (mem_filter.mp hw).1
      cases hstore : b.otStores.lookup v with
      | none =>
        rw [hstore] at hw
        exact absurd hw not_mem_nil
      | some written =>
        rw [hstore] at hw
        exact .inr ⟨written, ⟨v, hstore⟩, w, hw, hx⟩

/-- A call adds no watermark but its own. -/
theorem watermarks_step (hx : x ∈ (b.step c).watermarks) : x ∈ b.watermarks ∨ x = c.watermark := by
  unfold step at hx
  cases hb : b.publishWatermark c with
  | none =>
    rw [hb] at hx
    exact .inl hx
  | some =>
    rw [hb, Option.getD_some] at hx
    have hpublished := Published.of_publishWatermark hb
    obtain ⟨st, last, hst, hlast, -, hwatermark, hwritten⟩ := hpublished.stream
    have hbest : last.watermark ∈ b.watermarks ∨ last.watermark = c.watermark := by
      rw [hwatermark]
      rcases max_choice st.watermark c.watermark with hmax | hmax
      · rw [hmax]
        exact .inl (mem_watermarks.mpr (.inl ⟨_, _, st, hst, rfl⟩))
      · exact .inr hmax
    rcases mem_watermarks.mp hx with ⟨v, p, st', hst', rfl⟩ | ⟨v, p, w, hw, rfl⟩
    · by_cases hsame : v = c.stream.vertex ∧ p = c.stream.partition
      · rw [hsame.1, hsame.2, hlast, Option.some.injEq] at hst'
        exact hst' ▸ hbest
      · rw [(hpublished.others v p hsame).1] at hst'
        exact .inl (mem_watermarks.mpr (.inl ⟨v, p, st', hst', rfl⟩))
    · by_cases hsame : v = c.stream.vertex ∧ p = c.stream.partition
      · rw [hsame.1, hsame.2] at hw
        rcases hwritten with hwritten | ⟨wmb, -, hww, hwritten⟩
        · rw [hwritten] at hw
          exact .inl (mem_watermarks.mpr (.inr ⟨_, _, w, hw, rfl⟩))
        · rw [hwritten, mem_append, mem_singleton] at hw
          rcases hw with hw | rfl
          · exact .inl (mem_watermarks.mpr (.inr ⟨_, _, w, hw, rfl⟩))
          · rw [hww]
            exact hbest
      · rw [(hpublished.others v p hsame).2] at hw
        exact .inl (mem_watermarks.mpr (.inr ⟨v, p, w, hw, rfl⟩))

variable {watermark : Int}

theorem watermarks_foldl_step {calls : List PublishCall}
    (hcalls : ∀ c ∈ calls, c.watermark = watermark) (hx : x ∈ (calls.foldl step b).watermarks) :
    x ∈ b.watermarks ∨ x = watermark := by
  induction calls generalizing b with
  | nil => exact .inl hx
  | cons c _ ih =>
    rw [forall_mem_cons] at hcalls
    rcases ih hcalls.2 hx with hx | hx
    · rcases watermarks_step hx with hx | hx
      · exact .inl hx
      · exact .inr (hx.trans hcalls.1)
    · exact .inr hx

end ISBWatermarkPublisher

/-! ## The state -/

/-- What a vertex knows of watermarks: what it has published, and the largest watermark it
has fetched. -/
structure ISBWatermarkState where
  publisher : ISBWatermarkPublisher
  latestFetchedWm : Int
  fromPartitions : List Nat

namespace ISBWatermarkState

/-- Nothing has been fetched. -/
def new (publisher : ISBWatermarkPublisher) (fromPartitions : List Nat) : ISBWatermarkState where
  publisher := publisher
  latestFetchedWm := fromTimestampMillis (-1)
  fromPartitions := fromPartitions

section

variable (s : ISBWatermarkState)

/-- The fetcher returns a watermark, in milliseconds. -/
def fetchWatermark (watermark : Int) : ISBWatermarkState :=
  { s with latestFetchedWm := max (fromTimestampMillis watermark) s.latestFetchedWm }

/-- The fetcher returns the head idle watermark message of a partition, if the partition is
idle. -/
def fetchHeadIdleWmb : Option Wmb → ISBWatermarkState
  | some wmb => s.fetchWatermark wmb.watermark
  | none => s

/-- One millisecond before the end of the oldest window, but not beyond the largest watermark
fetched; without windows the lowest watermark of the messages in flight. -/
def computeMinWatermark (oldestWindowEndTime : Option Int)
    (tracker : Tracker Int) : Int :=
  match oldestWindowEndTime with
  | some endTime => min s.latestFetchedWm (fromTimestampMillis (timestampMillis endTime - 1))
  | none => fromTimestampMillis (timestampMillis tracker.lowestWatermark)

/-- The watermark of an idle partition, when the tracker has noted the offset of its head. -/
def idleWatermarkOf (tracker : Tracker Int) (headIdleWmb : Nat → Option Wmb)
    (partitionIdx : Nat) : Option Int :=
  match tracker.getIdleOffset partitionIdx, headIdleWmb partitionIdx with
  | some idleOffset, some wmb => if wmb.offset = idleOffset then some wmb.watermark else none
  | _, _ => none

/-- The lowest idle watermark of the partitions, or -1 when one of them is not idle. -/
def getIdleWatermark (tracker : Tracker Int)
    (headIdleWmb : Nat → Option Wmb) : Int :=
  match s.fromPartitions.mapM (idleWatermarkOf tracker headIdleWmb) with
  | none => -1
  | some watermarks =>
    let minWm := watermarks.foldl min i64Max
    if minWm = i64Max then -1 else minWm

/-- Publish the computed watermark for a stream and offset. -/
def publishWatermark (call : PublishCall)
    (oldestWindowEndTime : Option Int) (tracker : Tracker Int) : ISBWatermarkState :=
  let minWm := timestampMillis (s.computeMinWatermark oldestWindowEndTime tracker)
  { s with publisher := s.publisher.step { call with watermark := minWm, idle := false } }

/-- The watermark for idle streams: the computed one, and when there is none that of the
idle input. -/
def idleWatermark (headIdleWmb : Nat → Option Wmb)
    (oldestWindowEndTime : Option Int) (tracker : Tracker Int) : Int :=
  let minWm := timestampMillis (s.computeMinWatermark oldestWindowEndTime tracker)
  if minWm = -1 then s.getIdleWatermark tracker headIdleWmb else minWm

/-- Publish a watermark for the streams that are idle, unless there is none. -/
def publishIdleWatermark (calls : List PublishCall)
    (headIdleWmb : Nat → Option Wmb) (oldestWindowEndTime : Option Int) (tracker : Tracker Int) :
    ISBWatermarkState :=
  let minWm := s.idleWatermark headIdleWmb oldestWindowEndTime tracker
  if minWm = -1 then s
  else
    { s with
      publisher := (calls.map fun call =>
        { call with watermark := minWm, idle := true }).foldl ISBWatermarkPublisher.step
          s.publisher }

end

variable {s : ISBWatermarkState} {tracker : Tracker Int}

end ISBWatermarkState
end Numaflow.Watermark
