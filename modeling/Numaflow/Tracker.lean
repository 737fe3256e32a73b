import Numaflow.Lib.HashMap
import Numaflow.Lib.OrdSet
import Numaflow.Message

/-!
# The tracker of messages in flight

A vertex tracks every message that it has read until the message is acknowledged.  The
entries of a partition are sorted by the offset; the offsets of a buffer or a source are of
one kind, which is the parameter `ο`.  For every partition the tracker also keeps the
offset of the head watermark message that the reader saw when it found nothing to read.

Main results: `Tracker.bounded_iff`.
-/

namespace Numaflow

open Lib OrdSet HashMap

/-- What the tracker keeps of a message. -/
structure TrackerEntry (ο : Type) where
  offset : ο
  watermark : Option Int
  eventTime : Int

structure Tracker (ο : Type) [LinearOrder ο] where
  entries : HashMap Nat (OrdSet (TrackerEntry.offset : TrackerEntry ο → ο))
  idleOffsetMap : HashMap Nat (Option Int)

namespace Tracker

variable {ο : Type} [LinearOrder ο]

/-- A tracker without messages. -/
def new : Tracker ο :=
  ⟨∅, ∅⟩

section

variable (t : Tracker ο) (partitionIdx : Nat)

/-- The entries of a partition. -/
def entriesOf :
    OrdSet (TrackerEntry.offset : TrackerEntry ο → ο) :=
  (t.entries.lookup partitionIdx).getD OrdSet.empty

/-- Track a message, unless its offset is tracked already. -/
def insert (entry : TrackerEntry ο) : Option (Tracker ο) :=
  if (t.entriesOf partitionIdx).contains entry then none
  else
    some { t with
      entries := t.entries.insert partitionIdx ((t.entriesOf partitionIdx).insert entry) }

/-- Forget the message with the offset. -/
def delete (offset : ο) : Tracker ο :=
  match t.entries.lookup partitionIdx with
  | none => t
  | some partitionEntries =>
    { t with
      entries := t.entries.insert partitionIdx
        (partitionEntries.filter fun entry => decide (entry.offset ≠ offset)) }

/-- The least of the watermarks that come first in their partitions. -/
def lowestWatermark (t : Tracker ο) : Int :=
  (((HashMap.values t.entries).filterMap fun partitionEntries =>
    partitionEntries.first.bind TrackerEntry.watermark).min?).getD (fromTimestampMillis (-1))

/-- Note that a partition is idle, or that it is not. -/
def setIdleOffset (idleOffset : Option Int) : Tracker ο :=
  { t with idleOffsetMap := t.idleOffsetMap.insert partitionIdx idleOffset }

/-- The idle offset of a partition, if the partition is idle. -/
def getIdleOffset : Option Int :=
  (t.idleOffsetMap.lookup partitionIdx).join

end

/-- An entry of some partition. -/
def Tracks (t : Tracker ο) (entry : TrackerEntry ο) : Prop :=
  ∃ partitionEntries ∈ HashMap.values t.entries, entry ∈ partitionEntries

variable {t t' : Tracker ο} {entry e : TrackerEntry ο} {partitionIdx : Nat}

theorem tracks_of_entriesOf (he : e ∈ t.entriesOf partitionIdx) : t.Tracks e := by
  unfold entriesOf at he
  cases hlookup : t.entries.lookup partitionIdx with
  | none =>
    rw [hlookup] at he
    exact absurd he (not_mem_empty e)
  | some partitionEntries =>
    rw [hlookup] at he
    exact ⟨partitionEntries, mem_values.mpr ⟨partitionIdx, hlookup⟩, he⟩

variable {offset : ο} {p : Nat}

/-- The offset is tracked for a partition. -/
def Tracked (t : Tracker ο) (partitionIdx : Nat) (offset : ο) : Prop :=
  ∃ e ∈ (t.entriesOf partitionIdx).toList, e.offset = offset
deriving Decidable

theorem not_tracked_new (partitionIdx : Nat) (offset : ο) :
    ¬ (new : Tracker ο).Tracked partitionIdx offset := by
  rintro ⟨e, he, -⟩
  exact not_mem_empty e he

/-- Only an offset that is tracked is refused. -/
theorem insert_eq_none_iff :
    t.insert partitionIdx entry = none ↔ t.Tracked partitionIdx entry.offset := by
  unfold insert
  rw [ite_eq_left_iff, contains_iff]
  constructor
  · intro h
    by_contra hnot
    cases h hnot
  · intro h hnot
    exact absurd h hnot

theorem entriesOf_replace (t : Tracker ο)
    (partitionEntries : OrdSet (TrackerEntry.offset : TrackerEntry ο → ο)) (p q : Nat) :
    entriesOf { t with entries := t.entries.insert p partitionEntries } q =
      if q = p then partitionEntries else t.entriesOf q := by
  unfold entriesOf
  split_ifs with hq
  · rw [hq, AList.lookup_insert, Option.getD_some]
  · rw [AList.lookup_insert_ne hq]

/-- A message that is taken is tracked for its partition. -/
theorem mem_entriesOf_insert (h : t.insert partitionIdx entry = some t') :
    e ∈ t'.entriesOf p ↔ e ∈ t.entriesOf p ∨ p = partitionIdx ∧ e = entry := by
  have hnew : ¬ t.Tracked partitionIdx entry.offset := by
    rw [← insert_eq_none_iff, h]
    exact Option.some_ne_none t'
  unfold insert at h
  split_ifs at h
  rw [← Option.some.inj h, entriesOf_replace]
  split_ifs with hp
  · rw [mem_insert_new fun b hb hkey => hnew ⟨b, hb, hkey⟩, hp, or_comm]
    exact or_congr_right (and_iff_right rfl).symm
  · exact (or_iff_left fun h => hp h.1).symm

/-- A deleted message is not tracked for its partition any more. -/
theorem mem_entriesOf_delete : e ∈ (t.delete partitionIdx offset).entriesOf p ↔
      e ∈ t.entriesOf p ∧ ¬ (p = partitionIdx ∧ e.offset = offset) := by
  unfold delete
  cases hlookup : t.entries.lookup partitionIdx with
  | none =>
    refine (and_iff_left_of_imp fun he hp => ?_).symm
    rw [hp.1, entriesOf, hlookup] at he
    exact not_mem_empty e he
  | some =>
    rw [entriesOf_replace]
    split_ifs with hp
    · rw [hp, entriesOf, hlookup]
      simp
    · exact (and_iff_left fun h => hp h.1).symm

theorem tracked_insert (h : t.insert partitionIdx entry = some t') :
    t'.Tracked p offset ↔ t.Tracked p offset ∨ p = partitionIdx ∧ offset = entry.offset := by
  constructor
  · rintro ⟨e, he, rfl⟩
    rcases (mem_entriesOf_insert h).mp he with he | ⟨hp, rfl⟩
    · exact .inl ⟨e, he, rfl⟩
    · exact .inr ⟨hp, rfl⟩
  · rintro (⟨e, he, rfl⟩ | ⟨hp, rfl⟩)
    · exact ⟨e, (mem_entriesOf_insert h).mpr (.inl he), rfl⟩
    · exact ⟨entry, (mem_entriesOf_insert h).mpr (.inr ⟨hp, rfl⟩), rfl⟩

variable {other : ο} {idleOffset : Option Int} {w watermark : Int}

theorem tracked_delete : (t.delete partitionIdx offset).Tracked p other ↔
      t.Tracked p other ∧ ¬ (p = partitionIdx ∧ other = offset) := by
  constructor
  · rintro ⟨e, he, rfl⟩
    exact ⟨⟨e, (mem_entriesOf_delete.mp he).1, rfl⟩, (mem_entriesOf_delete.mp he).2⟩
  · rintro ⟨⟨e, he, rfl⟩, hne⟩
    exact ⟨e, mem_entriesOf_delete.mpr ⟨he, hne⟩, rfl⟩

@[simp]
theorem tracked_setIdleOffset :
    (t.setIdleOffset partitionIdx idleOffset).Tracked p offset ↔ t.Tracked p offset :=
  Iff.rfl

/-- An entry of some partition is an entry of that partition. -/
theorem exists_entriesOf (h : t.Tracks e) : ∃ p, e ∈ t.entriesOf p := by
  obtain ⟨partitionEntries, hmem, he⟩ := h
  obtain ⟨p, hp⟩ := mem_values.mp hmem
  refine ⟨p, ?_⟩
  rw [entriesOf, hp]
  exact he

/-! ## The lowest watermark -/

/-- A partition begins with an entry of this watermark. -/
def Begins (t : Tracker ο) (w : Int) : Prop :=
  ∃ p e, (t.entriesOf p).first = some e ∧ e.watermark = some w

theorem Begins.tracks (h : t.Begins w) : ∃ e, t.Tracks e ∧ e.watermark = some w := by
  obtain ⟨p, e, hfirst, hw⟩ := h
  exact ⟨e, tracks_of_entriesOf (first_mem hfirst), hw⟩

theorem mem_firsts : w ∈ ((values t.entries).filterMap fun partitionEntries =>
    partitionEntries.first.bind TrackerEntry.watermark) ↔ t.Begins w := by
  simp only [List.mem_filterMap, mem_values, Option.bind_eq_some_iff]
  constructor
  · rintro ⟨partitionEntries, ⟨p, hp⟩, e, hfirst, hw⟩
    exact ⟨p, e, by rw [entriesOf, hp]; exact hfirst, hw⟩
  · rintro ⟨p, e, hfirst, hw⟩
    cases hlookup : t.entries.lookup p with
    | none =>
      rw [entriesOf, hlookup] at hfirst
      cases hfirst
    | some partitionEntries =>
      rw [entriesOf, hlookup] at hfirst
      exact ⟨partitionEntries, ⟨p, hlookup⟩, e, hfirst, hw⟩

/-- The reported watermark is the least one that a partition begins with, if there is any. -/
theorem lowestWatermark_spec (t : Tracker ο) :
    (∀ w, t.Begins w → t.lowestWatermark ≤ w ∧ t.Begins t.lowestWatermark) ∧
      (t.lowestWatermark = fromTimestampMillis (-1) ∨ t.Begins t.lowestWatermark) := by
  unfold lowestWatermark
  cases hmin : ((values t.entries).filterMap fun partitionEntries =>
      partitionEntries.first.bind TrackerEntry.watermark).min? with
  | none =>
    refine ⟨fun w hw => ?_, .inl rfl⟩
    rw [← mem_firsts, List.min?_eq_none_iff.mp hmin] at hw
    cases hw
  | some =>
    obtain ⟨hmem, hle⟩ := List.min?_eq_some_iff.mp hmin
    have hbegins := mem_firsts.mp hmem
    exact ⟨fun w hw => ⟨hle w (mem_firsts.mpr hw), hbegins⟩, .inr hbegins⟩

/-- The reported watermark is not above the watermark of the first entry of a partition. -/
theorem lowestWatermark_le (hfirst : (t.entriesOf partitionIdx).first = some entry)
    (hwatermark : entry.watermark = some watermark) :
    t.lowestWatermark ≤ watermark ∧ ∃ e, t.Tracks e ∧ e.watermark = some t.lowestWatermark := by
  obtain ⟨hle, hbegins⟩ := t.lowestWatermark_spec.1 _ ⟨partitionIdx, entry, hfirst, hwatermark⟩
  exact ⟨hle, hbegins.tracks⟩

/-- The reported watermark is not above that of any message in flight, and it is the value for
no watermark only when no message in flight has one. -/
def Bounded (t : Tracker ο) : Prop :=
  ∀ e, t.Tracks e → ∀ w ∈ e.watermark,
    t.lowestWatermark ≤ w ∧ t.lowestWatermark ≠ fromTimestampMillis (-1)

/-- For every message in flight that has a watermark, a partition begins with a watermark that
is not later; and no message has the value for no watermark as the earliest one. -/
def BeginsEarliest (t : Tracker ο) : Prop :=
  ∀ e, t.Tracks e → ∀ w ∈ e.watermark, (∃ w' ≤ w, t.Begins w') ∧
    (w = fromTimestampMillis (-1) → ∃ e', t.Tracks e' ∧ ∃ w' ∈ e'.watermark, w' < w)

/-- Only the first entry of each partition is looked at. -/
theorem bounded_iff (t : Tracker ο) : t.Bounded ↔ t.BeginsEarliest := by
  obtain ⟨hleast, hcases⟩ := t.lowestWatermark_spec
  constructor
  · intro h e he w hw
    obtain ⟨hle, hne⟩ := h e he w hw
    have hbegins := hcases.resolve_left hne
    refine ⟨⟨_, hle, hbegins⟩, fun hnone => ?_⟩
    obtain ⟨e', he', hw'⟩ := hbegins.tracks
    exact ⟨e', he', _, hw', lt_of_le_of_ne hle (hnone ▸ hne)⟩
  · intro h e he w hw
    obtain ⟨⟨w', hle, hw'⟩, -⟩ := h e he w hw
    obtain ⟨hlowest, hbegins⟩ := hleast w' hw'
    refine ⟨hlowest.trans hle, fun hnone => ?_⟩
    -- an earlier message would be at the beginning of a partition, or behind an even earlier one
    obtain ⟨e₁, he₁, hw₁⟩ := hbegins.tracks
    obtain ⟨e₂, he₂, w₂, hw₂, hlt⟩ := (h e₁ he₁ _ hw₁).2 hnone
    obtain ⟨w₃, hle₃, hw₃⟩ := (h e₂ he₂ w₂ hw₂).1
    exact absurd hlt (not_lt.mpr ((hleast w₃ hw₃).1.trans hle₃))

/-- Two messages of a partition; the watermark of the second one is earlier. -/
theorem not_bounded_of_earlier : ∃ t, ((new : Tracker Int).insert 0 ⟨1, some 100000000, 0⟩).bind
        (fun t => t.insert 0 ⟨2, some 50000000, 0⟩) = some t ∧ ¬ t.Bounded := by
  refine ⟨_, rfl, fun h => ?_⟩
  refine absurd (h ⟨2, some 50000000, 0⟩ ⟨_, List.mem_cons_self, ?_⟩ _ rfl).1 (by decide)
  exact List.mem_cons_of_mem _ List.mem_cons_self

end Tracker
end Numaflow
