import Numaflow.Reduce.Wal.Segment

/-!
# What compaction retains

The compactor replays the GC events and keeps, for aligned windows, the latest end
time and, for unaligned windows, the latest end time of every joined key.  A data
message is retained unless its event time is before that time.

Main results: `buildAlignedCompaction_retains`, `buildUnalignedCompaction_retains`,
`WindowKind.keeps_iff`.
-/

namespace Numaflow.Wal

open Lib Option

/-- Separator of the keys in the map of the unaligned compaction. -/
def walKeySeperator : String := ":"

/-- The key under which GC events and messages are matched. -/
def joinKeys (keys : List String) : String :=
  walKeySeperator.intercalate keys

/-- The event time of a stored message, or the text of the failed expectation. -/
def IsbMessage.eventTime (msg : IsbMessage) : Except String Int :=
  match msg.header.bind Header.messageInfo with
  | none => .error "Failed to extract event time from message"
  | some info => info.eventTime.elim (.error "event time should be present")
      fun t => .ok (utcFromTimestamp t)

@[simp]
theorem eventTime_isbMessage (msg : Message) : (isbMessage msg).eventTime = .ok msg.eventTime := by
  simp [IsbMessage.eventTime, isbMessage]

/-! ## Aligned windows -/

/-- The time below which all data has been processed. -/
structure AlignedCompaction where
  oldestTime : Int
deriving DecidableEq, Repr

/-- Whether a message is kept. -/
def AlignedCompaction.shouldRetainMessage (compaction : AlignedCompaction) (msg : IsbMessage) :
    Except String Bool :=
  msg.eventTime.map fun eventTime => decide (compaction.oldestTime ≤ eventTime)

/-- Take the latest end of the GC events, starting at the epoch; stop when an event
cannot be read. -/
def buildAlignedCompaction (events : List GcEvent) : Option AlignedCompaction :=
  events.foldlM (fun compaction event =>
    event.toEntry.map fun gc => ⟨max compaction.oldestTime gc.endTime⟩) ⟨0⟩

variable {events : List GcEvent}

/-- What an aligned compaction retains. -/
theorem buildAlignedCompaction_retains {compaction : AlignedCompaction} (hbuild : buildAlignedCompaction events = some compaction)
    (msg : Message) : compaction.shouldRetainMessage (isbMessage msg) = .ok true ↔
      0 ≤ msg.eventTime ∧ ∀ event ∈ events, ∀ gc ∈ event.toEntry, gc.endTime ≤ msg.eventTime := by
  have hretain : compaction.shouldRetainMessage (isbMessage msg) = .ok true ↔
      compaction.oldestTime ≤ msg.eventTime := by
    simp [AlignedCompaction.shouldRetainMessage, Except.map]
  rw [hretain]
  refine foldlM_iff (P := fun c : AlignedCompaction => c.oldestTime ≤ msg.eventTime) ?_ hbuild
  intro c event c' h
  obtain ⟨gc, hgc, rfl⟩ := map_eq_some_iff.mp h
  simp [hgc]

/-- The compaction can be built when every event can be read. -/
theorem buildAlignedCompaction_isSome (h : ∀ event ∈ events, event.toEntry.isSome = true) :
    (buildAlignedCompaction events).isSome = true := by
  apply foldlM_isSome
  intro event hevent c
  simpa using h event hevent

/-! ## Unaligned windows -/

/-- For every joined key the time below which its data has been processed. -/
structure UnalignedCompaction where
  oldestTimeMap : HashMap String Int

variable {msg : Message} {compaction : UnalignedCompaction}

namespace UnalignedCompaction

section

variable (compaction : UnalignedCompaction)

/-- The time below which the data of a key has been processed. -/
def oldestTime (key : String) : Option Int :=
  compaction.oldestTimeMap.lookup key

/-- Whether a message is kept. -/
def shouldRetainMessage (msg : IsbMessage) :
    Except String Bool :=
  msg.eventTime.map fun eventTime =>
    let keys := (msg.header.map Header.keys).getD []
    match compaction.oldestTime (joinKeys keys) with
    | some oldestTime => decide (oldestTime ≤ eventTime)
    | none => true

/-- Raise the time of the key of a GC event to the end of the event. -/
def add (gc : GcEventEntry) : UnalignedCompaction :=
  match gc.keys with
  | none => compaction
  | some keys =>
    ⟨compaction.oldestTimeMap.insert (joinKeys keys)
      (match compaction.oldestTime (joinKeys keys) with
      | some oldestTime => if oldestTime < gc.endTime then gc.endTime else oldestTime
      | none => gc.endTime)⟩

/-- The time of the key, if there is one, is at or before the given time. -/
def Below (key : String) (t : Int) : Prop :=
  ∀ oldestTime ∈ compaction.oldestTime key, oldestTime ≤ t

end

variable (compaction : UnalignedCompaction)

theorem shouldRetainMessage_iff (msg : Message) :
    compaction.shouldRetainMessage (isbMessage msg) = .ok true ↔
      compaction.Below (joinKeys msg.keys) msg.eventTime := by
  have hkeys : ((isbMessage msg).header.map Header.keys).getD [] = msg.keys := rfl
  simp only [shouldRetainMessage, eventTime_isbMessage, Except.map, hkeys, Except.ok.injEq, Below]
  cases compaction.oldestTime _ with
  | none | some => simp

/-- A message of the data log is retained or dropped. -/
theorem shouldRetainMessage_eq_false {compaction : UnalignedCompaction}
    (h : compaction.shouldRetainMessage (isbMessage msg) ≠ .ok true) :
    compaction.shouldRetainMessage (isbMessage msg) = .ok false := by
  obtain ⟨b, hb⟩ : ∃ b, compaction.shouldRetainMessage (isbMessage msg) = .ok b := by
    rw [shouldRetainMessage]
    exact ⟨_, rfl⟩
  cases b with
  | false => exact hb
  | true => exact absurd hb h

/-- Adding an event restricts only the time of its own key. -/
theorem below_add (gc : GcEventEntry) (key : String) (t : Int) : (compaction.add gc).Below key t ↔
      compaction.Below key t ∧ (gc.keys.map joinKeys = some key → gc.endTime ≤ t) := by
  unfold add Below
  cases hkeys : gc.keys with
  | none => simp
  | some keys =>
    simp only [map_some, some.injEq]
    by_cases hkey : joinKeys keys = key
    · subst hkey
      simp only [oldestTime, AList.lookup_insert]
      cases compaction.oldestTimeMap.lookup (joinKeys keys) with
      | none => simp
      | some =>
        simp only [mem_some_iff, forall_eq', forall_const]
        split_ifs
        · omega
        · omega
    · simp only [oldestTime, AList.lookup_insert_ne (Ne.symm hkey), hkey, false_implies, and_true]

end UnalignedCompaction

/-- Take the latest end of the GC events of every key; stop when an event cannot be
read. -/
def buildUnalignedCompaction (events : List GcEvent) : Option UnalignedCompaction :=
  events.foldlM (fun compaction event => event.toEntry.map compaction.add) ⟨∅⟩

open UnalignedCompaction

/-- What an unaligned compaction retains. -/
theorem buildUnalignedCompaction_retains
    (hbuild : buildUnalignedCompaction events = some compaction) (msg : Message) :
    compaction.shouldRetainMessage (isbMessage msg) = .ok true ↔
      ∀ event ∈ events, ∀ gc ∈ event.toEntry,
        gc.keys.map joinKeys = some (joinKeys msg.keys) → gc.endTime ≤ msg.eventTime := by
  rw [shouldRetainMessage_iff]
  have hfold := foldlM_iff
    (P := fun c : UnalignedCompaction => c.Below (joinKeys msg.keys) msg.eventTime)
    (Q := fun event : GcEvent => ∀ gc ∈ event.toEntry,
      gc.keys.map joinKeys = some (joinKeys msg.keys) → gc.endTime ≤ msg.eventTime) ?_ hbuild
  · rw [hfold]
    exact and_iff_right (by simp [UnalignedCompaction.Below, oldestTime])
  · intro c event c' h
    obtain ⟨gc, hgc, rfl⟩ := map_eq_some_iff.mp h
    rw [below_add, hgc]
    simp

/-- The compaction can be built when every event can be read. -/
theorem buildUnalignedCompaction_isSome (h : ∀ event ∈ events, event.toEntry.isSome = true) :
    (buildUnalignedCompaction events).isSome = true := by
  apply foldlM_isSome
  intro event hevent c
  simpa using h event hevent

/-! ## Both kinds of windows -/

/-- The kind of windows of a vertex. -/
inductive WindowKind where
  | aligned
  | unaligned
deriving DecidableEq, Repr

/-- What a cycle decides by. -/
inductive Compaction where
  | aligned (compaction : AlignedCompaction)
  | unaligned (compaction : UnalignedCompaction)

/-- Replay the GC events. -/
def WindowKind.buildCompaction (kind : WindowKind) (events : List GcEvent) : Option Compaction :=
  match kind with
  | .aligned => (buildAlignedCompaction events).map .aligned
  | .unaligned => (buildUnalignedCompaction events).map .unaligned

/-- A cycle can start when every event can be read. -/
theorem WindowKind.buildCompaction_isSome (kind : WindowKind)
    (hread : ∀ event ∈ events, event.toEntry.isSome = true) :
    (kind.buildCompaction events).isSome = true := by
  cases kind with
  | aligned => simpa [buildCompaction] using buildAlignedCompaction_isSome hread
  | unaligned => simpa [buildCompaction] using buildUnalignedCompaction_isSome hread

variable {record : ReadMessage} {event : GcEvent} {c : Compaction}

namespace Compaction

/-- Whether a record is kept, or the text of the error. -/
def shouldRetain (c : Compaction) (record : ReadMessage) : Except String Bool :=
  record.message.elim (.error "Message should be present") fun message =>
    match c with
    | .aligned compaction => compaction.shouldRetainMessage message
    | .unaligned compaction => compaction.shouldRetainMessage message

/-- The record is kept. -/
def keeps (c : Compaction) (record : ReadMessage) : Bool :=
  decide (c.shouldRetain record = .ok true)

/-- A record of the data log is kept or dropped. -/
theorem shouldRetain_encode (c : Compaction) (h : encode msg = .ok record) :
    ∃ b, c.shouldRetain record = .ok b := by
  have hmessage := encode_message h
  cases c with
  | aligned =>
    simp [shouldRetain, hmessage, AlignedCompaction.shouldRetainMessage, Except.map]
  | unaligned => simp [shouldRetain, hmessage, shouldRetainMessage, Except.map]

end Compaction

/-- The event covers the record: the record is before the end of the event and, for
unaligned windows, has its key. -/
def WindowKind.covers (kind : WindowKind) (event : GcEvent) (record : ReadMessage) : Bool :=
  match event.toEntry, record.message with
  | some gc, some message =>
    match message.eventTime with
    | .ok eventTime =>
      decide (eventTime < gc.endTime) &&
        match kind with
        | .aligned => true
        | .unaligned =>
          decide (gc.keys.map joinKeys =
            some (joinKeys ((message.header.map Header.keys).getD [])))
    | .error _ => false
  | _, _ => false

theorem WindowKind.covers_eq_false_iff {kind : WindowKind} (hencode : encode msg = .ok record) :
    kind.covers event record = false ↔ ∀ gc ∈ event.toEntry,
      (kind = .unaligned → gc.keys.map joinKeys = some (joinKeys msg.keys)) →
        gc.endTime ≤ msg.eventTime := by
  have hkeys : ((isbMessage msg).header.map Header.keys).getD [] = msg.keys := rfl
  cases hentry : event.toEntry with
  | none => simp [covers, hentry]
  | some gc =>
    simp only [covers, hentry, encode_message hencode, eventTime_isbMessage, hkeys]
    cases kind with
    | aligned => simp
    | unaligned =>
      simp only [Bool.and_eq_false_iff, decide_eq_false_iff_not, mem_some_iff,
        forall_eq', forall_const]
      by_cases hkey : gc.keys.map joinKeys = some (joinKeys msg.keys)
      · simp [hkey]
      · simp [hkey]

/-- A cycle keeps exactly the records that no event covers; for aligned windows also
those before the epoch are dropped. -/
theorem WindowKind.keeps_iff {kind : WindowKind}
    (hbuild : kind.buildCompaction events = some c) (hencode : encode msg = .ok record) :
    c.keeps record = true ↔ (kind = .aligned → 0 ≤ msg.eventTime) ∧
      ∀ event ∈ events, kind.covers event record = false := by
  have hmessage := encode_message hencode
  simp only [covers_eq_false_iff hencode, Compaction.keeps, decide_eq_true_eq]
  cases kind with
  | aligned =>
    obtain ⟨compaction, hcompaction, rfl⟩ := map_eq_some_iff.mp hbuild
    simpa [Compaction.shouldRetain, hmessage] using buildAlignedCompaction_retains hcompaction msg
  | unaligned =>
    obtain ⟨compaction, hcompaction, rfl⟩ := map_eq_some_iff.mp hbuild
    simpa [Compaction.shouldRetain, hmessage] using buildUnalignedCompaction_retains hcompaction msg

/-- Capacity of the channel to the writer. -/
def channelCapacity : Nat := 500

end Numaflow.Wal
