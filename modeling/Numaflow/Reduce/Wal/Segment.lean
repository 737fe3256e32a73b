import Numaflow.Handle

/-!
# Records of the write-ahead logs

A data segment holds the messages read from the buffer, a GC segment holds the
events that tell how far the windows are processed.  Both are protobuf records,
whose byte encoding is taken as lossless; a field of message type may be absent.

Main results: `utcFromTimestamp_prostTimestampFromUtc`, `decode_encode`,
`survives_iff`.
-/

namespace Numaflow.Wal

/-- The kinds of segments. -/
inductive WalType where
  | data
  | gc
  | compact
deriving DecidableEq, Repr

/-- A protobuf timestamp. -/
structure Timestamp where
  seconds : Int
  nanos : Int
deriving DecidableEq, Repr

/-- The timestamp of a point in time. -/
def prostTimestampFromUtc (t : Int) : Timestamp :=
  ⟨t / 1000000000, t % 1000000000⟩

/-- The point in time of a timestamp; one nanosecond before the epoch when the
timestamp is not valid. -/
def utcFromTimestamp (t : Timestamp) : Int :=
  if 0 ≤ t.nanos ∧ t.nanos < 1000000000 then t.seconds * 1000000000 + t.nanos else -1

/-- Times survive the record. -/
@[simp]
theorem utcFromTimestamp_prostTimestampFromUtc (t : Int) :
    utcFromTimestamp (prostTimestampFromUtc t) = t := by
  have hnonneg : 0 ≤ t % 1000000000 := by omega
  have hlt : t % 1000000000 < 1000000000 := by omega
  unfold utcFromTimestamp prostTimestampFromUtc
  rw [if_pos ⟨hnonneg, hlt⟩]
  exact Int.ediv_mul_add_emod t 1000000000

theorem map_utcFromTimestamp (t : Option Int) :
    (t.map prostTimestampFromUtc).map utcFromTimestamp = t := by
  cases t <;> simp

/-! ## GC events -/

/-- A record of a GC segment. -/
structure GcEvent where
  startTime : Option Timestamp
  endTime : Option Timestamp
  keys : List String
deriving DecidableEq, Repr

/-- An entry in the GC WAL about the GC action. -/
structure GcEventEntry where
  startTime : Int
  endTime : Int
  keys : Option (List String)
deriving DecidableEq, Repr

/-- Read a GC event; the code stops when a time is absent. -/
def GcEvent.toEntry (event : GcEvent) : Option GcEventEntry := do
  let startTime ← event.startTime
  let endTime ← event.endTime
  return ⟨utcFromTimestamp startTime, utcFromTimestamp endTime, some event.keys⟩

/-- Write a GC event. -/
def GcEventEntry.toEvent (entry : GcEventEntry) : GcEvent :=
  ⟨some (prostTimestampFromUtc entry.startTime), some (prostTimestampFromUtc entry.endTime),
    entry.keys.getD []⟩

/-! ## Data messages -/

/-- Time and lateness of a stored message. -/
structure MessageInfo where
  eventTime : Option Timestamp
  isLate : Bool
deriving DecidableEq, Repr

/-- Header of a stored message. -/
structure Header where
  messageInfo : Option MessageInfo
  kind : MessageType
  keys : List String
deriving DecidableEq, Repr

/-- A stored message. -/
structure IsbMessage where
  header : Option Header
  body : Option (List UInt8)
deriving DecidableEq, Repr

/-- A record of a data segment. -/
structure ReadMessage where
  message : Option IsbMessage
  readOffset : Int
  watermark : Option Timestamp
deriving DecidableEq, Repr

/-- The stored form of a message. -/
def isbMessage (msg : Message) : IsbMessage :=
  ⟨some ⟨some ⟨some (prostTimestampFromUtc msg.eventTime), msg.isLate⟩, msg.typ, msg.keys⟩,
    some msg.value⟩

/-- Write a message; only integer offsets can be stored. -/
def encode (msg : Message) : Except String ReadMessage :=
  match msg.offset with
  | .int offset _ =>
    .ok ⟨some (isbMessage msg), offset, msg.watermark.map prostTimestampFromUtc⟩
  | .string _ _ => .error "Invalid offset"

variable {msg : Message} {record : ReadMessage} {offset : Int} {partitionIdx : Nat}

/-- The inner message of a stored message. -/
theorem encode_message (h : encode msg = .ok record) : record.message = some (isbMessage msg) := by
  unfold encode at h
  split at h
  · cases h
    rfl
  · cases h

/-- Read a message, with the text of the error or of the failed expectation. -/
def decode (record : ReadMessage) : Except String Message := do
  let message ← record.message.elim (.error "Missing inner message") .ok
  let header ← message.header.elim (.error "Missing header") .ok
  let body ← message.body.elim (.error "Missing body") .ok
  let info ← header.messageInfo.elim (.error "info can't be empty") .ok
  let eventTime ← info.eventTime.elim (.error "event time should be present") .ok
  return {
    typ := header.kind
    keys := header.keys
    value := body
    offset := .int record.readOffset 0
    eventTime := utcFromTimestamp eventTime
    watermark := record.watermark.map utcFromTimestamp
    isLate := info.isLate }

open Lib

structure WalHeader extends Header where
  id : Option MessageID
  headers : HashMap String String
  metadata : Option Metadata

structure WalIsbMessage where
  header : Option WalHeader
  body : Option (List UInt8)

/-- A record of a data segment with all fields of the header. -/
structure WalRecord where
  message : Option WalIsbMessage
  readOffset : Int
  watermark : Option Timestamp

/-- The byte encoding of records, which is lossless. -/
structure Prost (β : Type) where
  encodeToVec : WalRecord → β
  decode : β → Except String WalRecord
  decode_encodeToVec : ∀ record, decode (encodeToVec record) = .ok record

/-- Records that are their own encoding. -/
def Prost.plain : Prost WalRecord where
  encodeToVec := id
  decode := .ok
  decode_encodeToVec _ := rfl

variable {β : Type} (prost : Prost β)

section

variable (msg : UdfMessage)

/-- Write a message with all its fields. -/
def encodeWal : Except String β :=
  match msg.offset with
  | .int offset _ =>
    .ok (prost.encodeToVec {
      message := some {
        header := some {
          messageInfo := some ⟨some (prostTimestampFromUtc msg.eventTime), msg.isLate⟩
          kind := msg.typ
          id := some msg.id
          keys := msg.keys
          headers := msg.headers
          metadata := msg.metadata }
        body := some msg.value }
      readOffset := offset
      watermark := msg.watermark.map prostTimestampFromUtc })
  | .string _ _ => .error "Invalid offset"

/-- Read a message; the fields that are not set get their defaults. -/
def decodeWal (bytes : β) : Except String UdfMessage := do
  let record ← prost.decode bytes
  let message ← record.message.elim (.error "Missing inner message") .ok
  let header ← message.header.elim (.error "Missing header") .ok
  let body ← message.body.elim (.error "Missing body") .ok
  let info ← header.messageInfo.elim (.error "info can't be empty") .ok
  let eventTime ← info.eventTime.elim (.error "event time should be present") .ok
  return {
    typ := header.kind
    keys := header.keys
    value := body
    offset := .int record.readOffset 0
    eventTime := utcFromTimestamp eventTime
    watermark := record.watermark.map utcFromTimestamp
    id := header.id.getD {}
    isLate := info.isLate }

/-- A message is given back with its type, keys, value, times, identity, lateness, headers,
metadata and offset. -/
def Survives : Prop :=
  ∃ restored, (encodeWal prost msg).bind (decodeWal prost) = .ok restored ∧
    restored.toMessage = msg.toMessage ∧ restored.id = msg.id ∧ restored.headers = msg.headers ∧
    restored.metadata = msg.metadata

/-- The partition, the headers and the metadata are lost, and so are the tags and options that
are not stored. -/
theorem decodeWal_encodeWal (hoffset : msg.offset = .int offset partitionIdx) :
    (encodeWal prost msg).bind (decodeWal prost) = .ok {
      toMessage := { msg.toMessage with offset := .int offset 0 }
      id := msg.id } := by
  simp only [encodeWal, hoffset, Except.bind, decodeWal, prost.decode_encodeToVec, Option.elim,
    bind, pure, Except.pure, map_utcFromTimestamp, utcFromTimestamp_prostTimestampFromUtc,
    Option.getD_some]

/-- A message with an integer offset is given back exactly when it was read from partition 0 and
has neither headers nor metadata. -/
theorem survives_iff (offset : Int) (partitionIdx : Nat) :
    Survives prost { msg with offset := .int offset partitionIdx } ↔
      partitionIdx = 0 ∧ msg.headers = ∅ ∧ msg.metadata = none := by
  rw [Survives, decodeWal_encodeWal prost _ rfl]
  constructor
  · rintro ⟨restored, heq, hmessage, -, hheaders, hmetadata⟩
    cases heq
    have hpartition : Offset.int offset 0 = .int offset partitionIdx :=
      congrArg Message.offset hmessage
    cases hpartition
    exact ⟨rfl, hheaders.symm, hmetadata.symm⟩
  · rintro ⟨rfl, hheaders, hmetadata⟩
    exact ⟨_, rfl, rfl, rfl, hheaders.symm, hmetadata.symm⟩

end

/-- A message of partition 1 with a header and metadata comes back as one of partition 0 that
has none. -/
theorem lost_fields : ∃ restored, (encodeWal Prost.plain {
        eventTime := 5, id := ⟨"in", "7-1", 0⟩, offset := .int 7 1
        headers := AList.singleton "x-id" "a", metadata := some { previousVertex := "in" } }).bind
      (decodeWal Prost.plain) = .ok restored ∧
      restored.offset = .int 7 0 ∧ restored.headers = ∅ ∧ restored.metadata = none :=
  ⟨_, decodeWal_encodeWal _ _ rfl, rfl, rfl, rfl⟩

end Numaflow.Wal
