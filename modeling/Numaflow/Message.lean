import Mathlib

/-!
# Times and messages

A point in time is an integer: the nanoseconds since the Unix epoch, which is
the precision of the source's date type.  A duration is a natural number of
nanoseconds.  The calendar range of the date type is not modelled.

Watermarks and window boundaries have millisecond precision, so most of the
code goes through `timestampMillis`, which rounds towards the past.
-/

namespace Numaflow

/-- Whole milliseconds since the epoch, rounded towards the past. -/
def timestampMillis (t : Int) : Int :=
  t / 1000000

/-- The point in time at a number of milliseconds since the epoch. -/
def fromTimestampMillis (millis : Int) : Int :=
  millis * 1000000

/-- Whole milliseconds of a duration. -/
def asMillis (d : Nat) : Int :=
  (d / 1000000 : Nat)

/-- Rounding to milliseconds stays within the millisecond. -/
theorem millis_floor (t : Int) : fromTimestampMillis (timestampMillis t) ≤ t ∧
      t < fromTimestampMillis (timestampMillis t) + 1000000 := by
  unfold fromTimestampMillis timestampMillis
  omega

theorem timestampMillis_fromTimestampMillis (millis : Int) :
    timestampMillis (fromTimestampMillis millis) = millis := by
  unfold fromTimestampMillis timestampMillis
  omega

/-- Kind of a message that flows between the vertices. -/
inductive MessageType where
  | data
  | wmb
deriving DecidableEq, Repr

/-- Position of a message in the buffer or source it was read from. -/
inductive Offset where
  | int (offset : Int) (partitionIdx : Nat)
  | string (offset : String) (partitionIdx : Nat)
deriving DecidableEq, Repr

/-- The text of an offset. -/
def Offset.text : Offset → String
  | .int offset partitionIdx => toString offset ++ "-" ++ toString partitionIdx
  | .string offset partitionIdx => offset ++ "-" ++ toString partitionIdx

/-- A message with the fields that the reduce path reads. -/
structure Message where
  typ : MessageType := .data
  keys : List String := []
  value : List UInt8 := []
  offset : Offset := .int 0 0
  eventTime : Int
  watermark : Option Int := none
  isLate : Bool := false
deriving DecidableEq, Repr

end Numaflow
