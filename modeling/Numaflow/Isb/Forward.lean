import Numaflow.Handle
import Numaflow.Watermark.Processor

/-!
# Routing to the downstream vertices

A message is forwarded over an edge when its tags meet the condition of the edge.  The
downstream vertex has one stream for each of its partitions; a shuffle key chooses the
partition.  The hash function is a parameter.
-/

namespace Numaflow.Isb

open Watermark (VertexType)

/-- The condition of an edge on the tags of a message. -/
structure ForwardConditions where
  operator : Option String := none
  values : List String
deriving DecidableEq, Repr

/-- A partition of a buffer. -/
structure Stream where
  name : String
  vertex : String
  partition : Nat
deriving DecidableEq, Repr

/-- What happens to a message when the buffer is full. -/
inductive BufferFullStrategy where
  | retryUntilSuccess
  | discardLatest
deriving DecidableEq, Repr

/-- A downstream vertex with the edge to it. -/
structure ToVertexConfig where
  conditions : Option ForwardConditions := none
  toVertexType : VertexType := .mapUDF
  partitions : Nat
  orderedProcessingEnabled : Bool := false
  streams : List Stream
  bufferFullStrategy : BufferFullStrategy := .retryUntilSuccess
deriving DecidableEq, Repr

def checkOperatorCondition (setOperator : String) (tagsFromEdgeCondition tagsFromMessage : List String) :
    Bool :=
  if setOperator = "and" then tagsFromEdgeCondition.all tagsFromMessage.contains
  else if setOperator = "or" then tagsFromEdgeCondition.any tagsFromMessage.contains
  else if setOperator = "not" then !tagsFromEdgeCondition.any tagsFromMessage.contains
  else false

/-- Without a condition, or without tags in it, every message is forwarded. -/
def shouldForward (tags : Option (List String)) (conditions : Option ForwardConditions) : Bool :=
  match conditions with
  | none => true
  | some conditions =>
    if conditions.values.isEmpty then true
    else checkOperatorCondition (conditions.operator.getD "or") conditions.values (tags.getD [])

/-- The partition for a shuffle key; the code stops on a division by zero when there is
none. -/
def determinePartition (hash : String → Nat) (shuffleKey : String) (partitionsCount : Nat) :
    Option Nat :=
  if partitionsCount = 1 then some 0
  else if partitionsCount = 0 then none
  else some (hash shuffleKey % partitionsCount)

/-- Messages are shuffled by their keys where the order of the keys matters, and by the
offset in their identity otherwise. -/
def shuffleKey (message : TaggedMessage) (vertex : ToVertexConfig) : String :=
  match vertex.toVertexType with
  | .reduceUDF => ":".intercalate message.keys
  | .mapUDF | .sink | .source =>
    if vertex.orderedProcessingEnabled then ":".intercalate message.keys else message.id.offset

/-- The stream a message goes to; the code stops when the vertex has none for the
partition. -/
def determineTargetStream (hash : String → Nat) (message : TaggedMessage)
    (vertex : ToVertexConfig) : Option Stream :=
  (determinePartition hash (shuffleKey message vertex) vertex.partitions).bind
    fun partition => vertex.streams[partition]?

end Numaflow.Isb
