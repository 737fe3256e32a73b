import Numaflow.Handle

/-!
# The connection to a stream mapper

All stream-map tasks of a vertex share one connection to the user-defined function.  A task
opens a channel, puts its sender into a map under the identity of its message and sends the
request.  One task receives all responses, finds the sender by the identity and passes the
results on; the end of the transmission takes the sender out of the map, and the channel is
closed with its last sender.

A task that tries its message again opens a new channel under the same identity.  Every
channel belongs to an attempt here.  The attempt also records what the function answered and
what the task has received; the code does not see which attempt a response belongs to.
-/

namespace Numaflow.Map

open Lib

/-- One result of the user-defined function. -/
structure MapResult where
  keys : List String := []
  value : List UInt8 := []
  tags : List String := []
  userMetadata : Option KeyValueGroups := none
  nackOptions : Option NackOptions := none
deriving DecidableEq

/-- A response to the request with an identity; the last response only ends the transmission. -/
structure MapResponse where
  id : String
  results : List MapResult := []
  eot : Bool := false
deriving DecidableEq

inductive MapError where
  | mapper (text : String)
  | grpc (status : String)
deriving DecidableEq, Repr

def MapError.display : MapError → String
  | .mapper text => "Mapper Error - " ++ text
  | .grpc status => "gRPC Error - " ++ status

/-! ## Attempts -/

/-- How far the function is with a request. -/
inductive Stage where
  | pending
  | asked
  | ended
  | refused
deriving DecidableEq, Repr

/-- The function is asked, or will be, and has not come to the end. -/
def Stage.isOpen : Stage → Bool
  | .pending | .asked => true
  | .ended | .refused => false

/-- An attempt: the task that makes it, the channel with its queue, whether the task still has
the receiving end, what the function answered and what the task has received. -/
structure Attempt where
  task : Nat
  id : String
  stage : Stage := .pending
  answers : List (List MapResult) := []
  queue : List (Except MapError (List MapResult)) := []
  alive : Bool := true
  consumed : List MapResult := []

/-! ## The connection -/

/-- A response that the receiving task is busy with: the attempt it answers and the attempt whose
sender was found. -/
structure Delivery where
  origin : Nat
  resp : MapResponse
  sender : Nat

/-- Where the receiving task is.  It took a sender out of the map; it put it back and sends; it
has found the connection closed; its send has failed; it sends an error to all senders. -/
inductive Receiver where
  | idle
  | holding (d : Delivery)
  | sending (d : Delivery)
  | refusing (d : Delivery)
  | removing (d : Delivery)
  | broadcasting (error : MapError) (senders : List Nat) (last : Bool)
  | stopped

def Receiver.hand : Receiver → Option Delivery
  | .holding d | .sending d | .refusing d | .removing d => some d
  | _ => none

/-- The attempt will be sent an error. -/
def Receiver.dooms (a : Nat) : Receiver → Prop
  | .refusing d => d.sender = a
  | .broadcasting _ senders _ => a ∈ senders
  | _ => False

instance (a : Nat) (r : Receiver) : Decidable (r.dooms a) := by
  unfold Receiver.dooms
  cases r <;> infer_instance

/-- The senders are given by the attempts they belong to; the responses on the wire come with the
attempts they answer. -/
structure Connection where
  attempts : List Attempt := []
  senders : HashMap String Nat := ∅
  closed : Bool := false
  wire : List (Nat × MapResponse) := []
  receiver : Receiver := .idle

/-- The number of responses that a channel holds. -/
def streamingMapRespChannelSize : Nat := 10

/-- What a task gets from its channel. -/
inductive Received where
  | results (results : List MapResult)
  | error (error : MapError)
  | closed

namespace Connection

section

variable (c : Connection) (a : Nat)

def update (f : Attempt → Attempt) : Connection :=
  { c with attempts := c.attempts.modify a f }

/-- The first half of a call: the sender is put into the map before the request is sent. -/
def stream (c : Connection) (task : Nat) (id : String) : Except MapError (Connection × Nat) :=
  if c.closed = true then .error (.grpc "stream map stream closed")
  else
    .ok ({ c with
      attempts := c.attempts ++ [{ task := task, id := id }]
      senders := c.senders.insert id c.attempts.length }, c.attempts.length)

/-- The second half: the request is sent, or the sender is taken back. -/
def request (sent : Bool) : Connection :=
  match c.attempts[a]? with
  | none => c
  | some attempt =>
    if attempt.stage ≠ .pending then c
    else if sent = true then c.update a fun attempt => { attempt with stage := .asked }
    else
      { c.update a fun attempt => { attempt with stage := .refused, alive := false } with
        senders := c.senders.erase attempt.id }

/-- The receiving end is dropped. -/
def dropReceiver : Connection :=
  c.update a fun attempt => { attempt with alive := false }

/-- No sender of the channel is left, neither in the map nor with the receiving task. -/
def Senderless : Prop :=
  a ∉ HashMap.values c.senders ∧ ¬ c.receiver.dooms a ∧ ∀ d ∈ c.receiver.hand, d.sender ≠ a
deriving Decidable

/-- Receive from the channel; the task returns after an error and after the end. -/
def recv : Option (Received × Connection) :=
  match c.attempts[a]? with
  | none => none
  | some attempt =>
    match attempt.queue with
    | .ok results :: queue =>
      some (.results results, c.update a fun attempt =>
        { attempt with queue := queue, consumed := attempt.consumed ++ results })
    | .error e :: _ => some (.error e, c.dropReceiver a)
    | [] => if c.Senderless a then some (.closed, c.dropReceiver a) else none

/-- The function answers a request. -/
def respond (results : List MapResult) : Connection :=
  match c.attempts[a]? with
  | none => c
  | some attempt =>
    if attempt.stage ≠ .asked then c
    else
      { c.update a fun attempt => { attempt with answers := attempt.answers ++ [results] } with
        wire := c.wire ++ [(a, { id := attempt.id, results := results })] }

/-- The function is through with a request. -/
def eot : Connection :=
  match c.attempts[a]? with
  | none => c
  | some attempt =>
    if attempt.stage ≠ .asked then c
    else
      { c.update a fun attempt => { attempt with stage := .ended } with
        wire := c.wire ++ [(a, { id := attempt.id, eot := true })] }

/-- Send to a channel: it is full, or the item is sent, or the receiving end is gone. -/
def send (item : Except MapError (List MapResult)) :
    Option (Connection × Bool) :=
  match c.attempts[a]? with
  | none => some (c, false)
  | some attempt =>
    if attempt.alive = false then some (c, false)
    else if attempt.queue.length < streamingMapRespChannelSize then
      some (c.update a fun attempt => { attempt with queue := attempt.queue ++ [item] }, true)
    else none

end

/-- The next move of the receiving task. -/
def advance (c : Connection) : Connection :=
  match c.receiver with
  | .idle =>
    match c.wire with
    | [] => c
    | (origin, resp) :: wire =>
      let senders := c.senders.erase resp.id
      if resp.eot = true then { c with wire := wire, senders := senders }
      else
        match c.senders.lookup resp.id with
        | none => { c with wire := wire, senders := senders }
        | some sender =>
          { c with
            wire := wire, senders := senders, receiver := .holding ⟨origin, resp, sender⟩ }
  | .holding d =>
    if c.closed = true then { c with receiver := .refusing d }
    else { c with senders := c.senders.insert d.resp.id d.sender, receiver := .sending d }
  | .sending d =>
    match c.send d.sender (.ok d.resp.results) with
    | none => c
    | some (c, true) => { c with receiver := .idle }
    | some (c, false) => { c with receiver := .removing d }
  | .refusing d =>
    match c.send d.sender (.error (.mapper "mapper closed")) with
    | none => c
    | some (c, _) => { c with receiver := .idle }
  | .removing d => { c with senders := c.senders.erase d.resp.id, receiver := .idle }
  | .broadcasting _ [] last => { c with receiver := if last = true then .stopped else .idle }
  | .broadcasting e (a :: senders) last =>
    match c.send a (.error e) with
    | none => c
    | some (c, _) => { c with receiver := .broadcasting e senders last }
  | .stopped => c

/-- The stream fails, or it ends: all senders are told, in some order. -/
def broadcastError (c : Connection) (e : MapError) (order : List String) (last : Bool) :
    Connection :=
  match c.receiver with
  | .idle =>
    { c with
      closed := true
      senders := ∅
      receiver := .broadcasting e ((HashMap.iterIn order c.senders).map fun entry => entry.2) last }
  | _ => c

end Connection
end Numaflow.Map
