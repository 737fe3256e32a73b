import Numaflow.Sink.Writer

/-!
# What the tracker keeps for the serving callbacks

The tracker has an entry for every message that is being processed.  When serving callbacks
are enabled the entry says whom to call back and with which responses; the responses are
changed by the mapper.  The callback is sent when the entry is deleted.

Main results: `ServingTracker.insert_spec`, `ServingTracker.lookup_modifyResponses`.
-/

namespace Numaflow.Serving

open Lib

structure ServingCallbackInfo where
  id : String
  podHash : String
  fromVertex : String
  responses : List (Option (List String))
deriving DecidableEq, Repr

inductive TrackerError where
  | source (text : String)
  | duplicateInflight (offset : String)
deriving DecidableEq, Repr

/-- The callback of a message, from its headers and its metadata. -/
def servingCallbackInfo (msg : UdfMessage) : Except TrackerError ServingCallbackInfo :=
  match msg.headers.lookup Sink.defaultIdHeader with
  | none => .error (.source (Sink.defaultIdHeader ++ " is not found in message headers"))
  | some id =>
    match msg.headers.lookup Sink.defaultPodHashKey with
    | none => .error (.source (Sink.defaultPodHashKey ++ " is not found in message headers"))
    | some podHash =>
      match msg.metadata with
      | none => .error (.source "Metadata field is empty in the message")
      | some metadata => .ok ⟨id, podHash, metadata.previousVertex, [none]⟩

/-- The entries of the tracker, with the callback when there is a handler for it. -/
structure ServingTracker where
  handler : Bool
  entries : HashMap Offset (Option ServingCallbackInfo) := ∅

namespace ServingTracker

variable (t : ServingTracker)

def insert (msg : UdfMessage) : Except TrackerError ServingTracker := do
  let info ← (if t.handler = true then (servingCallbackInfo msg).map some else pure none)
  if (t.entries.lookup msg.offset).isSome = true then
    throw (.duplicateInflight msg.offset.text)
  else pure { t with entries := t.entries.insert msg.offset info }

section

variable (offset : Offset)

/-- Change the responses of an entry that has a callback. -/
def modifyResponses
    (f : List (Option (List String)) → List (Option (List String))) : ServingTracker :=
  if t.handler = false then t
  else
    match t.entries.lookup offset with
    | some (some info) =>
      { t with
        entries := t.entries.insert offset (some { info with responses := f info.responses }) }
    | _ => t

def servingUpdate (responseTags : List (Option (List String))) :
    ServingTracker :=
  t.modifyResponses offset fun _ => responseTags

def servingRefresh : ServingTracker :=
  t.modifyResponses offset fun _ => []

def servingAppend (messageTags : Option (List String)) : ServingTracker :=
  t.modifyResponses offset fun responses => responses ++ [messageTags]

/-- Delete an entry; the result says which callback is sent. -/
def delete : ServingTracker × Option ServingCallbackInfo :=
  match t.entries.lookup offset with
  | none => (t, none)
  | some info =>
    ({ t with entries := t.entries.erase offset }, if t.handler = true then info else none)

end

/-! ## What a lookup finds afterwards -/

variable {t} {t' : ServingTracker} {msg : UdfMessage} {offset other : Offset}

/-- A message is inserted when it describes its callback and its offset is not in flight. -/
theorem insert_spec (h : t.insert msg = .ok t') (hhandler : t.handler = true) :
    ∃ info, servingCallbackInfo msg = .ok info ∧ t.entries.lookup msg.offset = none ∧
      t' = { t with entries := t.entries.insert msg.offset (some info) } := by
  unfold insert at h
  rw [if_pos hhandler] at h
  cases hinfo : servingCallbackInfo msg with
  | error =>
    rw [hinfo] at h
    cases h
  | ok info =>
    rw [hinfo] at h
    simp only [Except.map, bind, Except.bind] at h
    split_ifs at h with hfound
    cases h
    exact ⟨info, rfl, by simpa using hfound, rfl⟩

variable (f : List (Option (List String)) → List (Option (List String)))

/-- The mapper changes the responses of one entry and nothing else. -/
theorem lookup_modifyResponses (hhandler : t.handler = true) :
    (t.modifyResponses offset f).entries.lookup other = if other = offset then
        (t.entries.lookup other).map fun info =>
          info.map fun info => { info with responses := f info.responses }
      else t.entries.lookup other := by
  unfold modifyResponses
  rw [if_neg (by rw [hhandler]; nofun)]
  split
  · rename_i info hinfo
    split_ifs with heq
    · subst heq
      rw [AList.lookup_insert, hinfo]
      rfl
    · exact AList.lookup_insert_ne heq
  · rename_i hinfo
    split_ifs with heq
    · subst heq
      rcases hlookup : t.entries.lookup other with _ | _ | info
      · rfl
      · rfl
      · exact absurd hlookup (hinfo info)
    · rfl

@[simp]
theorem handler_modifyResponses : (t.modifyResponses offset f).handler = t.handler := by
  unfold modifyResponses
  split_ifs
  · rfl
  · split <;> rfl

@[simp]
theorem handler_delete : (t.delete offset).1.handler = t.handler := by
  unfold delete
  split <;> rfl

theorem lookup_delete (hne : other ≠ offset) :
    (t.delete offset).1.entries.lookup other = t.entries.lookup other := by
  unfold delete
  split
  · rfl
  · exact AList.lookup_erase_ne hne

variable {info : ServingCallbackInfo}

/-- The callback that is kept is sent. -/
theorem callback_delete (hhandler : t.handler = true)
    (h : t.entries.lookup offset = some (some info)) : (t.delete offset).2 = some info := by
  simp only [delete, h, if_pos hhandler]

end ServingTracker
end Numaflow.Serving
