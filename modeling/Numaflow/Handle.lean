import Numaflow.Lib.HashMap
import Numaflow.Lib.Run
import Numaflow.Message

/-!
# Messages with their handles

A message that is read from a source or a buffer comes with a handle that tells the reader
whether to ack it.  The handle counts its references: each clone has to be marked as
successful, and a reference that is marked as failed, or dropped without a mark, makes the
reader nak the message.

Main results: `settle_eq_ack_iff`, `HandleRun.signals_exec`.
-/

namespace Numaflow

/-- The options of a nak; the delay is in milliseconds. -/
structure NackOptions where
  delay : Option Nat := none
  maxDeliveries : Option Nat := none
  reason : Option String := none
  nackMap : List (String × String) := []
deriving DecidableEq, Repr

/-- The identity of a message; the index tells the outputs of one input apart. -/
structure MessageID where
  vertexName : String := ""
  offset : String := ""
  index : Int32 := 0
deriving DecidableEq, Repr

/-- The text of an identity, by which a buffer recognises duplicates. -/
def MessageID.text (id : MessageID) : String :=
  id.vertexName ++ "-" ++ id.offset ++ "-" ++ toString id.index

/-- A message with the fields that the writers and the sinks read. -/
structure TaggedMessage extends Message where
  tags : Option (List String) := none
  id : MessageID
  nackOptions : Option NackOptions := none
deriving DecidableEq, Repr

def dropTag : String := "U+005C__DROP__"

def nackTag : String := "U+005C__NACK__"

def failTag : String := "U+005C__FAIL__"

namespace TaggedMessage

section

variable (msg : TaggedMessage)

/-- A tag is among the tags of a message. -/
def hasTag (tag : String) : Bool :=
  msg.tags.any fun tags => tags.contains tag

def dropped : Bool :=
  msg.hasTag dropTag

def nacked : Bool :=
  msg.hasTag nackTag

def failed : Bool :=
  msg.hasTag failTag

end

end TaggedMessage

/-- What the reader is told about a message. -/
inductive ReadAck where
  | ack
  | nak (options : Option NackOptions)
deriving DecidableEq, Repr

/-- What becomes of a reference to a handle. -/
inductive Mark where
  | success
  | failed (reason : String) (options : Option NackOptions)
  | dropped
deriving DecidableEq, Repr

/-- The state that all references of a message share. -/
structure AckHandle where
  refCount : Nat := 1
  failureReason : Option String := none
  nackOptions : Option NackOptions := none
deriving DecidableEq, Repr

open List AckHandle

namespace AckHandle

section

variable (h : AckHandle)

/-- One more reference. -/
def withMessage : AckHandle :=
  { h with refCount := h.refCount + 1 }

def markSuccess : AckHandle :=
  { h with refCount := h.refCount - 1 }

/-- Only the first reason and the first options are kept. -/
def markFailed (reason : String) (options : Option NackOptions) : AckHandle :=
  { h with
    failureReason := h.failureReason.or (some reason)
    nackOptions := h.nackOptions.or options }

def mark : Mark → AckHandle
  | .success => h.markSuccess
  | .failed reason options => h.markFailed reason options
  | .dropped => h

/-- The last reference is gone. -/
def drop : ReadAck :=
  if h.refCount ≠ 0 then .nak h.nackOptions else .ack

end

/-- The references that were not marked as successful remain. -/
theorem refCount_foldl_mark (marks : List Mark) (h : AckHandle) :
    (marks.foldl mark h).refCount = h.refCount - marks.count .success := by
  induction marks generalizing h with
  | nil => simp
  | cons m _ ih =>
    rw [foldl_cons, ih]
    cases m with
    | success =>
      simp only [mark, markSuccess, count_cons_self]
      omega
    | failed => simp [mark, markFailed]
    | dropped => simp [mark]

end AckHandle

/-- What the reader is told after each of the references of a handle came to its end. -/
def settle (marks : List Mark) : ReadAck :=
  (marks.foldl AckHandle.mark { refCount := marks.length }).drop

/-- A message is acked exactly when all its references were marked as successful. -/
theorem settle_eq_ack_iff (marks : List Mark) : settle marks = .ack ↔ ∀ m ∈ marks, m = .success := by
  have hle : marks.count .success ≤ marks.length := count_le_length
  have hall : marks.count .success = marks.length ↔ ∀ m ∈ marks, m = .success := by
    rw [count_eq_length]
    exact forall₂_congr fun m _ => eq_comm
  rw [settle, AckHandle.drop, AckHandle.refCount_foldl_mark, ← hall]
  constructor
  · intro hack
    by_contra hne
    rw [if_pos (by simp only; omega)] at hack
    cases hack
  · intro heq
    rw [if_neg (by simp only; omega)]

variable {marks : List Mark} {m : Mark}

/-- One reference that is not successful makes the reader nak the message. -/
theorem settle_nak (hm : m ∈ marks) (hne : m ≠ .success) :
    ∃ options, settle marks = .nak options := by
  cases hsettle : settle marks with
  | ack => exact absurd ((settle_eq_ack_iff marks).mp hsettle m hm) hne
  | nak options => exact ⟨options, rfl⟩

/-! ## Handles over time -/

open Lib

/-- A handle with the messages of the references that their owners can use.  A mark consumes
a reference, but its owner releases it only after that.  The marks, the number of references
ever made and the signals are kept. -/
structure HandleRun (μ : Type) where
  ackHandle : AckHandle := {}
  handles : List μ
  releasing : Nat := 0
  created : Nat := 1
  marks : List Mark := []
  signals : List ReadAck := []

/-- What the owner of a reference does. -/
inductive HandleAction (μ : Type) where
  | clone (i : Nat)
  | withMessage (i : Nat) (message : μ)
  | markSuccess (i : Nat)
  | markFailed (i : Nat) (reason : String) (options : Option NackOptions)
  | release
  | drop (i : Nat)

/-- The options that a mark supplies. -/
def Mark.options? : Mark → Option NackOptions
  | .failed _ options => options
  | _ => none

namespace HandleRun

variable {μ : Type}

section

variable (s : HandleRun μ)

/-- One more reference, made from a usable one. -/
def share (i : Nat) (message : μ → μ) : HandleRun μ :=
  match s.handles[i]? with
  | none => s
  | some m =>
    { s with
      ackHandle := s.ackHandle.withMessage
      handles := s.handles ++ [message m]
      created := s.created + 1 }

/-- A usable reference comes to its end. -/
def consume (i : Nat) (mark : Mark) : HandleRun μ :=
  if i < s.handles.length then
    { s with
      ackHandle := s.ackHandle.mark mark
      handles := s.handles.eraseIdx i
      releasing := s.releasing + 1
      marks := s.marks ++ [mark] }
  else s

/-- A reference is released; with the last one the handle is dropped. -/
def release : HandleRun μ :=
  match s.releasing with
  | 0 => s
  | n + 1 =>
    { s with
      releasing := n
      signals := if s.handles = [] ∧ n = 0 then s.signals ++ [s.ackHandle.drop] else s.signals }

def step : HandleAction μ → HandleRun μ
  | .clone i => s.share i id
  | .withMessage i message => s.share i fun _ => message
  | .markSuccess i => s.consume i .success
  | .markFailed i reason options => s.consume i (.failed reason options)
  | .release => s.release
  | .drop i => s.consume i .dropped

end

/-- The count is the number of references that were not marked as successful, the options are
the first that were supplied, and the reader was told once all references were gone. -/
structure Counted (s : HandleRun μ) : Prop where
  refCount : s.ackHandle.refCount = s.handles.length + s.marks.countP (· ≠ .success)
  options : s.ackHandle.nackOptions = s.marks.findSome? Mark.options?
  created : s.created = s.handles.length + s.marks.length
  signals : s.signals = if s.handles = [] ∧ s.releasing = 0 then [s.ackHandle.drop] else []

variable {s : HandleRun μ}

theorem Counted.share (hs : s.Counted) (i : Nat) (message : μ → μ) : (s.share i message).Counted := by
  unfold HandleRun.share
  split
  · exact hs
  · rename_i m hi
    have hne : s.handles ≠ [] := by
      rintro heq
      simp [heq] at hi
    refine ⟨?_, hs.options, ?_, ?_⟩
    · simp only [withMessage, hs.refCount, length_append, length_singleton]
      omega
    · simp only [hs.created, length_append, length_singleton]
      omega
    · simp [hs.signals, hne]

/-- A reference still counts when it is not marked as successful. -/
theorem Counted.consume (hs : s.Counted) (i : Nat) (mark : Mark) : (s.consume i mark).Counted := by
  unfold HandleRun.consume
  split_ifs with hi
  · have hlength := length_eraseIdx_of_lt hi
    have hne := ne_nil_of_length_pos (Nat.zero_lt_of_lt hi)
    refine ⟨?_, ?_, ?_, ?_⟩
    · have hrefs := hs.refCount
      cases mark with
      | success =>
        simp only [mark, markSuccess, hrefs]
        simp
        omega
      | failed | dropped =>
        simp only [mark, markFailed, hrefs]
        simp
        omega
    · rw [List.findSome?_append, ← hs.options]
      cases mark with
      | failed => simp [mark, markFailed, Mark.options?]
      | success | dropped => simp [mark, markSuccess, Mark.options?]
    · simp only [hs.created, length_append, length_singleton]
      omega
    · simp [hs.signals, hne]
  · exact hs

theorem Counted.release (hs : s.Counted) : s.release.Counted := by
  unfold HandleRun.release
  split
  · exact hs
  · rename_i n hn
    refine ⟨hs.refCount, hs.options, hs.created, ?_⟩
    simp [hs.signals, hn]

theorem Counted.step (hs : s.Counted) (a : HandleAction μ) : (s.step a).Counted := by
  cases a with
  | clone i => exact hs.share i id
  | withMessage i message => exact hs.share i fun _ => message
  | markSuccess i | markFailed i | drop i => exact hs.consume i _
  | release => exact hs.release

/-- Once all references are gone, the reader has been told what their marks say. -/
theorem Counted.signals_of_gone (hs : s.Counted) (hhandles : s.handles = [])
    (hreleasing : s.releasing = 0) : s.signals = [if ∀ m ∈ s.marks, m = .success then .ack
      else .nak (s.marks.findSome? Mark.options?)] := by
  have hzero : s.ackHandle.refCount = 0 ↔ ∀ m ∈ s.marks, m = .success := by
    rw [hs.refCount, hhandles, length_nil, Nat.zero_add, countP_eq_zero]
    simp
  rw [hs.signals, if_pos ⟨hhandles, hreleasing⟩, AckHandle.drop, ← hs.options]
  simp only [ne_eq, ite_not, hzero]

/-- The references that were consumed are released one by one. -/
theorem exec_release (n : Nat) (s : HandleRun μ) (hn : s.releasing = n) :
    (exec step s (replicate n .release)).releasing = 0 ∧
      (exec step s (replicate n .release)).handles = s.handles ∧
      (exec step s (replicate n .release)).marks = s.marks := by
  induction n generalizing s with
  | zero => exact ⟨hn, rfl, rfl⟩
  | succ n ih =>
    have hstep : (s.step .release).releasing = n ∧ (s.step .release).handles = s.handles ∧
        (s.step .release).marks = s.marks := by
      simp [HandleRun.step, HandleRun.release, hn]
    obtain ⟨hreleasing, hhandles, hmarks⟩ := hstep
    rw [replicate_succ, exec, ← hhandles, ← hmarks]
    exact ih (s.step .release) hreleasing

/-- However the references are shared, marked and dropped, the reader gets no signal before the
last reference is gone.  When no usable reference is left, every reference has its mark, and
with the last of the releases still to come the reader gets one signal.  It is an ack exactly
when all marks are marks of success; otherwise it carries the options of the first failure
that came with some. -/
theorem signals_exec (message : μ) (actions : List (HandleAction μ)) :
    let s := exec step { handles := [message] } actions
    (¬ (s.handles = [] ∧ s.releasing = 0) → s.signals = []) ∧
      (s.handles = [] → s.marks.length = s.created ∧
        (exec step s (replicate s.releasing .release)).releasing = 0 ∧
        (exec step s (replicate s.releasing .release)).signals =
          [if ∀ m ∈ s.marks, m = .success then .ack
            else .nak (s.marks.findSome? Mark.options?)]) := by
  intro s
  have hs : s.Counted := exec_invariant_all (fun _ a h => h.step a) (by constructor <;> rfl)
  refine ⟨fun hlive => by rw [hs.signals, if_neg hlive], fun hhandles => ?_⟩
  obtain ⟨hreleasing, hlast, hmarks⟩ := exec_release s.releasing s rfl
  have hreleased : (exec step s (replicate s.releasing .release)).Counted :=
    exec_invariant_all (fun _ a h => h.step a) hs
  refine ⟨by rw [hs.created, hhandles, length_nil, Nat.zero_add], hreleasing, ?_⟩
  rw [hreleased.signals_of_gone (hlast.trans hhandles) hreleasing, hmarks]

/-- A message is cloned and given to a second owner; one reference fails with a delay. -/
def oneFails : List (HandleAction Nat) :=
  [.clone 0, .withMessage 0 7, .markSuccess 0, .release,
    .markFailed 0 "busy" (some { delay := some 5 }), .drop 0]

/-- The two releases that are left bring the nak. -/
theorem oneFails_signals : (exec step { handles := [3] } oneFails).signals = [] ∧
    (exec step (exec step { handles := [3] } oneFails) (replicate 2 .release)).signals =
      [.nak (some { delay := some 5 })] :=
  ⟨by decide, ((signals_exec 3 oneFails).2 (by decide)).2.2⟩

end HandleRun

/-! ## What user code sees -/

/-- Groups of keys and values. -/
abbrev KeyValueGroups := HashMap String (HashMap String (List UInt8))

structure Metadata where
  previousVertex : String := ""
  sysMetadata : KeyValueGroups := ∅
  userMetadata : KeyValueGroups := ∅
deriving DecidableEq

/-- A message with what user code sees of it. -/
structure UdfMessage extends TaggedMessage where
  headers : HashMap String String := ∅
  metadata : Option Metadata := none
deriving DecidableEq

/-! ## Retries of what user code fails -/

inductive OnFailureStrategy where
  | retry
  | fallback
  | drop
deriving DecidableEq, Repr

structure RetryConfig where
  maxRetryAttempts : Nat
  onFailStrategy : OnFailureStrategy
deriving DecidableEq, Repr

/-- What to do after a message failed; an invalid strategy makes the task panic. -/
inductive RetryStep where
  | again
  | cancelled
  | drop
  | nack
  | panic
deriving DecidableEq, Repr

/-- The retries of one message: the strategy and the waits that are left.  Without a
configuration there is no end to the retries. -/
structure RetryController where
  strategy : Option OnFailureStrategy
  backoff : Option Nat
deriving DecidableEq, Repr

namespace RetryController

def new (config : Option RetryConfig) : RetryController where
  strategy := config.map fun c => c.onFailStrategy
  backoff := config.map fun c => c.maxRetryAttempts

/-- The next step; the argument says that the shutdown came before the end of the wait. -/
def nextStep (retry : RetryController) (cancelled : Bool) : RetryController × RetryStep :=
  match retry.backoff with
  | none => (retry, .again)
  | some (left + 1) =>
    ({ retry with backoff := some left }, if cancelled = true then .cancelled else .again)
  | some 0 =>
    match retry.strategy with
    | some .drop => (retry, .drop)
    | some .retry => (retry, .nack)
    | some .fallback | none => (retry, .panic)

end RetryController
end Numaflow
