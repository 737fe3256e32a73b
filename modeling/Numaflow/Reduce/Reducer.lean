import Numaflow.Message

/-!
# How the reducers read their messages

The aligned and the unaligned reducer read alike: both keep the largest watermark
they have seen, drop messages that are too old, give the messages of a stream
without keys one common key, and close windows before they assign the message.  They
differ in the window manager only, which is the parameter `μ`.

Main results: `read_spec`, `read_currentWatermark`.
-/

namespace Numaflow

/-- The watermark before any message was read. -/
def initialWatermark : Int := fromTimestampMillis (-1)

/-- Key of all messages of a stream without keys. -/
def defaultKeyForNonKeyedStream : String := "NON_KEYED_STREAM"

section

variable (keyed : Bool) (msg : Message)

/-- The keys a reducer works with. -/
def rekey : Message :=
  if keyed then msg else { msg with keys := [defaultKeyForNonKeyedStream] }

@[simp]
theorem rekey_eventTime :
    (rekey keyed msg).eventTime = msg.eventTime := by
  cases keyed <;> rfl

@[simp]
theorem rekey_watermark :
    (rekey keyed msg).watermark = msg.watermark := by
  cases keyed <;> rfl

end

/-- The watermark after reading a message; it never decreases. -/
def advanceWatermark (currentWatermark : Int) (msg : Message) : Int :=
  max currentWatermark (msg.watermark.getD initialWatermark)

theorem le_advanceWatermark (currentWatermark : Int) (msg : Message) :
    currentWatermark ≤ advanceWatermark currentWatermark msg :=
  Int.le_max_left _ _

/-- The reason for which a message is dropped, if it is dropped. -/
def dropReason (currentWatermark : Int) (allowedLateness : Nat) (msg : Message) :
    Option String :=
  if msg.isLate ∧ timestampMillis currentWatermark = -1 then
    some "no-valid-wm-late-message"
  else if msg.isLate ∧ msg.eventTime < currentWatermark - allowedLateness then
    some "late-message"
  else if msg.eventTime < currentWatermark then
    some "old-message-popped-up"
  else none

variable {msg : Message} {currentWatermark : Int} {allowedLateness : Nat}

/-- The watermark has not progressed past a message that is accepted. -/
theorem le_eventTime_of_accepted (h : dropReason currentWatermark allowedLateness msg = none) :
    currentWatermark ≤ msg.eventTime := by
  unfold dropReason at h
  split_ifs at h with _ _ hold
  omega

/-- State of a reducer with the window manager `μ`. -/
structure Reducer (μ : Type) where
  windowManager : μ
  allowedLateness : Nat
  keyed : Bool
  shuttingDownOnErr : Bool
  currentWatermark : Int

/-- What the reducer does next. -/
inductive Phase where
  | idle
  | closing (msg : Option Message)
  | assigning (msg : Message)
deriving DecidableEq, Repr

/-- The message that the reducer is about to assign. -/
def Phase.toAssign : Phase → Option Message
  | .assigning msg => some msg
  | _ => none

namespace Reducer

variable {μ : Type}

/-- A reducer that has read nothing. -/
def new (windowManager : μ) (allowedLateness : Nat) (keyed : Bool) : Reducer μ :=
  ⟨windowManager, allowedLateness, keyed, false, initialWatermark⟩

/-- Read a message: ignore it, drop it, or go on to close windows. -/
def read (r : Reducer μ) (msg : Message) : Reducer μ × Phase :=
  if r.shuttingDownOnErr then (r, .idle)
  else
    match msg.typ, msg.watermark with
    | .wmb, some idleWatermark =>
      if r.currentWatermark < idleWatermark then
        ({ r with currentWatermark := idleWatermark }, .closing none)
      else (r, .idle)
    | .wmb, none => (r, .idle)
    | .data, _ =>
      let msg := rekey r.keyed msg
      let currentWatermark := advanceWatermark r.currentWatermark msg
      ({ r with currentWatermark := currentWatermark },
        match dropReason currentWatermark r.allowedLateness msg with
        | some _ => .idle
        | none => .closing (some msg))

variable (r : Reducer μ)

/-- Reading a message changes nothing but the watermark, which does not decrease.  A
message that goes on to be assigned has the keys the reducer works with, and is not
older than the watermark. -/
theorem read_spec (msg : Message) : ∃ watermark, r.currentWatermark ≤ watermark ∧
      (r.read msg).1 = { r with currentWatermark := watermark } ∧
      ((r.read msg).2 = .idle ∨ (r.read msg).2 = .closing none ∨
        ((r.read msg).2 = .closing (some (rekey r.keyed msg)) ∧ watermark ≤ msg.eventTime)) := by
  unfold read
  split_ifs
  · exact ⟨r.currentWatermark, Int.le_refl _, rfl, .inl rfl⟩
  · split
    · rename_i idleWatermark _ _
      split_ifs with hlt
      · exact ⟨idleWatermark, Int.le_of_lt hlt, rfl, .inr (.inl rfl)⟩
      · exact ⟨r.currentWatermark, Int.le_refl _, rfl, .inl rfl⟩
    · exact ⟨r.currentWatermark, Int.le_refl _, rfl, .inl rfl⟩
    · refine ⟨_, le_advanceWatermark r.currentWatermark (rekey r.keyed msg), rfl, ?_⟩
      simp only
      split
      · exact .inl rfl
      · rename_i haccept
        have hle := le_eventTime_of_accepted haccept
        rw [rekey_eventTime] at hle
        exact .inr (.inr ⟨rfl, hle⟩)

theorem read_windowManager (msg : Message) : (r.read msg).1.windowManager = r.windowManager ∧
      (r.read msg).1.allowedLateness = r.allowedLateness := by
  rcases r.read_spec msg with ⟨watermark, -, hread, -⟩
  rw [hread]
  exact ⟨rfl, rfl⟩

/-- Reading a message raises the watermark to the one of the message. -/
theorem read_currentWatermark (msg : Message) (hfloor : initialWatermark ≤ r.currentWatermark) :
    (r.read msg).1.currentWatermark = if r.shuttingDownOnErr then r.currentWatermark
      else advanceWatermark r.currentWatermark msg := by
  unfold read
  by_cases hdown : r.shuttingDownOnErr = true
  · rw [if_pos hdown, if_pos hdown]
  · rw [if_neg hdown, if_neg hdown]
    unfold advanceWatermark
    split
    · rename_i idleWatermark hwatermark
      rw [hwatermark]
      split_ifs with hlt
      · exact (Int.max_eq_right (Int.le_of_lt hlt)).symm
      · exact (Int.max_eq_left (Int.not_lt.mp hlt)).symm
    · rename_i hwatermark
      rw [hwatermark]
      exact (Int.max_eq_left hfloor).symm
    · show max r.currentWatermark ((rekey r.keyed msg).watermark.getD initialWatermark) = _
      rw [rekey_watermark]

variable {n : Message}

/-- A message that goes on to be assigned is not older than the watermark. -/
theorem read_accepts {r : Reducer μ} (h : (r.read msg).2 = .closing (some n)) :
    (r.read msg).1.currentWatermark ≤ n.eventTime := by
  rcases r.read_spec msg with ⟨watermark, -, hread, hidle | hnone | ⟨hsome, hle⟩⟩
  · rw [hidle] at h
    cases h
  · rw [hnone] at h
    cases h
  · rw [hsome] at h
    cases h
    rw [hread, rekey_eventTime]
    exact hle

theorem read_not_assigning (msg n : Message) : (r.read msg).2 ≠ .assigning n := by
  rcases r.read_spec msg with ⟨watermark, -, -, hphase | hphase | ⟨hphase, -⟩⟩ <;> simp [hphase]

/-- The watermark up to which windows are closed. -/
def closeWatermark (r : Reducer μ) : Int :=
  r.currentWatermark - r.allowedLateness

end Reducer

end Numaflow
