import Numaflow.Reduce.Aligned.Windower

/-!
# Aligned window assignment

The managers compute window boundaries with the date library, whose conversions fail
outside of its range; the code then stops.  This file follows the code with these
failures and shows that they do not occur for event times that the library can
truncate and for durations that fit into 64 bits of nanoseconds.  The windows are then
those of `createWindow` and `createWindows`.

Main results: `FixedWindowManager.checkedCreateWindow_eq`,
`SlidingWindowManager.checkedCreateWindows_eq`, `aligned_assignment`.
-/

namespace Numaflow.Aligned

open FixedWindowManager SlidingWindowManager

/-! ## The date library -/

/-- The largest signed integer of 64 bits. -/
def maxI64 : Int := 9223372036854775807

/-- A point in time whose nanoseconds fit into 64 bits. -/
def Truncatable (t : Int) : Prop :=
  -maxI64 - 1 ≤ t ∧ t ≤ maxI64
deriving Decidable

/-- What the code uses of the date library: the point in time at a number of milliseconds,
a duration of a number of milliseconds, and the truncation of a point in time to a multiple
of a duration. -/
structure Chrono where
  timestampMillisOpt : Int → Option Int
  tryMilliseconds : Int → Option Int
  durationTrunc : Int → Int → Option Int

/-- The documented behaviour of the library.  Years up to 262142 can be represented, and the
truncation is done on nanoseconds in 64 bits, towards the past. -/
structure Chrono.Documented (c : Chrono) : Prop where
  representable : ∀ millis, -8334601228800000 ≤ millis → millis ≤ 8210266876799999 →
    c.timestampMillisOpt millis = some (fromTimestampMillis millis)
  milliseconds : ∀ millis, -maxI64 ≤ millis → millis ≤ maxI64 →
    c.tryMilliseconds millis = some (millis * 1000000)
  truncates : ∀ t span, Truncatable t → 0 < span → span ≤ maxI64 →
    c.durationTrunc t span = some (t - t % span)

/-- A duration of the specification: at least one millisecond, and its nanoseconds fit into
64 bits. -/
def Admissible (duration : Nat) : Prop :=
  1000000 ≤ duration ∧ (duration : Int) ≤ maxI64
deriving Decidable

/-- The event time, in whole milliseconds, can be truncated. -/
def InRange (msg : Message) : Prop :=
  Truncatable (fromTimestampMillis (timestampMillis msg.eventTime))
deriving Decidable

variable {duration : Nat} {startMillis endMillis : Int}

theorem Admissible.asMillis_bounds (h : Admissible duration) :
    0 < asMillis duration ∧ asMillis duration * 1000000 ≤ maxI64 := by
  unfold Admissible maxI64 at h
  unfold asMillis maxI64
  omega

variable {msg : Message}

theorem InRange.millis_bounds (h : InRange msg) : -9223372036854 ≤ timestampMillis msg.eventTime ∧
      timestampMillis msg.eventTime ≤ 9223372036854 := by
  unfold InRange Truncatable fromTimestampMillis maxI64 at h
  omega

/-- The truncation of a timestamp; nothing when one of the conversions fails. -/
def checkedTruncateToDuration (c : Chrono) (timestampMillis durationMillis : Int) : Option Int := do
  let dt ← c.timestampMillisOpt timestampMillis
  let duration ← c.tryMilliseconds durationMillis
  let truncated ← c.durationTrunc dt duration
  return Numaflow.timestampMillis truncated

/-- The window between two points in time; nothing when one of them cannot be represented. -/
def checkedWindow (c : Chrono) (startMillis endMillis : Int) : Option Window := do
  let startTime ← c.timestampMillisOpt startMillis
  let endTime ← c.timestampMillisOpt endMillis
  return ⟨startTime, endTime⟩

variable {c : Chrono}

/-- The truncation yields the largest multiple that is not after the timestamp. -/
theorem checkedTruncateToDuration_eq (hc : c.Documented) (hmsg : InRange msg)
    (hduration : Admissible duration) :
    checkedTruncateToDuration c (timestampMillis msg.eventTime) (asMillis duration) =
      some (truncateToDuration (timestampMillis msg.eventTime) (asMillis duration)) := by
  have hbounds := hmsg.millis_bounds
  have hmillis := hduration.asMillis_bounds
  have hdt := hc.representable (timestampMillis msg.eventTime) (by omega) (by omega)
  have hspan := hc.milliseconds (asMillis duration) (by unfold maxI64; omega)
    (by unfold maxI64 at hmillis ⊢; omega)
  have htrunc := hc.truncates _ (asMillis duration * 1000000) hmsg (by omega) hmillis.2
  -- both factors of the remainder are whole milliseconds
  have hmod : fromTimestampMillis (timestampMillis msg.eventTime) % (asMillis duration * 1000000) =
      timestampMillis msg.eventTime % asMillis duration * 1000000 := by
    unfold fromTimestampMillis
    rw [Int.mul_comm, Int.mul_comm (asMillis duration), Int.mul_emod_mul_of_pos _ _ (by omega),
      Int.mul_comm]
  have hwhole : timestampMillis (fromTimestampMillis (timestampMillis msg.eventTime) -
      timestampMillis msg.eventTime % asMillis duration * 1000000) =
        timestampMillis msg.eventTime - timestampMillis msg.eventTime % asMillis duration := by
    unfold fromTimestampMillis
    rw [← Int.sub_mul]
    exact timestampMillis_fromTimestampMillis _
  simp [checkedTruncateToDuration, hdt, hspan, htrunc, hmod, hwhole, truncateToDuration]

theorem checkedWindow_eq (hc : c.Documented) (hstart : -20000000000000 ≤ startMillis)
    (hle : startMillis ≤ endMillis) (hend : endMillis ≤ 20000000000000) :
    checkedWindow c startMillis endMillis = some (millisWindow startMillis endMillis) := by
  simp [checkedWindow, hc.representable startMillis (by omega) (by omega),
    hc.representable endMillis (by omega) (by omega), millisWindow]

/-- A window of whole milliseconds contains the event time when it contains its
millisecond. -/
theorem millisWindow_holds_iff : (millisWindow startMillis endMillis).Holds msg ↔
      startMillis ≤ timestampMillis msg.eventTime ∧ timestampMillis msg.eventTime < endMillis := by
  constructor
  · intro h
    unfold Window.Holds at h
    rw [millisWindow_startTime, millisWindow_endTime] at h
    unfold fromTimestampMillis at h
    unfold timestampMillis
    omega
  · intro h
    exact millisWindow_holds h.1 h.2

/-! ## Fixed windows -/

namespace FixedWindowManager

/-- The window of a message; nothing when the code stops. -/
def checkedCreateWindow (c : Chrono) (m : FixedWindowManager) (msg : Message) : Option Window := do
  let windowLengthMillis := asMillis m.windowLength
  let eventTimeMillis := timestampMillis msg.eventTime
  let startTimeMillis ← checkedTruncateToDuration c eventTimeMillis windowLengthMillis
  let endTimeMillis := startTimeMillis + windowLengthMillis
  checkedWindow c startTimeMillis endTimeMillis

variable {m : FixedWindowManager}

/-- The code for fixed windows does not stop. -/
theorem checkedCreateWindow_eq (hc : c.Documented) (hlength : Admissible m.windowLength)
    (hmsg : InRange msg) : m.checkedCreateWindow c msg = some (m.createWindow msg) := by
  have hbounds := hmsg.millis_bounds
  have hmillis := hlength.asMillis_bounds
  have hnonneg := Int.emod_nonneg (timestampMillis msg.eventTime) hmillis.1.ne'
  have hlt := Int.emod_lt_of_pos (timestampMillis msg.eventTime) hmillis.1
  unfold maxI64 at hmillis
  unfold checkedCreateWindow createWindow
  simp only [checkedTruncateToDuration_eq hc hmsg hlength, Option.bind_eq_bind, Option.bind_some]
  apply checkedWindow_eq hc
  · unfold truncateToDuration
    omega
  · omega
  · unfold truncateToDuration
    omega

variable {k : Int}

/-- The window of a message is the interval of the grid that contains the event time. -/
theorem createWindow_grid (hlength : Admissible m.windowLength)
    (h : (millisWindow (k * asMillis m.windowLength) ((k + 1) * asMillis m.windowLength)).Holds msg) :
    m.createWindow msg =
      millisWindow (k * asMillis m.windowLength) ((k + 1) * asMillis m.windowLength) := by
  have hpos := hlength.asMillis_bounds.1
  rw [millisWindow_holds_iff] at h
  have hle := (Int.le_ediv_iff_mul_le hpos).mpr h.1
  have hlt := (Int.ediv_lt_iff_lt_mul hpos).mpr h.2
  have hk : timestampMillis msg.eventTime / asMillis m.windowLength = k := by omega
  have hdiv := Int.ediv_mul_add_emod (timestampMillis msg.eventTime) (asMillis m.windowLength)
  have hstart : truncateToDuration (timestampMillis msg.eventTime) (asMillis m.windowLength) =
      k * asMillis m.windowLength := by
    rw [hk] at hdiv
    unfold truncateToDuration
    omega
  unfold createWindow
  simp only [hstart, Int.add_mul, Int.one_mul]

/-- The grid has such an interval. -/
theorem exists_grid (hlength : Admissible m.windowLength) (msg : Message) : ∃ k : Int,
      (millisWindow (k * asMillis m.windowLength) ((k + 1) * asMillis m.windowLength)).Holds msg := by
  have hpos := hlength.asMillis_bounds.1
  refine ⟨timestampMillis msg.eventTime / asMillis m.windowLength, millisWindow_holds_iff.mpr ⟨?_, ?_⟩⟩
  · exact Int.ediv_mul_le _ hpos.ne'
  · exact Int.lt_ediv_add_one_mul_self _ hpos

end FixedWindowManager

/-! ## Sliding windows -/

namespace SlidingWindowManager

/-- The loop over the windows, with an upper limit on the number of rounds; nothing when the
code stops or the limit is reached. -/
def checkedWindowsFrom (c : Chrono) (slideMillis eventTimeMillis : Int) :
    Nat → Int → Int → Option (List Window)
  | 0, _, _ => none
  | rounds + 1, currentStart, currentEnd =>
    if currentStart ≤ eventTimeMillis ∧ eventTimeMillis < currentEnd then do
      let window ← checkedWindow c currentStart currentEnd
      let windows ← checkedWindowsFrom c slideMillis eventTimeMillis rounds
        (currentStart - slideMillis) (currentEnd - slideMillis)
      return window :: windows
    else some []

/-- The windows of a message. -/
def checkedCreateWindows (c : Chrono) (rounds : Nat) (m : SlidingWindowManager) (msg : Message) :
    Option (List Window) := do
  let windowLengthMillis := asMillis m.windowLength
  let slideMillis := asMillis m.slide
  let eventTimeMillis := timestampMillis msg.eventTime
  let startTimeMillis ← checkedTruncateToDuration c eventTimeMillis slideMillis
  checkedWindowsFrom c slideMillis eventTimeMillis rounds startTimeMillis
    (startTimeMillis + windowLengthMillis)

variable {currentStart slideMillis lengthMillis eventTimeMillis : Int}

/-- Every round moves the end at least one millisecond towards the event time, so the loop ends
by its own test. -/
theorem checkedWindowsFrom_eq (hc : c.Documented)
    (hslide : 0 < slideMillis) (hlength : 0 < lengthMillis ∧ lengthMillis ≤ 9223372036855)
    (htime : -9223372036854 ≤ eventTimeMillis ∧ eventTimeMillis ≤ 9223372036854) {rounds fuel : Nat}
    (hrounds : currentStart + lengthMillis - eventTimeMillis < rounds)
    (hfuel : currentStart + lengthMillis - eventTimeMillis ≤ fuel) (hpos : 0 < rounds) :
    checkedWindowsFrom c slideMillis eventTimeMillis rounds currentStart
        (currentStart + lengthMillis) =
      some (windowsFrom lengthMillis slideMillis eventTimeMillis fuel currentStart) := by
  induction rounds generalizing fuel currentStart with
  | zero => omega
  | succ rounds ih =>
    unfold checkedWindowsFrom
    by_cases hin : currentStart ≤ eventTimeMillis ∧ eventTimeMillis < currentStart + lengthMillis
    · cases fuel with
      | zero => omega
      | succ fuel =>
        have hwindow : checkedWindow c currentStart (currentStart + lengthMillis) =
            some (millisWindow currentStart (currentStart + lengthMillis)) := by
          apply checkedWindow_eq hc
          · omega
          · omega
          · omega
        have hnext : checkedWindowsFrom c slideMillis eventTimeMillis rounds
            (currentStart - slideMillis) (currentStart - slideMillis + lengthMillis) =
              some (windowsFrom lengthMillis slideMillis eventTimeMillis fuel
                (currentStart - slideMillis)) := by
          apply ih
          · omega
          · omega
          · omega
        rw [sub_add_eq_add_sub] at hnext
        unfold windowsFrom
        rw [if_pos hin, if_pos hin, hwindow]
        simp [hnext]
    · rw [if_neg hin]
      cases fuel with
      | zero => rfl
      | succ =>
        unfold windowsFrom
        rw [if_neg hin]

variable {m : SlidingWindowManager}

/-- The code for sliding windows does not stop. -/
theorem checkedCreateWindows_eq (hc : c.Documented) (hlength : Admissible m.windowLength)
    (hslide : Admissible m.slide) (hmsg : InRange msg) {rounds : Nat}
    (hrounds : asMillis m.windowLength < rounds) :
    m.checkedCreateWindows c rounds msg = some (m.createWindows msg) := by
  have hmillis := hlength.asMillis_bounds
  have hpos := hslide.asMillis_bounds.1
  have hnonneg := Int.emod_nonneg (timestampMillis msg.eventTime) hpos.ne'
  unfold checkedCreateWindows createWindows
  simp only [checkedTruncateToDuration_eq hc hmsg hslide, Option.bind_eq_bind, Option.bind_some]
  apply checkedWindowsFrom_eq hc hpos _ hmsg.millis_bounds
  · unfold truncateToDuration
    omega
  · unfold truncateToDuration
    omega
  · omega
  · unfold maxI64 at hmillis
    omega

/-- The loop yields windows in strictly descending order. -/
theorem windowsFrom_descending (hslide : 0 < slideMillis) (fuel : Nat) (currentStart : Int) :
    (windowsFrom lengthMillis slideMillis eventTimeMillis fuel currentStart).Pairwise
      fun v w => w.startTime < v.startTime ∧ w.endTime < v.endTime := by
  induction fuel generalizing currentStart with
  | zero => exact List.Pairwise.nil
  | succ _ ih =>
    unfold windowsFrom
    split_ifs with hin
    · rw [List.pairwise_cons]
      refine ⟨?_, ih (currentStart - slideMillis)⟩
      intro w hw
      rcases mem_windowsFrom hw with ⟨i, rfl, -, -⟩
      have hback : 0 ≤ (i : Int) * slideMillis := by positivity
      simp only [millisWindow_startTime, millisWindow_endTime]
      unfold fromTimestampMillis
      omega
    · exact List.Pairwise.nil

end SlidingWindowManager

/-! ## Both managers -/

/-- For durations of at least one millisecond and event times in the range of the library the code
does not stop.  Sliding windows are exactly the intervals `[k * slide, k * slide + length)`
that contain the event time, without duplicates and in strictly descending order; the fixed window
is the unique interval `[k * length, (k + 1) * length)` that does.  Length and slide count in
whole milliseconds. -/
theorem aligned_assignment (hc : c.Documented) (hmsg : InRange msg) :
    (∀ m : SlidingWindowManager, Admissible m.windowLength → Admissible m.slide → ∃ windows,
        (∀ rounds : Nat, asMillis m.windowLength < rounds →
          m.checkedCreateWindows c rounds msg = some windows) ∧
        windows.Nodup ∧
        (windows.Pairwise fun v w => w.startTime < v.startTime ∧ w.endTime < v.endTime) ∧
        ∀ w, w ∈ windows ↔ w.Holds msg ∧ ∃ k : Int, w =
          millisWindow (k * asMillis m.slide) (k * asMillis m.slide + asMillis m.windowLength)) ∧
    ∀ m : FixedWindowManager, Admissible m.windowLength →
      ∃ window, m.checkedCreateWindow c msg = some window ∧ window.Holds msg ∧ (∃ k : Int, window =
          millisWindow (k * asMillis m.windowLength) ((k + 1) * asMillis m.windowLength)) ∧
        ∀ k : Int,
          (millisWindow (k * asMillis m.windowLength) ((k + 1) * asMillis m.windowLength)).Holds msg →
          millisWindow (k * asMillis m.windowLength) ((k + 1) * asMillis m.windowLength) =
            window := by
  constructor
  · intro m hlength hslide
    have hdescending : (m.createWindows msg).Pairwise
        fun v w => w.startTime < v.startTime ∧ w.endTime < v.endTime :=
      windowsFrom_descending hslide.asMillis_bounds.1 _ _
    refine ⟨m.createWindows msg, ?_, ?_, hdescending, ?_⟩
    · intro rounds hrounds
      exact checkedCreateWindows_eq hc hlength hslide hmsg hrounds
    · apply hdescending.imp
      rintro v w hlt rfl
      exact absurd hlt.1 (lt_irrefl _)
    · intro w
      rw [mem_createWindows hslide.1]
      constructor
      · rintro ⟨k, rfl, hstart, hend⟩
        exact ⟨millisWindow_holds hstart hend, k, rfl⟩
      · rintro ⟨hholds, k, rfl⟩
        exact ⟨k, rfl, millisWindow_holds_iff.mp hholds⟩
  · intro m hlength
    rcases exists_grid hlength msg with ⟨k, hk⟩
    refine ⟨m.createWindow msg, checkedCreateWindow_eq hc hlength hmsg,
      createWindow_holds hlength.1 msg,
      ⟨k, createWindow_grid hlength hk⟩, ?_⟩
    intro k' hk'
    exact (createWindow_grid hlength hk').symm

/-- The library on the points in time and durations below. -/
def utc : Chrono where
  timestampMillisOpt millis :=
    if -8334601228800000 ≤ millis ∧ millis ≤ 8210266876799999 then
      some (fromTimestampMillis millis) else none
  tryMilliseconds millis :=
    if -maxI64 ≤ millis ∧ millis ≤ maxI64 then some (millis * 1000000) else none
  durationTrunc t span :=
    if Truncatable t ∧ 0 < span ∧ span ≤ maxI64 then some (t - t % span) else none

theorem documented_utc : utc.Documented where
  representable _ hlow hhigh := if_pos ⟨hlow, hhigh⟩
  milliseconds _ hlow hhigh := if_pos ⟨hlow, hhigh⟩
  truncates _ _ ht hpos hle := if_pos ⟨ht, hpos, hle⟩

/-- A message of the given event time in nanoseconds. -/
def messageAt (eventTime : Int) : Message :=
  { eventTime }

/-- Windows of 5 ms every 2 ms at 2 ms before the epoch, and the window of 7 ms there. -/
theorem aligned_assignment_before_epoch :
    (SlidingWindowManager.new 5000000 2000000).checkedCreateWindows utc 6 (messageAt (-2000000)) =
        some [millisWindow (-2) 3, millisWindow (-4) 1, millisWindow (-6) (-1)] ∧
      ∃ window, (FixedWindowManager.new 7000000).checkedCreateWindow utc (messageAt (-2000000)) =
        some window ∧ window.Holds (messageAt (-2000000)) := by
  have hmsg : InRange (messageAt (-2000000)) := by decide
  rcases (aligned_assignment documented_utc hmsg).2 (new 7000000) (by decide) with ⟨window, hwindow, hholds, -⟩
  exact ⟨by decide, window, hwindow, hholds⟩

/-- Durations lose what is less than a millisecond: for windows of 1.5 ms an event at 2 ms gets
the window from 2 ms to 3 ms, which is not on the grid of 1.5 ms.  A slide of 300 years does not fit
into 64 bits of nanoseconds, and the code stops. -/
theorem durations_not_exact : (1000000 ≤ 1500000 ∧
      (FixedWindowManager.new 1500000).checkedCreateWindow utc (messageAt 2000000) =
        some ⟨2000000, 3000000⟩ ∧
      ∀ k : Int, (⟨2000000, 3000000⟩ : Window) ≠ ⟨k * 1500000, (k + 1) * 1500000⟩) ∧
    ∀ rounds, (SlidingWindowManager.new 9460800000000000000 9460800000000000000).checkedCreateWindows
      utc rounds (messageAt 2000000) = none := by
  refine ⟨⟨by decide, by decide, ?_⟩, fun rounds => rfl⟩
  intro k heq
  rw [Window.mk.injEq] at heq
  omega

end Numaflow.Aligned
