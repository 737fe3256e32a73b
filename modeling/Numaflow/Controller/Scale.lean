import Numaflow.Lib.Check

/-!
# Scale settings

The autoscalers of vertices and MonoVertices share the settings, the bounds that cron
schedules narrow, and the way the number of replicas moves towards a target: by a limited
number at a time, and not before a cooldown has passed.

Replica counts are 32-bit integers, and the limits are unsigned ones.  Times are measured in
seconds, as the rational number that the floating-point value is.

Main results: `Scale.stepUp_eq`.
-/

namespace Numaflow.Controller

/-- Conversion to a signed 32-bit integer. -/
def int32 (n : Int) : Int :=
  (n + 2147483648) % 4294967296 - 2147483648

variable {n : Int}

theorem int32_of_fits (hle : -2147483648 ≤ n) (hlt : n < 2147483648) : int32 n = n := by
  unfold int32
  omega

/-- A larger unsigned number becomes a negative one. -/
theorem int32_of_large (hle : 2147483648 ≤ n) (hlt : n < 4294967296) :
    int32 n = n - 4294967296 := by
  unfold int32
  omega

/-- A window between two cron expressions, with bounds of its own. -/
structure CronSchedule where
  startAt : String
  endAt : String
  min : Option Int32 := none
  max : Option Int32 := none
deriving DecidableEq, Repr

structure CronScheduling where
  timezone : String := ""
  schedules : List CronSchedule
deriving DecidableEq, Repr

def CronScheduling.getTimezone (cron : CronScheduling) : String :=
  if cron.timezone = "" then "UTC" else cron.timezone

/-- The parameters for autoscaling; `replicasPerScale` is deprecated. -/
structure Scale where
  disabled : Bool := false
  min : Option Int32 := none
  max : Option Int32 := none
  zeroReplicaSleepSeconds : Option UInt32 := none
  replicasPerScale : Option UInt32 := none
  scaleUpCooldownSeconds : Option UInt32 := none
  scaleDownCooldownSeconds : Option UInt32 := none
  replicasPerScaleUp : Option UInt32 := none
  replicasPerScaleDown : Option UInt32 := none
  cron : Option CronScheduling := none
deriving DecidableEq, Repr

def defaultCooldownSeconds : Nat := 90

def defaultZeroReplicaSleepSeconds : Nat := 120

def defaultReplicasPerScale : Nat := 2

/-- The library for cron expressions and time zones: the next time at which an expression
fires, in a location and after a time, and whether a location is known. -/
structure CronLibrary where
  parse : String → Option (String → Int → Int)
  loadLocation : String → Bool

structure ParsedCronSchedule where
  schedule : CronSchedule
  nextStart : String → Int → Int
  nextEnd : String → Int → Int

/-- The window is open when it ends before it starts again. -/
def ParsedCronSchedule.isActiveAt (p : ParsedCronSchedule) (location : String) (t : Int) : Bool :=
  p.nextEnd location t < p.nextStart location t

/-- Parse the expressions of the schedules; none when one of them is invalid. -/
def parseCronSchedules (lib : CronLibrary) (cron : CronScheduling) :
    Option (List ParsedCronSchedule) :=
  cron.schedules.mapM fun schedule => do
    let nextStart ← lib.parse schedule.startAt
    let nextEnd ← lib.parse schedule.endAt
    return ⟨schedule, nextStart, nextEnd⟩

/-- Restrict a number to an interval. -/
def clampInt32 (v lo hi : Int) : Int :=
  if v < lo then lo else if hi < v then hi else v

/-- Bounds for the number of replicas, and whether a cron window set them. -/
structure Bounds where
  minReplicas : Int
  maxReplicas : Int
  cronActive : Bool
deriving DecidableEq, Repr

namespace Scale

section

variable (s : Scale)

def getMinReplicas : Int :=
  match s.min with
  | none => 0
  | some x => if x.toInt < 0 then 0 else x.toInt

def getMaxReplicas : Int :=
  match s.max with
  | none => 50
  | some x => x.toInt

def getScaleUpCooldownSeconds : Nat :=
  (s.scaleUpCooldownSeconds.map UInt32.toNat).getD defaultCooldownSeconds

def getScaleDownCooldownSeconds : Nat :=
  (s.scaleDownCooldownSeconds.map UInt32.toNat).getD defaultCooldownSeconds

def getZeroReplicaSleepSeconds : Nat :=
  (s.zeroReplicaSleepSeconds.map UInt32.toNat).getD defaultZeroReplicaSleepSeconds

/-- A limit of one direction, or else the deprecated common one. -/
def replicasPer (limit : Option UInt32) : Nat :=
  match limit, s.replicasPerScale with
  | some n, _ => n.toNat
  | none, some n => n.toNat
  | none, none => defaultReplicasPerScale

def getReplicasPerScaleUp : Nat :=
  s.replicasPer s.replicasPerScaleUp

def getReplicasPerScaleDown : Nat :=
  s.replicasPer s.replicasPerScaleDown

/-- The bounds of the first active cron window, within those of the settings. -/
def effectiveScaleBoundsAt (lib : CronLibrary) (s : Scale) (parsed : List ParsedCronSchedule)
    (t : Int) : Bounds :=
  let base : Bounds := ⟨s.getMinReplicas, s.getMaxReplicas, false⟩
  match s.cron with
  | none => base
  | some cron =>
    if parsed.isEmpty || !lib.loadLocation cron.getTimezone then base
    else
      match parsed.find? fun p => p.isActiveAt cron.getTimezone t with
      | none => base
      | some p =>
        { minReplicas := p.schedule.min.elim base.minReplicas
            fun x => clampInt32 x.toInt base.minReplicas base.maxReplicas
          maxReplicas := p.schedule.max.elim base.maxReplicas
            fun x => clampInt32 x.toInt base.minReplicas base.maxReplicas
          cronActive := true }

/-- The effective bounds; none when a cron expression is invalid. -/
def effectiveScaleBoundsFor (lib : CronLibrary) (s : Scale) (t : Int) : Option Bounds :=
  match s.cron with
  | none => some (s.effectiveScaleBoundsAt lib [] t)
  | some cron => (parseCronSchedules lib cron).map fun parsed => s.effectiveScaleBoundsAt lib parsed t

/-- The next count on the way up. -/
def stepUp (current desired : Int) : Int :=
  let maxAllowedUp := int32 s.getReplicasPerScaleUp
  let diff := int32 (desired - current)
  int32 (current + if maxAllowedUp < diff then maxAllowedUp else diff)

/-- The next count on the way down. -/
def stepDown (current desired : Int) : Int :=
  let maxAllowedDown := int32 s.getReplicasPerScaleDown
  let diff := int32 (current - desired)
  int32 (current - if maxAllowedDown < diff then maxAllowedDown else diff)

/-! ## Ranges -/

theorem replicasPer_lt (limit : Option UInt32) : s.replicasPer limit < 4294967296 := by
  unfold replicasPer
  split
  · exact UInt32.toNat_lt _
  · exact UInt32.toNat_lt _
  · decide

/-- A replica count that fits into 32 bits. -/
def Fits (n : Int) : Prop :=
  -2147483648 ≤ n ∧ n < 2147483648

theorem fits_toInt (x : Int32) : Fits x.toInt :=
  ⟨x.le_toInt, x.toInt_lt⟩

theorem fits_getMinReplicas : Fits s.getMinReplicas := by
  unfold getMinReplicas
  split
  · exact ⟨by omega, by omega⟩
  · split_ifs
    · exact ⟨by omega, by omega⟩
    · exact fits_toInt _

theorem fits_getMaxReplicas : Fits s.getMaxReplicas := by
  unfold getMaxReplicas
  split
  · exact ⟨by omega, by omega⟩
  · exact fits_toInt _

end

variable {v lo hi t : Int} {lib : CronLibrary} {b : Bounds}

theorem fits_clampInt32 (hv : Fits v) (hlo : Fits lo) (hhi : Fits hi) :
    Fits (clampInt32 v lo hi) := by
  unfold clampInt32
  split_ifs
  · exact hlo
  · exact hhi
  · exact hv

theorem fits_effectiveScaleBoundsAt (lib : CronLibrary) (s : Scale)
    (parsed : List ParsedCronSchedule) (t : Int) :
    Fits (s.effectiveScaleBoundsAt lib parsed t).minReplicas ∧
      Fits (s.effectiveScaleBoundsAt lib parsed t).maxReplicas := by
  have hmin := s.fits_getMinReplicas
  have hmax := s.fits_getMaxReplicas
  have hclamp : ∀ (x : Option Int32) (base : Int), Fits base → Fits (x.elim base fun x =>
      clampInt32 x.toInt s.getMinReplicas s.getMaxReplicas) := by
    intro x base hbase
    cases x with
    | none => exact hbase
    | some x => exact fits_clampInt32 (fits_toInt x) hmin hmax
  unfold effectiveScaleBoundsAt
  split
  · exact ⟨hmin, hmax⟩
  · split_ifs
    · exact ⟨hmin, hmax⟩
    · split
      · exact ⟨hmin, hmax⟩
      · exact ⟨hclamp _ _ hmin, hclamp _ _ hmax⟩

theorem fits_effectiveScaleBoundsFor {s : Scale} (h : s.effectiveScaleBoundsFor lib t = some b) :
    Fits b.minReplicas ∧ Fits b.maxReplicas := by
  unfold effectiveScaleBoundsFor at h
  split at h
  · cases h
    exact s.fits_effectiveScaleBoundsAt lib [] t
  · rcases Option.map_eq_some_iff.mp h with ⟨parsed, -, rfl⟩
    exact s.fits_effectiveScaleBoundsAt lib parsed t

/-! ## Steps -/

section

variable (s : Scale) {c d : Int}

/-- A limit that does not fit takes replicas away. -/
theorem stepUp_eq (hc : 0 < c) (hlt : c < d) (hd : Fits d) : s.stepUp c d =
      if s.getReplicasPerScaleUp < 2147483648 then c + Min.min (d - c) s.getReplicasPerScaleUp
      else c - (4294967296 - s.getReplicasPerScaleUp) := by
  have hlimit : s.getReplicasPerScaleUp < 4294967296 := s.replicasPer_lt _
  unfold Fits at hd
  simp only [stepUp, int32]
  split_ifs <;> omega

/-- A limit that fits is kept, unless the difference does not fit. -/
theorem stepDown_of_fits (hd : Fits d) (hc : Fits c) (hlt : d < c)
    (hlimit : s.getReplicasPerScaleDown < 2147483648) :
    s.stepDown c d = if c - d < 2147483648 then c - Min.min (c - d) s.getReplicasPerScaleDown
      else d := by
  unfold Fits at hd hc
  simp only [stepDown, int32]
  split_ifs <;> omega

/-- A limit that does not fit adds replicas, unless the difference does not fit either. -/
theorem stepDown_of_large (hd : Fits d) (hc : Fits c) (hlt : d < c)
    (hlarge : 2147483648 ≤ s.getReplicasPerScaleDown) :
    s.stepDown c d = if c - d < 2147483648 then int32 (c + (4294967296 - s.getReplicasPerScaleDown))
      else c - Min.min (c - d) s.getReplicasPerScaleDown := by
  have hlimit : s.getReplicasPerScaleDown < 4294967296 := s.replicasPer_lt _
  unfold Fits at hd hc
  simp only [stepDown, int32]
  split_ifs <;> omega

end

end Scale

end Numaflow.Controller
