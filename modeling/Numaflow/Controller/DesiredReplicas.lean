import Numaflow.Controller.VertexScaler
import Numaflow.Lib.Fold

/-!
# The number of replicas for the backlog

The scaler computes, for every partition, how many replicas finish the pending messages in
the target time, and takes the largest number.  No partition is to have more replicas than
pending messages, but for this the pending count is converted to 32 bits.

The floating-point values are rational numbers here.

Main results: `desiredReplicas_eq`, `desiredReplicas_follows_iff`.
-/

namespace Numaflow.Controller

open Lib List

/-- Round to the nearest integer, half away from zero. -/
def mathRound (x : ℚ) : Int :=
  if 0 ≤ x then ⌊x + 1 / 2⌋ else ⌈x - 1 / 2⌉

/-- The rate and the pending messages of a partition. -/
structure Backlog where
  rate : ℚ
  pending : Int
deriving DecidableEq

/-- The lengths of the buffers of a vertex. -/
structure BufferLengths where
  bufferLength : Int
  bufferLengthLimit : Int
  targetAvailableBufferLength : Int

section

variable (v : ScaledVertex) (t : Nat)

/-- The replicas that finish the backlog in the target time, rounded. -/
def Backlog.quotient (p : Backlog) : Int :=
  mathRound (p.pending / p.rate / t * v.status.readyReplicas.toNat)

/-- The number for one partition, before it is limited. -/
def Backlog.desired (lengths : BufferLengths)
    (p : Backlog) : Int :=
  if v.isASource ∨
      p.pending ≤ lengths.bufferLength - lengths.targetAvailableBufferLength then
    int32 (p.quotient v t)
  else if lengths.bufferLengthLimit ≤ p.pending then
    int32 (int32 v.status.replicas.toNat + int32 v.scale.getReplicasPerScaleUp)
  else
    let singleReplicaContribution : ℚ :=
      (lengths.bufferLengthLimit - p.pending : Int) / v.status.readyReplicas.toNat
    int32 (mathRound (lengths.targetAvailableBufferLength / singleReplicaContribution))

/-- At least one, and not more than the pending messages, converted to 32 bits. -/
def Backlog.limited (p : Backlog) (desired : Int) : Int :=
  let desired := if desired = 0 then 1 else desired
  if int32 p.pending < desired ∧ 0 < p.pending then int32 p.pending else desired

def desiredReplicas (lengths : BufferLengths)
    (partitions : List Backlog) : Int :=
  partitions.foldl (fun maxDesired p =>
    if p.pending = 0 ∨ p.rate = 0 then maxDesired
    else
      let desired := p.limited (p.desired v t lengths)
      if maxDesired < desired then desired else maxDesired) 1

end

namespace Backlog

variable (v : ScaledVertex) (t : Nat) (p : Backlog)

/-- The replicas that the backlog asks for. -/
def wanted : Int :=
  if 0 < p.pending ∧ 0 < p.rate then min p.pending (max 1 (p.quotient v t)) else 1

/-- The low 32 bits of the pending count, read as a signed number, are below the quotient, and
the pending count is not. -/
def Cut : Prop :=
  2147483648 ≤ p.pending ∧ 0 < p.rate ∧ int32 p.pending < max 1 (p.quotient v t)

/-- What the loop counts for a partition of a source. -/
def counted : Int :=
  if 0 < p.pending ∧ 0 < p.rate then min (int32 p.pending) (max 1 (p.quotient v t))
  else 1

/-- The values that the caller guarantees, and the quotient fits. -/
structure Fits : Prop where
  rate : 0 ≤ p.rate
  pending : 0 ≤ p.pending
  quotient : p.quotient v t < 2147483648

variable {v t p}

/-- The replicas that the pending messages call for, rounded to the nearest integer. -/
theorem quotient_spec (hrate : 0 ≤ p.rate) (hpending : 0 ≤ p.pending) :
    p.quotient v t =
        ⌊(p.pending / p.rate / t * v.status.readyReplicas.toNat + 1 / 2 : ℚ)⌋ ∧
      0 ≤ p.quotient v t := by
  have hcast : (0 : ℚ) ≤ p.pending := by exact_mod_cast hpending
  have hx : 0 ≤ p.pending / p.rate / t * (v.status.readyReplicas.toNat : ℚ) :=
    mul_nonneg (div_nonneg (div_nonneg hcast hrate) (Nat.cast_nonneg _)) (Nat.cast_nonneg _)
  rw [quotient, mathRound, if_pos hx]
  exact ⟨rfl, Int.floor_nonneg.mpr (by linarith)⟩

theorem limited_eq (h : p.Fits v t) (hpending : 0 < p.pending) :
    p.limited (int32 (p.quotient v t)) =
      min (int32 p.pending) (max 1 (p.quotient v t)) := by
  have hnonneg : 0 ≤ p.quotient v t := (quotient_spec h.rate h.pending).2
  rw [int32_of_fits (by omega) h.quotient]
  unfold limited
  dsimp only
  split_ifs <;> omega

/-- The count falls short of what is wanted exactly when it is cut. -/
theorem counted_le_wanted (h : p.Fits v t) :
    p.counted v t ≤ p.wanted v t ∧
      (p.counted v t < p.wanted v t ↔ p.Cut v t) := by
  have hquotient := h.quotient
  unfold counted wanted Cut
  split_ifs with hactive
  · rcases lt_or_ge p.pending 2147483648 with hsmall | hlarge
    · rw [int32_of_fits (by omega) hsmall]
      omega
    · have hcap : min p.pending (max 1 (p.quotient v t)) =
          max 1 (p.quotient v t) := by omega
      rw [hcap]
      refine ⟨min_le_right _ _, ?_⟩
      rw [min_lt_iff, lt_self_iff_false, or_false]
      exact ⟨fun hlt => ⟨hlarge, hactive.2, hlt⟩, fun hcut => hcut.2.2⟩
  · refine ⟨le_rfl, ?_⟩
    simp only [lt_self_iff_false, false_iff]
    rintro ⟨hlarge, hrate, -⟩
    exact hactive ⟨by omega, hrate⟩

end Backlog

variable {v : ScaledVertex} {t : Nat} {partitions : List Backlog}

/-- The result is the largest number counted, and at least one. -/
theorem desiredReplicas_eq (hsource : v.isASource = true) (lengths : BufferLengths)
    (hfits : ∀ p ∈ partitions, p.Fits v t) :
    desiredReplicas v t lengths partitions =
      (partitions.map (Backlog.counted v t)).foldl max 1 := by
  have hloop : ∀ m ≥ 1, partitions.foldl (fun maxDesired p =>
      if p.pending = 0 ∨ p.rate = 0 then maxDesired
      else
        let desired := p.limited (p.desired v t lengths)
        if maxDesired < desired then desired else maxDesired) m =
      (partitions.map (Backlog.counted v t)).foldl max m := by
    induction partitions with
    | nil => exact fun _ _ => rfl
    | cons p _ ih =>
      intro m hm
      rw [forall_mem_cons] at hfits
      have hround : (if p.pending = 0 ∨ p.rate = 0 then m
          else
            let desired := p.limited (p.desired v t lengths)
            if m < desired then desired else m) = max m (p.counted v t) := by
        unfold Backlog.counted
        by_cases hactive : 0 < p.pending ∧ 0 < p.rate
        · rw [if_neg (not_or.mpr ⟨hactive.1.ne', hactive.2.ne'⟩), if_pos hactive, Backlog.desired,
            if_pos (Or.inl hsource), Backlog.limited_eq hfits.1 hactive.1]
          dsimp only
          split_ifs <;> omega
        · have hzero : p.pending = 0 ∨ p.rate = 0 := by
            by_contra hne
            rw [not_or] at hne
            exact hactive ⟨lt_of_le_of_ne hfits.1.pending (Ne.symm hne.1),
              lt_of_le_of_ne hfits.1.rate (Ne.symm hne.2)⟩
          rw [if_pos hzero, if_neg hactive]
          exact (max_eq_left hm).symm
      rw [foldl_cons, map_cons, foldl_cons, hround]
      exact ih hfits.2 _ (hm.trans (le_max_left _ _))
  exact hloop 1 (Int.le_refl 1)

/-- More pending messages do not ask for fewer replicas. -/
theorem Backlog.wanted_mono {p q : Backlog} (hrate : p.rate = q.rate) (hle : p.pending ≤ q.pending) :
    p.wanted v t ≤ q.wanted v t := by
  unfold Backlog.wanted
  by_cases hp : 0 < p.pending ∧ 0 < p.rate
  · have hq : 0 < q.pending ∧ 0 < q.rate := ⟨by omega, hrate ▸ hp.2⟩
    have hquotient : p.quotient v t ≤ q.quotient v t := by
      rw [(quotient_spec hp.2.le hp.1.le).1, (quotient_spec hq.2.le hq.1.le).1, hrate]
      have hpos := hq.2.le
      gcongr
    rw [if_pos hp, if_pos hq]
    exact min_le_min hle (max_le_max le_rfl hquotient)
  · rw [if_neg hp]
    split_ifs <;> omega

/-- The result is the largest number that a partition asks for exactly when every partition
whose pending count is cut asks for one replica, or for no more than one that is not cut. -/
theorem desiredReplicas_follows_iff (v : ScaledVertex) (hsource : v.isASource = true)
    (t : Nat) (lengths : BufferLengths) (partitions : List Backlog)
    (hfits : ∀ p ∈ partitions, p.Fits v t) :
    (desiredReplicas v t lengths partitions =
        (partitions.map (Backlog.wanted v t)).foldl max 1 ↔
      ∀ p ∈ partitions, p.Cut v t → p.wanted v t ≤ 1 ∨
        ∃ q ∈ partitions, ¬ q.Cut v t ∧
          p.wanted v t ≤ q.wanted v t) ∧
    ∀ p q : Backlog, p.rate = q.rate → p.pending ≤ q.pending →
      p.wanted v t ≤ q.wanted v t := by
  refine ⟨?_, fun p q => Backlog.wanted_mono⟩
  rw [desiredReplicas_eq hsource lengths hfits]
  have hle := fun p hp => (Backlog.counted_le_wanted (hfits p hp)).1
  have hcut := fun p hp => (Backlog.counted_le_wanted (hfits p hp)).2
  have hcounted : ∀ p ∈ partitions, p.counted v t ≤
      (partitions.map (Backlog.counted v t)).foldl max 1 :=
    fun p hp => le_foldl_max_of_mem (mem_map_of_mem hp)
  constructor
  · intro heq p hp _
    have hwanted : ∀ p ∈ partitions, p.wanted v t ≤
        (partitions.map (Backlog.counted v t)).foldl max 1 :=
      fun p hp => heq ▸ le_foldl_max_of_mem (mem_map_of_mem hp)
    -- the partition that the result comes from is not cut
    rcases mem_cons.mp (foldl_max_mem_cons
      (l := partitions.map (Backlog.counted v t)) (a := 1)) with hone | hmem
    · exact .inl (hone ▸ hwanted p hp)
    · obtain ⟨q, hq, hmax⟩ := mem_map.mp hmem
      rw [← hmax] at hwanted
      exact .inr ⟨q, hq, fun hcut' => absurd (hwanted q hq) (not_le.mpr ((hcut q hq).mpr hcut')),
        (hwanted p hp).trans (hle q hq)⟩
  · intro hcond
    have hone := (foldl_max_le.mp (le_refl
      ((partitions.map (Backlog.counted v t)).foldl max 1))).1
    have huncut : ∀ q ∈ partitions, ¬ q.Cut v t →
        q.wanted v t ≤ q.counted v t :=
      fun q hq hnot => not_lt.mp fun hlt => hnot ((hcut q hq).mp hlt)
    refine le_antisymm (foldl_max_le.mpr ⟨?_, forall_mem_map.mpr fun p hp => ?_⟩)
      (foldl_max_le.mpr ⟨hone, forall_mem_map.mpr fun p hp => ?_⟩)
    · exact (foldl_max_le.mp (le_refl _)).1
    · exact (hle p hp).trans (le_foldl_max_of_mem (mem_map_of_mem hp))
    · by_cases hc : p.Cut v t
      · rcases hcond p hp hc with hle' | ⟨q, hq, hnot, hle'⟩
        · exact hle'.trans hone
        · exact hle'.trans ((huncut q hq hnot).trans (hcounted q hq))
      · exact (huncut p hp hc).trans (hcounted p hp)

/-- A source with one ready replica. -/
def oneReady : ScaledVertex where
  pipelineName := "p"
  name := "in"
  source := true
  status := ⟨.running, 1, 1, 1, "", "", 0⟩

theorem desiredReplicas_follows_example :
    desiredReplicas oneReady 20 ⟨0, 0, 0⟩ [⟨1, 100⟩] =
      ([⟨1, 100⟩].map (Backlog.wanted oneReady 20)).foldl max 1 :=
  (desiredReplicas_follows_iff oneReady rfl 20 ⟨0, 0, 0⟩ _
    (forall_mem_singleton.mpr ⟨by decide, by decide, by decide +kernel⟩)).1.mpr
    (forall_mem_singleton.mpr fun hcut => absurd hcut.1 (by decide))

/-- One pending message more, and the partition is no longer counted. -/
theorem desiredReplicas_drops :
    desiredReplicas oneReady 20 ⟨0, 0, 0⟩ [⟨1, 2147483647⟩] = 107374182 ∧
      Backlog.wanted oneReady 20 ⟨1, 2147483648⟩ = 107374182 ∧
      desiredReplicas oneReady 20 ⟨0, 0, 0⟩ [⟨1, 2147483648⟩] = 1 := by
  decide +kernel

end Numaflow.Controller
