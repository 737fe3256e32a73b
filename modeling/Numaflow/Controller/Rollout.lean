import Numaflow.Lib.Run

/-!
# Rolling updates

How the controllers of a vertex and of a MonoVertex replace pods when the pod
specification changes.  The progress of an update is kept in the status: the hash that is
rolled out, the hash that was rolled out last, and how many replicas carry the new hash and are
ready.  Between two calls of `orchestratePods` pods become ready and the specification may
change.

Main results: `Sound.orchestratePods`, `unavailable_le`.
-/

namespace Numaflow.Controller

open Lib List

/-- A value of `maxUnavailable`: a number of pods or a percentage. -/
inductive IntOrPercent where
  | int (count : Nat)
  | percent (share : Nat)
deriving DecidableEq, Repr

/-- The value for a total number of replicas; a percentage is rounded up. -/
def IntOrPercent.getScaledValue (total : Nat) : IntOrPercent → Nat
  | int count => count
  | percent share => (share * total + 99) / 100

inductive UpdateStrategyType where
  | rollingUpdate
  | other
deriving DecidableEq, Repr

/-- Which controller owns the pods. -/
inductive PodOwner where
  | vertex
  | monoVertex
deriving DecidableEq, Repr

/-- The settings that stay fixed during a run. -/
structure RolloutConfig where
  owner : PodOwner := .vertex
  desiredReplicas : Nat
  maxUnavailable : IntOrPercent := .percent 25
  strategy : UpdateStrategyType := .rollingUpdate
deriving DecidableEq, Repr

/-- The number of replicas that one batch may replace. -/
def RolloutConfig.limit (c : RolloutConfig) : Nat :=
  c.maxUnavailable.getScaledValue c.desiredReplicas

/-- A pod that is not terminating, with the annotations for its replica and its hash. -/
structure Pod (κ : Type) where
  replica : Nat
  hash : κ
  ready : Bool
deriving DecidableEq, Repr

/-- The part of the status that `orchestratePods` keeps; an empty hash is `none`. -/
structure RolloutStatus (κ : Type) where
  updateHash : Option κ
  currentHash : Option κ
  updatedReplicas : Nat
  updatedReadyReplicas : Nat
  replicas : Nat
deriving DecidableEq, Repr

/-- A vertex with its pods; `spec` is the hash of the pod specification, and `specReplicas` is
the replica count of the vertex's own specification. -/
structure RolloutState (κ : Type) where
  spec : κ
  specReplicas : Option Nat
  status : RolloutStatus κ
  pods : List (Pod κ)
deriving DecidableEq, Repr

variable {κ : Type} [DecidableEq κ]

/-- The pod that stays or comes in the place of a replica. -/
def placePod (pods : List (Pod κ)) (newHash : κ) (replica : Nat) : Pod κ :=
  match pods.find? (fun p => p.replica == replica) with
  | some p => if p.hash = newHash then p else ⟨replica, newHash, false⟩
  | none => ⟨replica, newHash, false⟩

/-- Put a pod with the hash in the place of each replica of a range, and delete the other
pods of the range. -/
def orchestratePodsFromTo (pods : List (Pod κ)) (fromReplica toReplica : Nat) (newHash : κ) :
    List (Pod κ) :=
  pods.filter (fun p => !(fromReplica ≤ p.replica && p.replica < toReplica)) ++
    (List.range' fromReplica (toReplica - fromReplica)).map (placePod pods newHash)

namespace RolloutState

/-- A new hash starts a new update. -/
def refresh (s : RolloutState κ) : RolloutState κ :=
  if s.status.updateHash = some s.spec then s
  else
    { s with
      status.updateHash := some s.spec
      status.updatedReplicas := 0
      status.updatedReadyReplicas := 0 }

theorem refresh_updateHash (s : RolloutState κ) :
    s.refresh.status.updateHash = some s.refresh.spec := by
  unfold refresh
  split
  · assumption
  · rfl

section

variable (c : RolloutConfig) (s : RolloutState κ)

/-- Only the controller of MonoVertices writes the replica count back. -/
def syncReplicas : RolloutState κ :=
  match c.owner with
  | .vertex => s
  | .monoVertex => { s with specReplicas := some c.desiredReplicas }

def scaleDown : RolloutState κ :=
  { s with
    pods := s.pods.filter (fun p => p.replica < c.desiredReplicas)
    status.replicas := min s.status.replicas c.desiredReplicas
    status.updatedReplicas := min s.status.updatedReplicas c.desiredReplicas }

/-- The pods of the replicas that are already updated are in place. -/
def ensureUpdated (s : RolloutState κ) : RolloutState κ :=
  { s with pods := orchestratePodsFromTo s.pods 0 s.status.updatedReplicas s.spec }

/-- A pod that counts as an updated and ready replica. -/
def IsUpdatedReady (s : RolloutState κ) (p : Pod κ) : Prop :=
  p.replica < s.status.updatedReplicas ∧ some p.hash = s.status.updateHash ∧ p.ready = true

instance (s : RolloutState κ) (p : Pod κ) : Decidable (s.IsUpdatedReady p) :=
  inferInstanceAs (Decidable (_ ∧ _ ∧ _))

def countReady (s : RolloutState κ) : RolloutState κ :=
  { s with status.updatedReadyReplicas := (s.pods.filter fun p => s.IsUpdatedReady p).length }

/-- The replicas of the next batch. -/
def toBeUpdated : Nat :=
  min c.limit (c.desiredReplicas - s.status.updatedReplicas)

/-- Replace the pods of the next batch. -/
def nextBatch : RolloutState κ :=
  let updated := s.status.updatedReplicas + s.toBeUpdated c
  { s with
    pods := orchestratePodsFromTo s.pods s.status.updatedReplicas updated s.spec
    status.updatedReplicas := updated
    status.currentHash :=
      if updated = c.desiredReplicas then s.status.updateHash else s.status.currentHash
    status.replicas := c.desiredReplicas }

/-- Without an update the missing pods are created directly. -/
def regularScaling : RolloutState κ :=
  { s with
    pods := orchestratePodsFromTo s.pods s.status.updatedReplicas c.desiredReplicas s.spec
    status.updatedReplicas := c.desiredReplicas
    status.currentHash := s.status.updateHash
    status.replicas := c.desiredReplicas }

def advance : RolloutState κ :=
  if s.status.updateHash = s.status.currentHash ∨ s.status.currentHash = none then
    s.regularScaling c
  else if c.desiredReplicas ≤ s.status.updatedReplicas then
    { s with
      status.updatedReplicas := c.desiredReplicas
      status.currentHash := s.status.updateHash }
  else
    match c.strategy with
    | .other => s
    | .rollingUpdate => s.nextBatch c

/-- The part of a call before the updated pods are looked at. -/
def prepare : RolloutState κ :=
  ((s.syncReplicas c).refresh).scaleDown c

def orchestratePods : RolloutState κ :=
  let s := s.prepare c
  if s.status.updatedReplicas = 0 then s.advance c
  else
    let s := s.ensureUpdated
    if s.status.updatedReadyReplicas = s.status.updatedReplicas then s.advance c
    else
      let s := s.countReady
      -- wait for the updated pods to be ready before moving on
      if s.status.updatedReadyReplicas < s.status.updatedReplicas then s else s.advance c

end

end RolloutState

/-- What happens to a vertex: its pod specification changes, a pod becomes ready, or the
controller is called. -/
inductive RolloutAction (κ : Type) where
  | setSpec (hash : κ)
  | podReady (replica : Nat)
  | orchestrate
deriving DecidableEq, Repr

namespace RolloutState

/-- The pod of a replica becomes ready. -/
def markReady (replica : Nat) (p : Pod κ) : Pod κ :=
  if p.replica = replica then { p with ready := true } else p

def step (c : RolloutConfig) (s : RolloutState κ) : RolloutAction κ → RolloutState κ
  | .setSpec hash => { s with spec := hash }
  | .podReady replica => { s with pods := s.pods.map (markReady replica) }
  | .orchestrate => s.orchestratePods c

omit [DecidableEq κ] in
theorem markReady_spec (replica : Nat) (p : Pod κ) :
    (markReady replica p).replica = p.replica ∧ (markReady replica p).hash = p.hash ∧
      ((markReady replica p).ready = false → p.ready = false) := by
  unfold markReady
  split
  · exact ⟨rfl, rfl, nofun⟩
  · exact ⟨rfl, rfl, id⟩

/-- A replica has a ready pod. -/
def available (s : RolloutState κ) (replica : Nat) : Bool :=
  s.pods.any fun p => p.replica == replica && p.ready

/-- The number of replicas without a ready pod. -/
def unavailable (c : RolloutConfig) (s : RolloutState κ) : Nat :=
  ((List.range c.desiredReplicas).filter fun i => !s.available i).length

def AllReady (s : RolloutState κ) : Prop :=
  ∀ p ∈ s.pods, p.ready = true
deriving Decidable

end RolloutState

/-! ## Replacing the pods of a range -/

section

variable {pods : List (Pod κ)} {lo hi n : Nat} {hash : κ} {p : Pod κ}

theorem placePod_spec (pods : List (Pod κ)) (hash : κ) (i : Nat) :
    (placePod pods hash i).replica = i ∧ (placePod pods hash i).hash = hash := by
  unfold placePod
  split
  case h_1 q hfind =>
    have hreplica : q.replica = i := by simpa using find?_some hfind
    split
    · exact ⟨hreplica, ‹_›⟩
    · exact ⟨rfl, rfl⟩
  case h_2 => exact ⟨rfl, rfl⟩

@[simp]
theorem placePod_replica : (placePod pods hash n).replica = n :=
  (placePod_spec pods hash n).1

@[simp]
theorem placePod_hash : (placePod pods hash n).hash = hash :=
  (placePod_spec pods hash n).2

/-- A pod is only kept in its place; a pod put in place of another one is not ready. -/
theorem placePod_mem_or (pods : List (Pod κ)) (hash : κ) (i : Nat) :
    placePod pods hash i ∈ pods ∨ (placePod pods hash i).ready = false := by
  unfold placePod
  split
  case h_1 q hfind =>
    split
    · exact .inl (mem_of_find?_eq_some hfind)
    · exact .inr rfl
  case h_2 => exact .inr rfl

/-- A replica that has only pods with the hash keeps one. -/
theorem placePod_mem (hcovered : ∃ p ∈ pods, p.replica = n)
    (hhash : ∀ p ∈ pods, p.replica = n → p.hash = hash) : placePod pods hash n ∈ pods := by
  obtain ⟨p, hp, hreplica⟩ := hcovered
  unfold placePod
  split
  case h_1 q hfind =>
    have hq := mem_of_find?_eq_some hfind
    have hqn : q.replica = n := by simpa using find?_some hfind
    rw [if_pos (hhash q hq hqn)]
    exact hq
  case h_2 hfind =>
    have hne := find?_eq_none.mp hfind p hp
    simp [hreplica] at hne

/-- The pods after the replacement of a range. -/
theorem mem_orchestratePodsFromTo : p ∈ orchestratePodsFromTo pods lo hi hash ↔
      p ∈ pods ∧ ¬(lo ≤ p.replica ∧ p.replica < hi) ∨
        ∃ i, lo ≤ i ∧ i < hi ∧ placePod pods hash i = p := by
  rw [orchestratePodsFromTo, mem_append, mem_filter, mem_map]
  apply or_congr
  · rw [and_congr_right_iff]
    intro _
    simp [or_iff_not_imp_left]
  · constructor
    · rintro ⟨i, hi, rfl⟩
      rw [mem_range'_1] at hi
      exact ⟨i, hi.1, by omega, rfl⟩
    · rintro ⟨i, hlo, hhi, rfl⟩
      refine ⟨i, ?_, rfl⟩
      rw [mem_range'_1]
      omega

@[simp]
theorem orchestratePodsFromTo_self : orchestratePodsFromTo pods n n hash = pods := by
  rw [orchestratePodsFromTo, Nat.sub_self, range'_zero, map_nil, append_nil, filter_eq_self]
  intro p _
  simp
  omega

theorem nodup_orchestratePodsFromTo (h : (pods.map Pod.replica).Nodup) :
    ((orchestratePodsFromTo pods lo hi hash).map Pod.replica).Nodup := by
  have hplaced : ((range' lo (hi - lo)).map (placePod pods hash)).map Pod.replica =
      range' lo (hi - lo) := by
    rw [map_map]
    refine (map_congr_left ?_).trans (map_id _)
    exact fun i _ => placePod_replica
  rw [orchestratePodsFromTo, map_append, hplaced, nodup_append]
  refine ⟨h.sublist (filter_sublist.map _), nodup_range', ?_⟩
  intro i hi j hj heq
  obtain ⟨p, hp, rfl⟩ := mem_map.mp hi
  have hout := (mem_filter.mp hp).2
  rw [mem_range'_1] at hj
  simp at hout
  omega

theorem covered_orchestratePodsFromTo (h : ∀ i < n, ∃ p ∈ pods, p.replica = i) :
    ∀ i < n, ∃ p ∈ orchestratePodsFromTo pods lo hi hash, p.replica = i := by
  intro i hn
  by_cases hin : lo ≤ i ∧ i < hi
  · exact ⟨placePod pods hash i, mem_orchestratePodsFromTo.mpr (.inr ⟨i, hin.1, hin.2, rfl⟩),
      placePod_replica⟩
  · obtain ⟨p, hp, rfl⟩ := h i hn
    exact ⟨p, mem_orchestratePodsFromTo.mpr (.inl ⟨hp, hin⟩), rfl⟩

/-- The pods of the range carry the hash, and a pod that is not ready was there before or
lies in the range. -/
theorem orchestratePodsFromTo_spec (h : p ∈ orchestratePodsFromTo pods lo hi hash) :
    (lo ≤ p.replica → p.replica < hi → p.hash = hash) ∧
      (p ∈ pods ∨ lo ≤ p.replica ∧ p.replica < hi ∧ p.ready = false) := by
  rcases mem_orchestratePodsFromTo.mp h with ⟨hp, hout⟩ | ⟨i, hlo, hhi, rfl⟩
  · exact ⟨fun hlo hhi => absurd ⟨hlo, hhi⟩ hout, .inl hp⟩
  · refine ⟨fun _ _ => placePod_hash, ?_⟩
    rw [placePod_replica]
    exact (placePod_mem_or pods hash i).imp_right fun hready => ⟨hlo, hhi, hready⟩

/-- A range whose pods carry the hash already is left as it is. -/
theorem mem_of_mem_orchestratePodsFromTo
    (hcovered : ∀ i, lo ≤ i → i < hi → ∃ p ∈ pods, p.replica = i)
    (hhash : ∀ p ∈ pods, lo ≤ p.replica → p.replica < hi → p.hash = hash)
    (h : p ∈ orchestratePodsFromTo pods lo hi hash) : p ∈ pods := by
  rcases mem_orchestratePodsFromTo.mp h with ⟨hp, _⟩ | ⟨i, hlo, hhi, rfl⟩
  · exact hp
  · apply placePod_mem (hcovered i hlo hhi)
    intro q hq hreplica
    subst hreplica
    exact hhash q hq hlo hhi

end

/-! ## The invariant -/

namespace RolloutState

/-- The pods that are not ready belong to one batch, the last one of those updated. -/
structure Sound (c : RolloutConfig) (s : RolloutState κ) : Prop where
  nodup : (s.pods.map Pod.replica).Nodup
  covered : ∀ i < c.desiredReplicas, ∃ p ∈ s.pods, p.replica = i
  bounded : s.status.updatedReplicas ≤ c.desiredReplicas
  updated : ∀ p ∈ s.pods, p.replica < s.status.updatedReplicas →
    some p.hash = s.status.updateHash
  batch : ∃ a, s.status.updatedReplicas ≤ a + c.limit ∧
    ∀ p ∈ s.pods, p.ready = false → a ≤ p.replica ∧ p.replica < s.status.updatedReplicas
  counted : s.status.updatedReadyReplicas ≤ s.status.updatedReplicas
  waiting : s.status.updatedReadyReplicas = s.status.updatedReplicas → s.AllReady
  finished : s.status.updateHash = s.status.currentHash →
    s.status.updatedReplicas = c.desiredReplicas
  known : s.status.currentHash ≠ none

/-- A new specification is picked up while all replicas are ready, and it is not the one
rolled out last, so it does not revert an unfinished update. -/
def MayRefresh (s : RolloutState κ) : Prop :=
  s.status.updateHash ≠ some s.spec → s.AllReady ∧ s.status.currentHash ≠ some s.spec

instance (s : RolloutState κ) : Decidable s.MayRefresh :=
  inferInstanceAs (Decidable (_ → _ ∧ _))

/-- The condition on the steps of a run. -/
def Orderly (s : RolloutState κ) : RolloutAction κ → Prop
  | .orchestrate => s.MayRefresh
  | _ => True

instance (s : RolloutState κ) (action : RolloutAction κ) : Decidable (s.Orderly action) := by
  unfold Orderly
  split <;> infer_instance

namespace Sound

variable {c : RolloutConfig} {s : RolloutState κ} (h : s.Sound c)

include h

omit [DecidableEq κ] in
theorem allReady_of_zero (hzero : s.status.updatedReplicas = 0) : s.AllReady := by
  obtain ⟨a, _, hbatch⟩ := h.batch
  intro p hp
  by_contra hready
  have hlt := (hbatch p hp (by simpa using hready)).2
  omega

omit [DecidableEq κ] in
theorem syncReplicas : (s.syncReplicas c).Sound c := by
  unfold RolloutState.syncReplicas
  split
  · exact h
  · exact { h with }

theorem refresh (hmay : s.MayRefresh) : s.refresh.Sound c := by
  unfold RolloutState.refresh
  split
  · exact h
  case isFalse hne =>
    obtain ⟨hready, hcurrent⟩ := hmay hne
    exact
      { nodup := h.nodup
        covered := h.covered
        bounded := Nat.zero_le _
        updated := fun p _ hlt => absurd hlt (Nat.not_lt_zero _)
        batch := ⟨0, Nat.zero_le _, fun p hp hnot => by simp [hready p hp] at hnot⟩
        counted := Nat.zero_le _
        waiting := fun _ => hready
        finished := fun heq => absurd heq.symm hcurrent
        known := h.known }

omit [DecidableEq κ] in
theorem scaleDown : (s.scaleDown c).Sound c := by
  have hmin := Nat.min_eq_left h.bounded
  have hmem : ∀ p ∈ (s.scaleDown c).pods, p ∈ s.pods := fun p hp => (mem_filter.mp hp).1
  have hstatus : (s.scaleDown c).status.updatedReplicas = s.status.updatedReplicas := hmin
  obtain ⟨a, hlimit, hbatch⟩ := h.batch
  refine
    { nodup := h.nodup.sublist (filter_sublist.map _)
      covered := ?_
      bounded := hstatus ▸ h.bounded
      updated := fun p hp hlt => h.updated p (hmem p hp) (hstatus ▸ hlt)
      batch := ⟨a, hstatus ▸ hlimit, fun p hp => hstatus ▸ hbatch p (hmem p hp)⟩
      counted := hstatus ▸ h.counted
      waiting := fun heq p hp => h.waiting (heq.trans hstatus) p (hmem p hp)
      finished := fun heq => hstatus.trans (h.finished heq)
      known := h.known }
  intro i hi
  obtain ⟨p, hp, rfl⟩ := h.covered i hi
  exact ⟨p, mem_filter.mpr ⟨hp, by simpa using hi⟩, rfl⟩

theorem ensureUpdated (hspec : s.status.updateHash = some s.spec) : s.ensureUpdated.Sound c := by
  have hmem : ∀ p ∈ s.ensureUpdated.pods, p ∈ s.pods := by
    intro p hp
    refine mem_of_mem_orchestratePodsFromTo ?_ ?_ hp
    · exact fun i _ hi => h.covered i (Nat.lt_of_lt_of_le hi h.bounded)
    · intro q hq _ hlt
      have hhash := h.updated q hq hlt
      rw [hspec] at hhash
      exact Option.some.inj hhash
  obtain ⟨a, hlimit, hbatch⟩ := h.batch
  exact
    { nodup := nodup_orchestratePodsFromTo h.nodup
      covered := covered_orchestratePodsFromTo h.covered
      bounded := h.bounded
      updated := fun p hp => h.updated p (hmem p hp)
      batch := ⟨a, hlimit, fun p hp => hbatch p (hmem p hp)⟩
      counted := h.counted
      waiting := fun heq p hp => h.waiting heq p (hmem p hp)
      finished := h.finished
      known := h.known }

variable {f : Pod κ → Bool} {action : RolloutAction κ}

omit [DecidableEq κ] in
theorem nodup_updatedReady : ((s.pods.filter f).map Pod.replica).Nodup :=
  h.nodup.sublist (filter_sublist.map _)

omit h in
theorem updatedReady_subset (s : RolloutState κ) :
    (s.pods.filter fun p => s.IsUpdatedReady p).map Pod.replica ⊆
      List.range s.status.updatedReplicas := by
  intro i hi
  obtain ⟨p, hp, rfl⟩ := mem_map.mp hi
  have hready : s.IsUpdatedReady p := by simpa using (mem_filter.mp hp).2
  exact mem_range.mpr hready.1

theorem updatedReady_le :
    (s.pods.filter fun p => s.IsUpdatedReady p).length ≤ s.status.updatedReplicas := by
  have hle := (h.nodup_updatedReady.subperm (updatedReady_subset s)).length_le
  rwa [length_map, length_range] at hle

/-- As many ready pods as updated replicas leave no updated replica without one. -/
theorem allReady_of_count
    (hcount : s.status.updatedReplicas ≤ (s.pods.filter fun p => s.IsUpdatedReady p).length) :
    s.AllReady := by
  obtain ⟨a, _, hbatch⟩ := h.batch
  have hperm := (h.nodup_updatedReady.subperm (updatedReady_subset s)).perm_of_length_le
    (by rw [length_range, length_map]; exact hcount)
  intro p hp
  by_contra hnot
  have hlt := (hbatch p hp (by simpa using hnot)).2
  obtain ⟨q, hq, hreplica⟩ := mem_map.mp (hperm.mem_iff.mpr (mem_range.mpr hlt))
  have hqready : s.IsUpdatedReady q := by simpa using (mem_filter.mp hq).2
  have heq := inj_on_of_nodup_map h.nodup (mem_filter.mp hq).1 hp hreplica
  exact hnot (heq ▸ hqready.2.2)

theorem countReady : s.countReady.Sound c :=
  { h with
    counted := h.updatedReady_le
    waiting := fun heq => h.allReady_of_count heq.ge }

/-- The next batch is the only one that is not ready. -/
theorem nextBatch (hready : s.AllReady) (hspec : s.status.updateHash = some s.spec)
    (hcurrent : s.status.updateHash ≠ s.status.currentHash) : (s.nextBatch c).Sound c := by
  have hplaced : ∀ p ∈ (s.nextBatch c).pods, p.ready = false →
      s.status.updatedReplicas ≤ p.replica ∧
        p.replica < s.status.updatedReplicas + s.toBeUpdated c := by
    intro p hp hnot
    rcases (orchestratePodsFromTo_spec hp).2 with hold | ⟨hlo, hhi, _⟩
    · simp [hready p hold] at hnot
    · exact ⟨hlo, hhi⟩
  refine
    { nodup := nodup_orchestratePodsFromTo h.nodup
      covered := covered_orchestratePodsFromTo h.covered
      bounded := ?_
      updated := ?_
      batch := ⟨s.status.updatedReplicas, Nat.add_le_add_left (Nat.min_le_left _ _) _, hplaced⟩
      counted := Nat.le_add_right_of_le h.counted
      waiting := ?_
      finished := ?_
      known := ?_ }
  · have hbounded := h.bounded
    have hle : s.toBeUpdated c ≤ c.desiredReplicas - s.status.updatedReplicas :=
      Nat.min_le_right _ _
    change s.status.updatedReplicas + s.toBeUpdated c ≤ _
    omega
  · intro p hp hlt
    obtain ⟨hhash, hold⟩ := orchestratePodsFromTo_spec hp
    by_cases hlo : s.status.updatedReplicas ≤ p.replica
    · rw [hhash hlo hlt]
      exact hspec.symm
    · rcases hold with hold | hnew
      · exact h.updated p hold (by omega)
      · exact absurd hnew.1 hlo
  · -- the count of ready replicas is still that of the batches before, so this one is empty
    intro heq p hp
    change s.status.updatedReadyReplicas = s.status.updatedReplicas + s.toBeUpdated c at heq
    have hcounted := h.counted
    by_contra hnot
    have hin := hplaced p hp (by simpa using hnot)
    omega
  · intro heq
    change s.status.updateHash = (if _ then _ else _) at heq
    split at heq
    case isTrue hall => exact hall
    case isFalse => exact absurd heq hcurrent
  · change (if _ then _ else _) ≠ none
    split
    · rw [hspec]
      nofun
    · exact h.known

omit [DecidableEq κ] in
theorem finish (hall : c.desiredReplicas ≤ s.status.updatedReplicas)
    (hspec : s.status.updateHash = some s.spec) : Sound c { s with
      status.updatedReplicas := c.desiredReplicas
      status.currentHash := s.status.updateHash } := by
  have heq := Nat.le_antisymm h.bounded hall
  exact
    { h with
      bounded := Nat.le_refl _
      updated := heq ▸ h.updated
      batch := heq ▸ h.batch
      counted := heq ▸ h.counted
      waiting := heq ▸ h.waiting
      finished := fun _ => rfl
      known := by simp [hspec] }

/-- A finished update has nothing left to scale. -/
theorem regularScaling (hspec : s.status.updateHash = some s.spec)
    (heq : s.status.updateHash = s.status.currentHash) : (s.regularScaling c).Sound c := by
  have hall := h.finished heq
  have hfinish := h.finish hall.ge hspec
  unfold RolloutState.regularScaling
  rw [hall, orchestratePodsFromTo_self]
  exact { hfinish with }

theorem advance (hready : s.AllReady)
    (hspec : s.status.updateHash = some s.spec) : (s.advance c).Sound c := by
  unfold RolloutState.advance
  split
  case isTrue hregular =>
    exact h.regularScaling hspec (hregular.resolve_right h.known)
  case isFalse hupdate =>
    split
    case isTrue hall => exact h.finish hall hspec
    case isFalse =>
      split
      · exact h
      · exact h.nextBatch hready hspec (fun heq => hupdate (.inl heq))

theorem prepare (hmay : s.MayRefresh) :
    (s.prepare c).Sound c ∧ (s.prepare c).status.updateHash = some (s.prepare c).spec := by
  have hsame : (s.syncReplicas c).MayRefresh := by
    unfold RolloutState.syncReplicas
    split
    · exact hmay
    · exact hmay
  exact ⟨(h.syncReplicas.refresh hsame).scaleDown, refresh_updateHash (s.syncReplicas c)⟩

/-- One call keeps the unready pods within one batch. -/
theorem orchestratePods (hmay : s.MayRefresh) : (s.orchestratePods c).Sound c := by
  obtain ⟨hprepared, hspec⟩ := h.prepare hmay
  unfold RolloutState.orchestratePods
  generalize s.prepare c = s at hprepared hspec
  have hensured := hprepared.ensureUpdated hspec
  have hcounted := hensured.countReady
  dsimp only
  split
  case isTrue hzero => exact hprepared.advance (hprepared.allReady_of_zero hzero) hspec
  case isFalse =>
    split
    case isTrue hall => exact hensured.advance (hensured.waiting hall) hspec
    case isFalse =>
      split
      case isTrue => exact hcounted
      case isFalse hall =>
        have heq := Nat.le_antisymm hcounted.counted (Nat.le_of_not_lt hall)
        exact hcounted.advance (hcounted.waiting heq) hspec

omit [DecidableEq κ] in
theorem podReady (replica : Nat) : Sound c { s with pods := s.pods.map (markReady replica) } := by
  have hreplica : ∀ p : Pod κ, (markReady replica p).replica = p.replica :=
    fun p => (markReady_spec replica p).1
  obtain ⟨a, hlimit, hbatch⟩ := h.batch
  refine
    { h with
      nodup := ?_
      covered := ?_
      updated := ?_
      batch := ⟨a, hlimit, ?_⟩
      waiting := ?_ }
  · have hmap : (s.pods.map (markReady replica)).map Pod.replica = s.pods.map Pod.replica := by
      rw [map_map]
      exact map_congr_left fun p _ => hreplica p
    rw [hmap]
    exact h.nodup
  · intro i hi
    obtain ⟨p, hp, rfl⟩ := h.covered i hi
    exact ⟨markReady replica p, mem_map_of_mem hp, hreplica p⟩
  · intro q hq
    obtain ⟨p, hp, rfl⟩ := mem_map.mp hq
    rw [hreplica, (markReady_spec replica p).2.1]
    exact h.updated p hp
  · intro q hq hnot
    obtain ⟨p, hp, rfl⟩ := mem_map.mp hq
    rw [hreplica]
    exact hbatch p hp ((markReady_spec replica p).2.2 hnot)
  · intro heq q hq
    obtain ⟨p, hp, rfl⟩ := mem_map.mp hq
    by_contra hnot
    have hold := (markReady_spec replica p).2.2 (by simpa using hnot)
    rw [h.waiting heq p hp] at hold
    cases hold

theorem step (hok : s.Orderly action) : (s.step c action).Sound c := by
  cases action with
  | setSpec => exact { h with }
  | podReady replica => exact h.podReady replica
  | orchestrate => exact h.orchestratePods hok

omit [DecidableEq κ] in
/-- The replicas without a ready pod lie in one batch. -/
theorem unavailable_le_limit : s.unavailable c ≤ c.limit := by
  obtain ⟨a, hlimit, hbatch⟩ := h.batch
  have hsubset : ((range c.desiredReplicas).filter fun i => !s.available i) ⊆
      range' a (s.status.updatedReplicas - a) := by
    intro i hi
    obtain ⟨hrange, hnot⟩ := mem_filter.mp hi
    obtain ⟨p, hp, rfl⟩ := h.covered i (mem_range.mp hrange)
    have hready : p.ready = false := by
      by_contra hready
      have havailable : s.available p.replica = true :=
        any_eq_true.mpr ⟨p, hp, by simpa using hready⟩
      simp [havailable] at hnot
    rw [mem_range'_1]
    have hin := hbatch p hp hready
    omega
  have hle := ((nodup_range.filter _).subperm hsubset).length_le
  rw [length_range'] at hle
  exact hle.trans (by omega)

end Sound

/-- All replicas have a ready pod, and the status agrees with the pods.  An update may be
under way, with the replicas before `updatedReplicas` done. -/
structure Steady (c : RolloutConfig) (s : RolloutState κ) : Prop where
  nodup : (s.pods.map Pod.replica).Nodup
  covered : ∀ i < c.desiredReplicas, ∃ p ∈ s.pods, p.replica = i
  ready : s.AllReady
  bounded : s.status.updatedReplicas ≤ c.desiredReplicas
  updated : ∀ p ∈ s.pods, p.replica < s.status.updatedReplicas →
    some p.hash = s.status.updateHash
  counted : s.status.updatedReadyReplicas ≤ s.status.updatedReplicas
  finished : s.status.updateHash = s.status.currentHash →
    s.status.updatedReplicas = c.desiredReplicas
  known : s.status.currentHash ≠ none

variable {c : RolloutConfig}

omit [DecidableEq κ] in
theorem Steady.sound {s : RolloutState κ} (h : s.Steady c) : s.Sound c :=
  { h with
    batch := ⟨s.status.updatedReplicas, Nat.le_add_right _ _,
      fun p hp hnot => by simp [h.ready p hp] at hnot⟩
    waiting := fun _ => h.ready }

end RolloutState

open RolloutState

/-- Rolling updates respect the limit: no more replicas than it allows are without a
ready pod, in every state of a run that picks up new specifications in an orderly way. -/
theorem unavailable_le (c : RolloutConfig) (s : RolloutState κ) (hs : s.Steady c)
    (actions : List (RolloutAction κ)) (hrun : Along Orderly (step c) s actions) :
    (exec (step c) s actions).unavailable c ≤ c.maxUnavailable.getScaledValue c.desiredReplicas :=
  (exec_invariant (I := Sound c) (fun _ _ h hok => h.step hok) hs.sound hrun).unavailable_le_limit

/-- A vertex with four ready pods of one hash. -/
def fourReady : RolloutState Nat where
  spec := 1
  specReplicas := some 4
  status := ⟨some 1, some 1, 4, 4, 4⟩
  pods := [⟨0, 1, true⟩, ⟨1, 1, true⟩, ⟨2, 1, true⟩, ⟨3, 1, true⟩]

theorem fourReady_steady (c : RolloutConfig) (hc : c.desiredReplicas = 4) : fourReady.Steady c where
  nodup := by decide
  covered := by rw [hc]; decide
  ready := by decide
  bounded := by rw [hc]; decide
  updated := by decide
  counted := by decide
  finished := fun _ => hc.symm
  known := by decide

/-- An update of two batches, and a new one as soon as the first is ready again. -/
def twoUpdates : List (RolloutAction Nat) :=
  [.setSpec 2, .orchestrate, .podReady 0, .podReady 1, .orchestrate, .podReady 3, .podReady 2,
    .setSpec 3, .orchestrate]

theorem unavailable_le_twoUpdates :
    (exec (step ⟨.vertex, 4, .percent 50, .rollingUpdate⟩) fourReady twoUpdates).unavailable
        ⟨.vertex, 4, .percent 50, .rollingUpdate⟩ = 2 ∧
      (exec (step ⟨.monoVertex, 4, .int 2, .rollingUpdate⟩) fourReady twoUpdates).unavailable
        ⟨.monoVertex, 4, .int 2, .rollingUpdate⟩ ≤ 2 :=
  ⟨by decide, unavailable_le _ fourReady
      (fourReady_steady _ rfl) twoUpdates (by decide)⟩

/-- With a limit of one, a revert in the middle of an update replaces all updated pods at once,
and a new specification in the middle of an update starts its first batch while the pod of
the last one is not ready. -/
theorem unavailable_exceeds : (RolloutConfig.limit ⟨.vertex, 4, .percent 25, .rollingUpdate⟩ = 1) ∧
      (exec (step ⟨.vertex, 4, .percent 25, .rollingUpdate⟩) fourReady
        [.setSpec 2, .orchestrate, .podReady 0, .orchestrate, .podReady 1, .orchestrate,
          .podReady 2, .setSpec 1, .orchestrate]).unavailable
            ⟨.vertex, 4, .percent 25, .rollingUpdate⟩ = 3 ∧
      (exec (step ⟨.vertex, 4, .percent 25, .rollingUpdate⟩) fourReady
        [.setSpec 2, .orchestrate, .podReady 0, .orchestrate, .setSpec 3,
          .orchestrate]).unavailable ⟨.vertex, 4, .percent 25, .rollingUpdate⟩ = 2 := by
  decide

end Numaflow.Controller
