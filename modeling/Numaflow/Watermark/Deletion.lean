import Numaflow.Watermark.HeadIdle

/-!
# Deleted processors

The watcher marks a processor as deleted when its entry in the store is deleted or the
bucket is purged.  The refresher gives every processor the status that follows from the
time of its last entry, whatever the watcher has marked before.

Main results: `ignoresRemoved_exec`.
-/

namespace Numaflow.Watermark

open Lib HashMap Option

namespace ProcessorManager

/-- The smallest head watermark of the active processors. -/
def computeProcessorWatermark (m : ProcessorManager) (partition : Nat) : Option Int :=
  let epoch := ((m.activeProcessors.filterMap fun processor =>
    (processor.timelines.lookup partition).map OffsetTimeline.getHeadWatermark).filter
      (· ≠ -1)).foldl min i64Max
  if epoch < i64Max then some epoch else none

variable {name : String}

/-- A processor that is not active does not count. -/
theorem activeProcessors_deleteProcessor {m : ProcessorManager}
    (h : ∀ processor ∈ m.processors.lookup name, processor.isActive = false) :
    (m.deleteProcessor name).activeProcessors = m.activeProcessors := by
  have hkept : ∀ e ∈ m.processors.entries, e.2.isActive = true → e.1 ≠ name := by
    rintro ⟨name, processor⟩ he hactive rfl
    rw [h processor (AList.mem_lookup_iff.mpr he)] at hactive
    cases hactive
  rw [activeProcessors, values, List.filter_map, activeProcessors, values, List.filter_map]
  exact congrArg (List.map _) (filter_kerase hkept)

end ProcessorManager

/-- What the watcher, the refresher and the fetcher do to the processors of an edge. -/
inductive ManagerAction where
  | put (name : String) (wmb : Wmb) (created : Int)
  | delete (name : String)
  | purge
  | refresh (currentTime : Int)
  | deleteProcessor (name : String)

/-- The processors of an edge, and the names whose entries were removed from the store and
not put again. -/
structure ManagerRun where
  manager : ProcessorManager
  removed : List String

namespace ManagerRun

open ProcessorManager

/-- A put that cannot be stored ends the watcher. -/
def step (s : ManagerRun) : ManagerAction → ManagerRun
  | .put name wmb created =>
    ⟨(s.manager.watchPut name wmb created).getD s.manager, s.removed.filter (· ≠ name)⟩
  | .delete name => ⟨s.manager.watchDelete name, name :: s.removed⟩
  | .purge => ⟨s.manager.watchPurge, s.manager.processors.keys ++ s.removed⟩
  | .refresh currentTime => { s with manager := s.manager.refresh currentTime }
  | .deleteProcessor name => { s with manager := s.manager.deleteProcessor name }

/-- A refresh comes more than ten intervals after the last entry of a removed processor. -/
def Late (s : ManagerRun) : ManagerAction → Prop
  | .refresh currentTime =>
    ∀ name ∈ s.removed, ∀ processor ∈ s.manager.processors.lookup name,
      10 * refreshRateMillis < currentTime - processor.lastSeenTime
  | _ => True

instance (s : ManagerRun) : DecidablePred s.Late := fun _ => by
  unfold Late
  split <;> infer_instance

/-- The removed processors are marked as deleted. -/
def StaysDeleted (s : ManagerRun) : Prop :=
  ∀ name ∈ s.removed, ∀ processor ∈ s.manager.processors.lookup name, processor.status = .deleted

variable {s : ManagerRun} {a : ManagerAction}

/-- No late action revives a removed processor. -/
theorem StaysDeleted.step (h : s.StaysDeleted) (hlate : s.Late a) :
    (s.step a).StaysDeleted := by
  intro name hname processor hp
  cases a with
  | put n wmb created =>
    obtain ⟨hname, hne⟩ := List.mem_filter.mp hname
    refine h name hname processor ?_
    simp only [ManagerRun.step] at hp
    cases hput : s.manager.watchPut n wmb created with
    | none => simpa [hput] using hp
    | some =>
      obtain ⟨new, -, rfl⟩ := map_eq_some_iff.mp hput
      rwa [hput, getD_some, AList.lookup_insert_ne (by simpa using hne)] at hp
  | delete n =>
    simp only [ManagerRun.step, watchDelete] at hp
    by_cases hn : name = n
    · subst hn
      split at hp
      case h_1 hnone =>
        rw [hnone] at hp
        cases hp
      case h_2 old hold =>
        rw [AList.lookup_insert, mem_some_iff] at hp
        exact hp ▸ rfl
    · refine h name ((List.mem_cons.mp hname).resolve_left hn) processor ?_
      split at hp
      · exact hp
      · rwa [AList.lookup_insert_ne hn] at hp
  | purge =>
    rw [ManagerRun.step, watchPurge, setStatuses,
      lookup_filterMapVal, mem_def, bind_eq_some_iff] at hp
    obtain ⟨old, -, heq⟩ := hp
    exact some.inj heq ▸ rfl
  | refresh =>
    rw [ManagerRun.step, refresh, setStatuses, lookup_filterMapVal, mem_def, bind_eq_some_iff] at hp
    obtain ⟨old, hold, heq⟩ := hp
    exact some.inj heq ▸ if_pos (hlate name hname old hold)
  | deleteProcessor n =>
    refine h name hname processor ?_
    by_cases hn : name = n
    · subst hn
      rw [ManagerRun.step, deleteProcessor, AList.lookup_erase] at hp
      cases hp
    · rwa [ManagerRun.step, deleteProcessor, AList.lookup_erase_ne hn] at hp

/-- The removed processors are deleted and count neither in the head watermark nor in the
idle watermark of the edge. -/
def IgnoresRemoved (s : ManagerRun) : Prop :=
  ∀ name ∈ s.removed, ∀ processor ∈ s.manager.processors.lookup name,
    processor.status = .deleted ∧ ∀ partition,
      (s.manager.deleteProcessor name).computeProcessorWatermark partition =
        s.manager.computeProcessorWatermark partition ∧
      (s.manager.deleteProcessor name).edgeMinWmb partition = s.manager.edgeMinWmb partition

theorem StaysDeleted.ignoresRemoved (h : s.StaysDeleted) : s.IgnoresRemoved := by
  intro name hname processor hp
  have hactive : (s.manager.deleteProcessor name).activeProcessors =
      s.manager.activeProcessors :=
    activeProcessors_deleteProcessor fun processor hp => by
      simp [Processor.isActive, h name hname processor hp]
  refine ⟨h name hname processor hp, fun partition => ⟨?_, ?_⟩⟩
  · rw [computeProcessorWatermark, hactive, computeProcessorWatermark]
  · rw [edgeMinWmb, hactive, edgeMinWmb]

/-- A removed processor stays deleted until it is put again. -/
theorem ignoresRemoved_exec (m : ProcessorManager) (actions : List ManagerAction)
    (hlate : Along Late step ⟨m, []⟩ actions) : (exec step ⟨m, []⟩ actions).IgnoresRemoved :=
  StaysDeleted.ignoresRemoved
    (exec_invariant (fun _ _ h hok => h.step hok) (by simp [StaysDeleted]) hlate)

/-- A processor that was last seen at time 1000. -/
def seenOnce : ProcessorManager :=
  ⟨[0], .mapUDF, 0, AList.singleton "in-0" (Processor.new "in-0" .active [0] 1000)⟩

theorem ignoresRemoved_minute : ∃ processor,
    (exec step ⟨seenOnce, []⟩ [.delete "in-0", .refresh 61000]).manager.processors.lookup "in-0" =
      some processor ∧ processor.status = .deleted :=
  ⟨_, rfl, (ignoresRemoved_exec seenOnce [.delete "in-0", .refresh 61000] (by decide) "in-0"
    (by decide) _ rfl).1⟩

/-- The next refresh makes the processor active again, and its idle watermark counts. -/
theorem deleted_processor_revived :
    let wmb : Wmb := ⟨true, 4, 90, 0, none⟩
    let s := exec step ⟨seenOnce, []⟩ [.put "in-0" wmb 2000, .delete "in-0", .refresh 3000]
    s.removed = ["in-0"] ∧ (s.manager.processors.lookup "in-0").map Processor.status =
        some .active ∧
      s.manager.edgeMinWmb 0 = some (some wmb) ∧ s.manager.computeProcessorWatermark 0 = some 90 := by
  decide

end ManagerRun
end Numaflow.Watermark
