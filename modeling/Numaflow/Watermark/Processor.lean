import Numaflow.Lib.HashMap
import Numaflow.Watermark.Timeline

/-!
# Processors of an edge

The processor manager of an incoming edge keeps a timeline for every processor of the
edge and every partition.  It follows the watch of the store in which the processors
publish, and a refresher marks the processors that stopped publishing.

Main results: `All.watchPut`, `All.setStatuses`.
-/

namespace Numaflow.Watermark

open Lib Option

/-- The status of a processor. -/
inductive Status where
  | inActive
  | active
  | deleted
deriving DecidableEq, Repr

/-- The kind of the reading vertex. -/
inductive VertexType where
  | source
  | sink
  | mapUDF
  | reduceUDF
deriving DecidableEq, Repr

/-- A processor of the previous vertex, as the reading vertex sees it. -/
structure Processor where
  name : String
  status : Status
  timelines : HashMap Nat OffsetTimeline
  lastSeenTime : Int

namespace Processor

/-- A processor whose timelines hold ten default messages each. -/
def new (name : String) (status : Status) (partitions : List Nat) (lastSeenTime : Int) :
    Processor where
  name := name
  status := status
  timelines := partitions.foldl (fun m partition => m.insert partition (OffsetTimeline.new 10)) ∅
  lastSeenTime := lastSeenTime

section

variable (processor : Processor)

def setStatus (status : Status) : Processor :=
  { processor with status := status }

def isActive : Bool :=
  processor.status == .active

def isDeleted : Bool :=
  processor.status == .deleted

variable {partitions : List Nat}

theorem sorted_new {name : String} {status : Status} {lastSeenTime : Int} :
    ∀ p t, (new name status partitions lastSeenTime).timelines.lookup p = some t → t.Sorted :=
  HashMap.forall_foldl_insert (fun k v hk => by simp at hk) fun _ _ => OffsetTimeline.Sorted.new 10

/-- The largest head offset over all partitions. -/
def headOffset : Int :=
  ((HashMap.values processor.timelines).map OffsetTimeline.getHeadOffset).max?.getD (-1)

end

end Processor

/-- The processors of an edge. -/
structure ProcessorManager where
  partitions : List Nat
  vertexType : VertexType
  vertexReplica : Nat
  processors : HashMap String Processor

namespace ProcessorManager

/-- The refresh interval in milliseconds. -/
def refreshRateMillis : Int := 5000

/-- The status that the refresher gives to a processor. -/
def livenessStatus (currentTime : Int) (processor : Processor) : Status :=
  let diff := currentTime - processor.lastSeenTime
  if 10 * refreshRateMillis < diff then .deleted
  else if refreshRateMillis < diff then .inActive
  else .active

section

variable (m : ProcessorManager)

/-- Give every processor a status. -/
def setStatuses (status : Processor → Status) : ProcessorManager :=
  { m with
    processors := HashMap.filterMapVal
      (fun processor => some (processor.setStatus (status processor))) m.processors }

/-- One round of the refresher. -/
def refresh (currentTime : Int) : ProcessorManager :=
  m.setStatuses (livenessStatus currentTime)

/-- The processor of a watch entry, which is created when it is not known. -/
def getOrCreate (name : String) (created : Int) : Processor :=
  (m.processors.lookup name).getD (Processor.new name .active m.partitions created)

/-- Store a watermark message in the timeline of its partition.  A reduce vertex only
reads one partition and skips the messages of the others. -/
def putTimeline (processor : Processor) (wmb : Wmb) : Option Processor :=
  if m.vertexType = .reduceUDF ∧ wmb.partition ≠ m.vertexReplica then some processor
  else
    match processor.timelines.lookup wmb.partition with
    | none => some processor
    | some timeline =>
      (timeline.put wmb).map fun timeline' =>
        { processor with timelines := processor.timelines.insert wmb.partition timeline' }

/-- A put entry of the watch. -/
def watchPut (name : String) (wmb : Wmb) (created : Int) :
    Option ProcessorManager :=
  let processor := m.getOrCreate name created
  let seen := { processor with lastSeenTime := max created processor.lastSeenTime }
  let live := if seen.status = .inActive then seen.setStatus .active else seen
  (m.putTimeline live wmb).map fun processor' =>
    { m with processors := m.processors.insert name processor' }

/-- A delete entry of the watch. -/
def watchDelete (name : String) : ProcessorManager :=
  match m.processors.lookup name with
  | none => m
  | some processor =>
    { m with processors := m.processors.insert name (processor.setStatus .deleted) }

/-- A purge entry of the watch. -/
def watchPurge : ProcessorManager :=
  m.setStatuses fun _ => .deleted

/-- Remove a processor. -/
def deleteProcessor (name : String) : ProcessorManager :=
  { m with processors := m.processors.erase name }

end

/-! ## Timelines -/

/-- Every timeline of the edge has a property of its partition. -/
def All (Q : Nat → OffsetTimeline → Prop) (m : ProcessorManager) : Prop :=
  ∀ name processor, m.processors.lookup name = some processor →
    ∀ partition timeline, processor.timelines.lookup partition = some timeline →
      Q partition timeline

namespace All

variable {Q : Nat → OffsetTimeline → Prop} {m m' : ProcessorManager} (h : m.All Q)

include h

variable {name : String} {processor processor' : Processor} {wmb : Wmb} {created : Int}

theorem insert (hnew : ∀ p t, processor.timelines.lookup p = some t → Q p t) :
    { m with processors := m.processors.insert name processor }.All Q := by
  intro name' processor' hp
  by_cases hname : name' = name
  · subst hname
    rw [AList.lookup_insert, some.injEq] at hp
    exact hp ▸ hnew
  · rw [AList.lookup_insert_ne hname] at hp
    exact h name' processor' hp

theorem setStatuses (status : Processor → Status) : (m.setStatuses status).All Q := by
  intro name processor hp
  rw [ProcessorManager.setStatuses, HashMap.lookup_filterMapVal, bind_eq_some_iff] at hp
  obtain ⟨old, hold, heq⟩ := hp
  rw [← some.inj heq]
  exact h name old hold

theorem watchDelete (name : String) : (m.watchDelete name).All Q := by
  unfold ProcessorManager.watchDelete
  cases hold : m.processors.lookup name with
  | none => exact h
  | some processor => exact h.insert (h name processor hold)

theorem deleteProcessor (name : String) : (m.deleteProcessor name).All Q := by
  intro name' processor hp
  by_cases hname : name' = name
  · subst hname
    rw [ProcessorManager.deleteProcessor, AList.lookup_erase] at hp
    cases hp
  · rw [ProcessorManager.deleteProcessor, AList.lookup_erase_ne hname] at hp
    exact h name' processor hp

/-- Deleting a list of processors. -/
theorem deleteProcessors (names : List String) :
    (names.foldl ProcessorManager.deleteProcessor m).All Q := by
  induction names generalizing m with
  | nil => exact h
  | cons name _ ih => exact ih (h.deleteProcessor name)

omit h in
theorem putTimeline (h : ∀ p t, processor.timelines.lookup p = some t → Q p t)
    (hQ : ∀ p t t', Q p t → t.put wmb = some t' → Q p t')
    (hput : m.putTimeline processor wmb = some processor') :
    ∀ p t, processor'.timelines.lookup p = some t → Q p t := by
  unfold ProcessorManager.putTimeline at hput
  split_ifs at hput
  · cases hput
    exact h
  · split at hput
    case h_1 =>
      cases hput
      exact h
    case h_2 timeline htimeline =>
      obtain ⟨timeline', htimeline', rfl⟩ := map_eq_some_iff.mp hput
      intro p t hp
      by_cases hpartition : p = wmb.partition
      · subst hpartition
        rw [AList.lookup_insert, some.injEq] at hp
        exact hp ▸ hQ _ _ _ (h _ _ htimeline) htimeline'
      · rw [AList.lookup_insert_ne hpartition] at hp
        exact h p t hp

/-- A watch entry of a known processor. -/
theorem watchPut (hQ : ∀ p t t', Q p t → t.put wmb = some t' → Q p t')
    (hknown : name ∈ m.processors) (hput : m.watchPut name wmb created = some m') : m'.All Q := by
  obtain ⟨processor', hprocessor', rfl⟩ := map_eq_some_iff.mp hput
  obtain ⟨processor, hprocessor⟩ := isSome_iff_exists.mp (AList.lookup_isSome.mpr hknown)
  refine h.insert (putTimeline ?_ hQ hprocessor')
  simp only [getOrCreate, hprocessor, getD_some]
  split_ifs
  · exact h name processor hprocessor
  · exact h name processor hprocessor

end All

end ProcessorManager
end Numaflow.Watermark
