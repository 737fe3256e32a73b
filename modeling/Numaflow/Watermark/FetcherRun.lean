import Numaflow.Watermark.Fetcher

/-!
# Runs of a fetcher

While a vertex asks for watermarks, the watches of its edges put messages into the
timelines and mark processors as deleted.  The offsets that are asked for a partition
never decrease, and no processor joins.

Main results: `Bounded.step`, `Above.step`, `le_fetchWatermark`.
-/

namespace Numaflow.Watermark

open Lib Option

/-- What can happen to a fetcher. -/
inductive FetcherAction where
  | watchPut (edge name : String) (wmb : Wmb) (created : Int)
  | watchDelete (edge name : String)
  | watchPurge (edge : String)
  | refresh (edge : String) (currentTime : Int)
  | fetch (offset : Int) (partition : Nat)

/-- A fetcher with the last offset that was asked for every partition. -/
structure FetcherRun where
  fetcher : ISBWatermarkFetcher
  asked : HashMap Nat Int

namespace ISBWatermarkFetcher

/-- Change the processors of an edge. -/
def onEdge (f : ISBWatermarkFetcher) (edge : String)
    (change : ProcessorManager → Option ProcessorManager) : ISBWatermarkFetcher :=
  match (f.processorManagers.lookup edge).bind change with
  | none => f
  | some m => { f with processorManagers := f.processorManagers.insert edge m }

/-- Every timeline of partition `partition` holds a message below the offset. -/
def Backed (f : ISBWatermarkFetcher) (offset : Int) (partition : Nat) : Prop :=
  ∀ m ∈ HashMap.values f.processorManagers, ∀ processor ∈ HashMap.values m.processors,
    ∀ t ∈ processor.timelines.lookup partition, (t.below offset).isSome = true
deriving Decidable

end ISBWatermarkFetcher

namespace FetcherRun

/-- Nothing has been asked yet. -/
def init (processorManagers : HashMap String ProcessorManager) (configs : List BucketConfig) :
    FetcherRun :=
  ⟨ISBWatermarkFetcher.new processorManagers configs, ∅⟩

def step (s : FetcherRun) : FetcherAction → FetcherRun
  | .watchPut edge name wmb created =>
    { s with fetcher := s.fetcher.onEdge edge fun m => m.watchPut name wmb created }
  | .watchDelete edge name =>
    { s with fetcher := s.fetcher.onEdge edge fun m => some (m.watchDelete name) }
  | .watchPurge edge =>
    { s with fetcher := s.fetcher.onEdge edge fun m => some m.watchPurge }
  | .refresh edge currentTime =>
    { s with fetcher := s.fetcher.onEdge edge fun m => some (m.refresh currentTime) }
  | .fetch offset partition =>
    match s.fetcher.fetchWatermark offset partition with
    | none => s
    | some (fetcher, _) => ⟨fetcher, s.asked.insert partition offset⟩

/-- The watermark that a fetch returns. -/
def returned (s : FetcherRun) (offset : Int) (partition : Nat) : Option Int :=
  (s.fetcher.fetchWatermark offset partition).map Prod.snd

/-- The offsets asked for a partition never decrease, and no processor is added. -/
def Steady (s : FetcherRun) : FetcherAction → Prop
  | .watchPut edge name _ _ =>
    ∀ m ∈ s.fetcher.processorManagers.lookup edge, name ∈ m.processors
  | .fetch offset partition => ∀ o ∈ s.asked.lookup partition, o ≤ offset
  | _ => True

/-- A fetch that every timeline of the partition answers. -/
def Answered (s : FetcherRun) : FetcherAction → Prop
  | .fetch offset partition => s.fetcher.Backed offset partition
  | _ => True

instance (s : FetcherRun) : DecidablePred s.Steady := fun _ => by
  unfold Steady
  split <;> infer_instance

instance (s : FetcherRun) : DecidablePred s.Answered := fun _ => by
  unfold Answered
  split <;> infer_instance

end FetcherRun

variable {p partition : Nat} {w offset : Int} {f f' : ISBWatermarkFetcher} {edge : String}
  {change : ProcessorManager → Option ProcessorManager}

namespace ISBWatermarkFetcher

/-! ## Edges -/

/-- The timelines of every edge have a property of the edge and their partition. -/
def All (Q : String → Nat → OffsetTimeline → Prop) (f : ISBWatermarkFetcher) : Prop :=
  ∀ edge m, f.processorManagers.lookup edge = some m → m.All (Q edge)

variable {Q : String → Nat → OffsetTimeline → Prop} {e : String}

theorem All.onEdge (h : f.All Q)
    (hchange : ∀ m m', f.processorManagers.lookup edge = some m → m.All (Q edge) →
      change m = some m' → m'.All (Q edge)) : (f.onEdge edge change).All Q := by
  unfold ISBWatermarkFetcher.onEdge
  cases hbind : (f.processorManagers.lookup edge).bind change with
  | none => exact h
  | some m' =>
    obtain ⟨m, hm, hm'⟩ := bind_eq_some_iff.mp hbind
    intro e m₁ hm₁
    by_cases he : e = edge
    · subst he
      rw [AList.lookup_insert, some.injEq] at hm₁
      exact hm₁ ▸ hchange m m' hm (h e m hm) hm'
    · rw [AList.lookup_insert_ne he] at hm₁
      exact h e m₁ hm₁

@[simp]
theorem stored_onEdge : (f.onEdge edge change).stored e p = f.stored e p := by
  unfold onEdge
  cases (f.processorManagers.lookup edge).bind change with
  | none | some => rfl

/-- What was backed before the fetch, in terms of the edges. -/
theorem Backed.all (h : f.Backed offset partition) :
    f.All fun _ p t => p = partition → (t.below offset).isSome = true := by
  rintro edge m hm name processor hp p t ht rfl
  exact h m (HashMap.mem_values.mpr ⟨edge, hm⟩) processor (HashMap.mem_values.mpr ⟨name, hp⟩) t ht

/-- Only a fetch that some timeline answers stores a new watermark. -/
theorem Fetched.stored_cases (h : Fetched offset partition edge f f')
    (hw : f'.stored edge p = some w) : f.stored edge p = some w ∨
      ∃ m, f.processorManagers.lookup edge = some m ∧ p = partition ∧
        w = m.epoch offset partition ∧ w ≠ i64Max := by
  rw [h.stored, storedAfter] at hw
  cases hm : f.processorManagers.lookup edge with
  | none =>
    rw [hm] at hw
    exact .inl hw
  | some m =>
    simp only [hm] at hw
    split_ifs at hw with hnew
    · rw [some.injEq] at hw
      exact .inr ⟨m, rfl, hnew.1, hw.symm, hw ▸ hnew.2⟩
    · exact .inl hw

theorem Proper.onEdge (h : f.Proper) : (f.onEdge edge change).Proper := by
  intro e p w hw
  rw [stored_onEdge] at hw
  exact h e p w hw

theorem Proper.fetch (h : f.Proper) (hf : ∀ edge, Fetched offset partition edge f f') :
    f'.Proper := by
  intro edge p w hw
  rcases (hf edge).stored_cases hw with hw | ⟨m, -, -, rfl, hne⟩
  · exact h edge p w hw
  · exact lt_of_le_of_ne ProcessorManager.epoch_le_max hne

end ISBWatermarkFetcher

namespace FetcherRun

open ISBWatermarkFetcher

variable {s : FetcherRun} {a : FetcherAction}

/-! ## Answers and stored watermarks -/

/-- A stored watermark is at most what the timelines answer for the offsets that may
still be asked. -/
structure Bounded (s : FetcherRun) : Prop where
  sorted : s.fetcher.All fun _ _ t => t.Sorted
  covers : s.fetcher.All fun edge p t => ∀ w, s.fetcher.stored edge p = some w →
    ∀ o, (∀ o' ∈ s.asked.lookup p, o' ≤ o) → t.Covers o w
  proper : s.fetcher.Proper

variable {processorManagers : HashMap String ProcessorManager} {configs : List BucketConfig}

theorem stored_new
    (h : (ISBWatermarkFetcher.new processorManagers configs).stored edge p = some w) : w = -1 := by
  obtain ⟨processed, hprocessed, hw⟩ := bind_eq_some_iff.mp h
  refine HashMap.forall_foldl_insert (P := fun processed : HashMap Nat Int =>
    ∀ p w, processed.lookup p = some w → w = -1) ?_ ?_ edge processed hprocessed p w hw
  · intro k v hk
    simp at hk
  · intro config _
    exact HashMap.forall_foldl_insert (fun k v hk => by simp at hk) fun _ _ => rfl

theorem Bounded.init (hsorted : ∀ m ∈ HashMap.values processorManagers, m.All fun _ t => t.Sorted)
    (configs : List BucketConfig) : (init processorManagers configs).Bounded := by
  have hall : (FetcherRun.init processorManagers configs).fetcher.All fun _ _ t => t.Sorted :=
    fun edge m hm => hsorted m (HashMap.mem_values.mpr ⟨edge, hm⟩)
  refine ⟨hall, ?_, ?_⟩
  · intro edge m hm name processor hp p t ht w hw o _ o' _ wmb hwmb
    rw [stored_new hw]
    exact (hall edge m hm name processor hp p t ht).floor wmb (List.mem_of_find?_eq_some hwmb)
  · intro edge p w hw
    rw [stored_new hw]
    decide

namespace Bounded

/-- A change of an edge that puts messages or marks processors. -/
theorem onEdge (h : s.Bounded) (hchange : ∀ (Q : Nat → OffsetTimeline → Prop) m m',
      s.fetcher.processorManagers.lookup edge = some m →
      (∀ wmb p t t', Q p t → OffsetTimeline.put t wmb = some t' → Q p t') → m.All Q →
      change m = some m' → m'.All Q) :
    Bounded { s with fetcher := s.fetcher.onEdge edge change } := by
  refine ⟨?_, ?_, ?_⟩
  · refine h.sorted.onEdge fun m m' hm hall hm' => hchange _ m m' hm ?_ hall hm'
    exact fun wmb p t t' ht hput => ht.put hput
  · simp only [stored_onEdge]
    refine h.covers.onEdge fun m m' hm hall hm' => hchange _ m m' hm ?_ hall hm'
    exact fun wmb p t t' ht hput w hw o ho => (ht w hw o ho).put hput
  · exact h.proper.onEdge

/-- A fetch stores what the timelines answer. -/
theorem fetch (h : s.Bounded) (ho : ∀ o ∈ s.asked.lookup partition, o ≤ offset)
    (hf : ∀ edge, Fetched offset partition edge s.fetcher f') :
    Bounded ⟨f', s.asked.insert partition offset⟩ := by
  have hold : ∀ {Q : String → Nat → OffsetTimeline → Prop}, s.fetcher.All Q → f'.All Q := by
    intro Q hQ edge m' hm'
    rw [(hf edge).managers] at hm'
    obtain ⟨m, hm, rfl⟩ := map_eq_some_iff.mp hm'
    exact (hQ edge m hm).removeStale offset
  refine ⟨hold h.sorted, ?_, ?_⟩
  · -- the answer that is stored now bounds the answers for all later offsets
    have hnew : s.fetcher.All fun edge p t => ∀ w, f'.stored edge p = some w →
        ∀ o, (∀ o' ∈ (s.asked.insert partition offset).lookup p, o' ≤ o) → t.Covers o w := by
      intro edge m hm name processor hp p t ht w hw o hlater
      have hsorted := h.sorted edge m hm name processor hp p t ht
      rcases (hf edge).stored_cases hw with hw | ⟨m', hm', rfl, rfl, -⟩
      · refine h.covers edge m hm name processor hp p t ht w hw o fun o' ho' => ?_
        by_cases hpartition : p = partition
        · subst hpartition
          exact (ho o' ho').trans (hlater offset (AList.lookup_insert _))
        · exact hlater o' (by rw [AList.lookup_insert_ne hpartition]; exact ho')
      · have hle := (ProcessorManager.le_epoch_iff.mp (le_refl (m'.epoch offset p))).2
        rw [hm, some.injEq] at hm'
        subst hm'
        exact (OffsetTimeline.Covers.of_getEventTime hsorted offset).mono
          (hlater offset (AList.lookup_insert _)) (hle name processor hp p t ht rfl)
    exact hold hnew
  · exact h.proper.fetch hf

/-- A stored watermark is at most what the timelines of its edge and partition answer for the
offsets that may still be asked. -/
theorem step (h : s.Bounded) (hok : s.Steady a) : (s.step a).Bounded := by
  cases a with
  | watchPut _ _ wmb =>
    refine h.onEdge fun Q m m' hm hQ hall hm' => ?_
    exact hall.watchPut (hQ wmb) (hok m hm) hm'
  | watchDelete _ name =>
    refine h.onEdge fun Q m m' _ _ hall hm' => ?_
    cases hm'
    exact hall.watchDelete name
  | watchPurge | refresh =>
    refine h.onEdge fun Q m m' _ _ hall hm' => ?_
    cases hm'
    exact hall.setStatuses _
  | fetch offset partition =>
    simp only [FetcherRun.step]
    cases hfetch : s.fetcher.fetchWatermark offset partition with
    | none => exact h
    | some => exact h.fetch hok (Fetched.of_fetchWatermark hfetch).1

end Bounded

/-! ## Returned watermarks -/

/-- Every stored watermark is at least `v`. -/
structure Above (v : Int) (f : ISBWatermarkFetcher) : Prop where
  stored : ∀ edge p w, f.stored edge p = some w → v ≤ w
  default : (∀ edge p, f.stored edge p = none) → v ≤ -1

variable {v : Int}

namespace Above

/-- A fetch stores nothing below `v`. -/
theorem fetch (h : Above v s.fetcher) (hbounded : s.Bounded)
    (ho : ∀ o ∈ s.asked.lookup partition, o ≤ offset) (hbacked : s.fetcher.Backed offset partition)
    (hf : ∀ edge, Fetched offset partition edge s.fetcher f') : Above v f' := by
  constructor
  · intro edge p w hw
    rcases (hf edge).stored_cases hw with hw | ⟨m, hm, rfl, rfl, hne⟩
    · exact h.stored edge p w hw
    · obtain ⟨w, hw⟩ := isSome_iff_exists.mp ((hf edge).known m hm hne)
      have hvw := h.stored edge p w hw
      have hmax := hbounded.proper edge p w hw
      refine ProcessorManager.le_epoch_iff.mpr ⟨by omega, ?_⟩
      rintro name processor hp p t ht rfl
      have hcovers := hbounded.covers edge m hm name processor hp p t ht w hw offset ho
      exact hvw.trans (hcovers.le_getEventTime (le_refl _)
        (hbacked.all edge m hm name processor hp p t ht rfl))
  · intro hnone
    refine h.default fun edge p => ?_
    -- a fetch never forgets a stored watermark
    have hp := (hf edge).stored p
    rw [hnone edge p, storedAfter] at hp
    cases hm : s.fetcher.processorManagers.lookup edge with
    | none =>
      rw [hm] at hp
      exact hp.symm
    | some =>
      simp only [hm] at hp
      split_ifs at hp
      exact hp.symm

theorem onEdge (h : Above v f) : Above v (f.onEdge edge change) := by
  constructor
  · simpa only [stored_onEdge] using h.stored
  · simpa only [stored_onEdge] using h.default

/-- A fetch that every timeline answers stores nothing below what all stored watermarks were at
least. -/
theorem step (h : Above v s.fetcher) (hbounded : s.Bounded) (hok : s.Steady a)
    (hanswered : s.Answered a) : Above v (s.step a).fetcher := by
  cases a with
  | watchPut | watchDelete | watchPurge
  | refresh => exact h.onEdge
  | fetch offset partition =>
    simp only [FetcherRun.step]
    cases hfetch : s.fetcher.fetchWatermark offset partition with
    | none => exact h
    | some => exact h.fetch hbounded hok hanswered (Fetched.of_fetchWatermark hfetch).1

theorem of_getWatermark (h : f.Proper) : Above f.getWatermark f := by
  have hle := (le_getWatermark_iff h).mp (le_refl f.getWatermark)
  exact ⟨hle.1, hle.2⟩

theorem le_getWatermark (h : Above v f) (hproper : f.Proper) : v ≤ f.getWatermark :=
  (le_getWatermark_iff hproper).mpr ⟨h.stored, h.default⟩

end Above

theorem returned_eq_some : s.returned offset partition = some v ↔
      ∃ f', s.fetcher.fetchWatermark offset partition = some (f', v) := by
  rw [returned, map_eq_some_iff]
  constructor
  · rintro ⟨⟨f', _⟩, hf', rfl⟩
    exact ⟨f', hf'⟩
  · rintro ⟨f', hf'⟩
    exact ⟨(f', v), hf', rfl⟩

theorem step_fetch (h : s.fetcher.fetchWatermark offset partition = some (f', v)) :
    s.step (.fetch offset partition) = ⟨f', s.asked.insert partition offset⟩ := by
  simp only [step, h]

/-- A later fetch does not return a smaller watermark than an earlier one, when every
timeline that is asked after the earlier one has an answer. -/
theorem le_fetchWatermark (processorManagers : HashMap String ProcessorManager)
    (configs : List BucketConfig) (before between : List FetcherAction) (o₁ o₂ : Int)
    (p₁ p₂ : Nat) {v₁ v₂ : Int}
    (hsorted : ∀ m ∈ HashMap.values processorManagers, m.All fun _ t => t.Sorted)
    (hsteady : Along Steady step (init processorManagers configs)
      (before ++ .fetch o₁ p₁ :: (between ++ [.fetch o₂ p₂])))
    (hfirst : (exec step (init processorManagers configs) before).returned o₁ p₁ = some v₁)
    (hanswered : Along Answered step
      (exec step (init processorManagers configs) (before ++ [.fetch o₁ p₁]))
      (between ++ [.fetch o₂ p₂]))
    (hlast : (exec step (init processorManagers configs)
      (before ++ .fetch o₁ p₁ :: between)).returned o₂ p₂ = some v₂) : v₁ ≤ v₂ := by
  set s₀ := exec step _ before with hs₀
  rw [exec_append, ← hs₀] at hanswered hlast
  rw [Along.append, Along.cons, ← hs₀] at hsteady
  obtain ⟨f₁, hfirst⟩ := returned_eq_some.mp hfirst
  obtain ⟨hbefore, hsteady₁, hafter⟩ := hsteady
  have hbounded₀ : s₀.Bounded :=
    exec_invariant (fun s a h hok => Bounded.step h hok) (Bounded.init hsorted configs) hbefore
  have hbounded₁ := hbounded₀.step hsteady₁
  rw [step_fetch hfirst] at hbounded₁ hafter
  simp only [exec, step_fetch hfirst] at hanswered hlast
  obtain ⟨f₂, hlast⟩ := returned_eq_some.mp hlast
  have habove₁ : Above v₁ f₁ := by
    rw [(Fetched.of_fetchWatermark hfirst).2]
    exact Above.of_getWatermark hbounded₁.proper
  -- every later step keeps the stored watermarks at or above the first answer
  have hrun := Along.and hafter hanswered
  have hboth := exec_invariant (I := fun s : FetcherRun => s.Bounded ∧ Above v₁ s.fetcher)
    (fun s a h hok => ⟨h.1.step hok.1, h.2.step h.1 hok.1 hok.2⟩) ⟨hbounded₁, habove₁⟩ hrun
  rw [exec_append] at hboth
  simp only [exec, step_fetch hlast] at hboth
  rw [(Fetched.of_fetchWatermark hlast).2]
  exact hboth.2.le_getWatermark hboth.1.proper

/-- An edge with two partitions. -/
def inConfig : BucketConfig where
  vertex := "in"
  partitions := [0, 1]

/-- The edge of a vertex that reads two partitions from one processor. -/
def oneProcessor : HashMap String ProcessorManager :=
  AList.singleton "in" ⟨[0, 1], .mapUDF, 0,
    AList.singleton "in-0" (Processor.new "in-0" .active [0, 1] 0)⟩

theorem oneProcessor_sorted : ∀ m ∈ HashMap.values oneProcessor, m.All fun _ t => t.Sorted := by
  intro m hm
  rw [List.mem_singleton.mp hm]
  intro name processor hp
  cases List.mem_singleton.mp (AList.mem_lookup_iff.mp hp)
  exact Processor.sorted_new

/-- The processor publishes a pair for a partition. -/
def publish (partition : Nat) (offset watermark : Int) : FetcherAction :=
  .watchPut "in" "in-0" ⟨false, offset, watermark, partition, some 1⟩ 0

theorem oneProcessor_le_fetchWatermark : ∃ v₁ v₂, (exec step (init oneProcessor [inConfig])
        [publish 0 4 100, publish 1 4 90, .fetch 5 0]).returned 5 1 = some v₁ ∧
      (exec step (init oneProcessor [inConfig])
        [publish 0 4 100, publish 1 4 90, .fetch 5 0, .fetch 5 1, publish 1 6 110]).returned 7 1 =
          some v₂ ∧
      v₁ ≤ v₂ :=
  ⟨90, 100, by decide, by decide, le_fetchWatermark oneProcessor [inConfig]
      [publish 0 4 100, publish 1 4 90, .fetch 5 0] [publish 1 6 110] 5 7 1 1
      oneProcessor_sorted (by decide) (by decide) (by decide) (by decide)⟩

/-- Ten messages for partition 1 push out the one that answered its first fetch.  Its next
fetch has no answer and stores the default, which the following fetch of partition 0
returns although the timeline of that partition has an answer. -/
theorem oneProcessor_regresses : Along Steady step (init oneProcessor [inConfig])
      ([publish 0 4 100, publish 1 4 90, .fetch 5 0, .fetch 5 1] ++
        (List.range 10).map (fun i => publish 1 (20 + i) 200) ++ [.fetch 6 1, .fetch 6 0]) ∧
      (exec step (init oneProcessor [inConfig])
        [publish 0 4 100, publish 1 4 90, .fetch 5 0]).returned 5 1 = some 90 ∧
      (exec step (init oneProcessor [inConfig])
        ([publish 0 4 100, publish 1 4 90, .fetch 5 0, .fetch 5 1] ++
          (List.range 10).map (fun i => publish 1 (20 + i) 200) ++
          [.fetch 6 1])).fetcher.Backed 6 0 ∧
      (exec step (init oneProcessor [inConfig])
        ([publish 0 4 100, publish 1 4 90, .fetch 5 0, .fetch 5 1] ++
          (List.range 10).map (fun i => publish 1 (20 + i) 200) ++
          [.fetch 6 1])).returned 6 0 = some (-1) := by
  decide

end FetcherRun
end Numaflow.Watermark
