import Numaflow.Watermark.FetcherRun

/-!
# Removal of a deleted processor

A fetch removes a deleted processor once the asked offset is beyond the heads of all its
timelines.  The run after the removal is compared with the run of the same actions in
which the processor is put back whenever a fetch removes it.

Main results: `ProcessorManager.Extends.removeStale`, `Kept.step`,
`ISBWatermarkFetcher.getWatermark_le_iff`, `returned_le_kept_iff`.
-/

namespace Numaflow.Watermark

open Lib ProcessorManager HashMap AList Option

variable {offset v : Int} {partition : Nat} {p : Processor} {name : String}

namespace ProcessorManager

variable {m m' k k' : ProcessorManager} {processor : Processor}

/-! ## Removing -/

/-- What a manager is started with. -/
def config (m : ProcessorManager) : List Nat × VertexType × Nat :=
  (m.partitions, m.vertexType, m.vertexReplica)

@[simp]
theorem config_deleteProcessors (names : List String) :
    (names.foldl deleteProcessor m).config = m.config := by
  induction names generalizing m with
  | nil => rfl
  | cons a _ ih => exact ih

theorem lookup_deleteProcessors (names : List String) (n : String) :
    (names.foldl deleteProcessor m).processors.lookup n =
      if n ∈ names then none else m.processors.lookup n := by
  have herase : (names.foldl deleteProcessor m).processors =
      names.foldl (fun processors name => processors.erase name) m.processors :=
    (List.foldl_hom processors fun _ _ => rfl).symm
  rw [herase, lookup_foldl_erase]

variable {n : String} {q : Processor}

theorem mem_processorsToDelete : n ∈ m.processorsToDelete offset ↔
      ∃ p, m.processors.lookup n = some p ∧ p.isDeleted = true ∧ p.headOffset < offset := by
  simp only [processorsToDelete, List.mem_map, List.mem_filter, Bool.and_eq_true, decide_eq_true_eq]
  constructor
  · rintro ⟨e, ⟨he, hdeleted⟩, rfl⟩
    exact ⟨e.2, mem_lookup_iff.mpr he, hdeleted⟩
  · rintro ⟨p, hp, hdeleted⟩
    exact ⟨⟨n, p⟩, ⟨mem_lookup_iff.mp hp, hdeleted⟩, rfl⟩

/-- Put a processor back that was removed. -/
def restore (m : ProcessorManager) (name : String) (processor : Processor) : ProcessorManager :=
  if name ∈ m.processors then m
  else { m with processors := m.processors.insert name processor }

theorem lookup_restore (m : ProcessorManager) (p : Processor) (n : String) :
    (m.restore name p).processors.lookup n =
      if n = name then some ((m.processors.lookup name).getD p) else m.processors.lookup n := by
  unfold restore
  split_ifs with hmem hn hn
  · subst hn
    obtain ⟨q, hq⟩ := isSome_iff_exists.mp (lookup_isSome.mpr hmem)
    rw [hq, getD_some]
  · rfl
  · subst hn
    rw [lookup_insert, lookup_eq_none.mpr hmem, getD_none]
  · exact lookup_insert_ne hn

@[simp]
theorem config_restore (m : ProcessorManager) (p : Processor) :
    (m.restore name p).config = m.config := by
  unfold restore
  split_ifs
  · rfl
  · rfl

theorem restore_of_lookup (h : m.processors.lookup name = some q) : m.restore name p = m :=
  if_pos (lookup_isSome.mp (by rw [h]; rfl))

/-! ## One processor more -/

/-- The second manager has one processor more, with the timelines of `processor`. -/
structure Extends (name : String) (processor : Processor) (m k : ProcessorManager) : Prop where
  config : k.config = m.config
  absent : m.processors.lookup name = none
  present : ∃ p, k.processors.lookup name = some p ∧ p.timelines = processor.timelines
  others : ∀ n, n ≠ name → k.processors.lookup n = m.processors.lookup n

namespace Extends

variable (h : Extends name processor m k)

include h

theorem config_eq : k.partitions = m.partitions ∧ k.vertexType = m.vertexType ∧
      k.vertexReplica = m.vertexReplica := by
  simpa only [ProcessorManager.config, Prod.mk.injEq] using h.config

/-- The same change of the other processors. -/
theorem insert (hn : n ≠ name) (p : Processor) :
    Extends name processor { m with processors := m.processors.insert n p }
      { k with processors := k.processors.insert n p } := by
  refine ⟨h.config, ?_, ?_, fun n' hn' => ?_⟩
  · rw [lookup_insert_ne hn.symm]
    exact h.absent
  · rw [lookup_insert_ne hn.symm]
    exact h.present
  · by_cases heq : n' = n
    · subst heq
      rw [lookup_insert, lookup_insert]
    · rw [lookup_insert_ne heq, lookup_insert_ne heq]
      exact h.others n' hn'

theorem putTimeline (p : Processor) (wmb : Wmb) : k.putTimeline p wmb = m.putTimeline p wmb := by
  obtain ⟨-, htype, hreplica⟩ := h.config_eq
  simp only [ProcessorManager.putTimeline, htype, hreplica]

/-- A watch entry of another processor. -/
theorem watchPut (hn : n ≠ name) (wmb : Wmb) (created : Int) :
    (m.watchPut n wmb created = none ∧ k.watchPut n wmb created = none) ∨
      ∃ m' k', m.watchPut n wmb created = some m' ∧ k.watchPut n wmb created = some k' ∧
        Extends name processor m' k' := by
  have hget : k.getOrCreate n created = m.getOrCreate n created := by
    rw [getOrCreate, getOrCreate, h.others n hn, h.config_eq.1]
  simp only [ProcessorManager.watchPut, hget, h.putTimeline]
  cases m.putTimeline _ wmb with
  | none => exact .inl ⟨rfl, rfl⟩
  | some p => exact .inr ⟨_, _, rfl, rfl, h.insert hn p⟩

theorem watchDelete (n : String) : Extends name processor (m.watchDelete n) (k.watchDelete n) := by
  by_cases hn : n = name
  · subst hn
    obtain ⟨p, hp, htimelines⟩ := h.present
    simp only [ProcessorManager.watchDelete, h.absent, hp]
    refine ⟨h.config, h.absent, ?_, fun n' hn' => ?_⟩
    · exact ⟨_, lookup_insert _, htimelines⟩
    · rw [lookup_insert_ne hn']
      exact h.others n' hn'
  · simp only [ProcessorManager.watchDelete, h.others n hn]
    cases m.processors.lookup n with
    | none => exact h
    | some => exact h.insert hn _

theorem setStatuses (status : Processor → Status) :
    Extends name processor (m.setStatuses status) (k.setStatuses status) := by
  refine ⟨h.config, ?_, ?_, fun n hn => ?_⟩
  · simp only [ProcessorManager.setStatuses, lookup_filterMapVal, h.absent]
    rfl
  · obtain ⟨p, hp, htimelines⟩ := h.present
    refine ⟨p.setStatus (status p), ?_, htimelines⟩
    simp only [ProcessorManager.setStatuses, lookup_filterMapVal, hp, bind_some]
  · simp only [ProcessorManager.setStatuses, lookup_filterMapVal, h.others n hn]

/-- A fetch removes the same other processors. -/
theorem removeStale (offset : Int) (hp : p.timelines = processor.timelines) :
    Extends name processor (m.removeStale offset) ((k.removeStale offset).restore name p) := by
  have hiff : ∀ n, n ≠ name →
      (n ∈ k.processorsToDelete offset ↔ n ∈ m.processorsToDelete offset) := by
    intro n hn
    rw [mem_processorsToDelete, mem_processorsToDelete, h.others n hn]
  unfold ProcessorManager.removeStale
  refine ⟨?_, ?_, ?_, fun n hn => ?_⟩
  · rw [config_restore, config_deleteProcessors, config_deleteProcessors]
    exact h.config
  · rw [lookup_deleteProcessors, h.absent, ite_self]
  · obtain ⟨q, hq, htimelines⟩ := h.present
    rw [lookup_restore, if_pos rfl, lookup_deleteProcessors, hq]
    split_ifs
    · exact ⟨p, rfl, hp⟩
    · exact ⟨q, rfl, htimelines⟩
  · rw [lookup_restore, if_neg hn, lookup_deleteProcessors, lookup_deleteProcessors, h.others n hn]
    simp only [hiff n hn]

omit h in
/-- The processor is put back where it was removed. -/
theorem of_restore (habsent : m.processors.lookup name = none) :
    Extends name p m (m.restore name p) := by
  refine ⟨config_restore m p, habsent, ?_, fun n hn => ?_⟩
  · rw [lookup_restore, if_pos rfl, habsent]
    exact ⟨p, rfl, rfl⟩
  · rw [lookup_restore, if_neg hn]

/-- The smallest watermark takes the additional timelines into account. -/
theorem le_epoch_iff : v ≤ k.epoch offset partition ↔ v ≤ m.epoch offset partition ∧
      ∀ t, processor.timelines.lookup partition = some t → v ≤ t.getEventTime offset := by
  rw [ProcessorManager.le_epoch_iff, ProcessorManager.le_epoch_iff, and_assoc]
  refine and_congr_right fun _ => ?_
  obtain ⟨p, hp, htimelines⟩ := h.present
  constructor
  · intro hall
    refine ⟨fun n q hq => hall n q ?_, fun t ht => hall name p hp partition t (htimelines ▸ ht) rfl⟩
    have hn : n ≠ name := by
      rintro rfl
      rw [h.absent] at hq
      cases hq
    rw [h.others n hn, hq]
  · rintro ⟨hall, hextra⟩ n q hq
    by_cases hn : n = name
    · subst hn
      rw [hp, some.injEq] at hq
      subst hq
      rintro p' t ht rfl
      exact hextra t (htimelines ▸ ht)
    · rw [h.others n hn] at hq
      exact hall n q hq

end Extends

variable {bound : Int}

/-- The smallest answer is at most a bound when an answer is. -/
theorem epoch_le_iff (hbound : bound < i64Max) : m.epoch offset partition ≤ bound ↔
    ∃ n p t, m.processors.lookup n = some p ∧ p.timelines.lookup partition = some t ∧
      t.getEventTime offset ≤ bound := by
  have hle : bound + 1 ≤ m.epoch offset partition ↔ _ := m.le_epoch_iff
  have hlt := not_congr hle
  simp only [Int.add_one_le_iff, hbound, true_and, not_lt, All] at hlt
  rw [hlt]
  push Not
  exact ⟨fun ⟨n, p, hp, q, t, ht, hq, hle⟩ => ⟨n, p, t, hp, hq ▸ ht, hle⟩,
    fun ⟨n, p, t, hp, ht, hle⟩ => ⟨n, p, hp, partition, t, ht, rfl, hle⟩⟩

/-- There is no answer below the largest integer. -/
theorem epoch_eq_max_iff : m.epoch offset partition = i64Max ↔
    ∀ n p t, m.processors.lookup n = some p → p.timelines.lookup partition = some t →
      i64Max ≤ t.getEventTime offset := by
  rw [← epoch_le_max.ge_iff_eq, ProcessorManager.le_epoch_iff]
  simp only [le_refl, true_and, All]
  exact ⟨fun h n p t hp ht => h n p hp partition t ht rfl,
    fun h n p hp q t ht hq => h n p t hp (hq ▸ ht)⟩

end ProcessorManager

namespace ISBWatermarkFetcher

/-- The processor of an edge with a name. -/
def processor (f : ISBWatermarkFetcher) (edge name : String) : Option Processor :=
  (f.processorManagers.lookup edge).bind fun m => m.processors.lookup name

end ISBWatermarkFetcher

namespace FetcherRun

/-- A step after which the processor is put back when the step removed it. -/
def keptStep (edge name : String) (s : FetcherRun) (a : FetcherAction) : FetcherRun :=
  match s.fetcher.processor edge name with
  | none => s.step a
  | some processor =>
    { s.step a with
      fetcher := (s.step a).fetcher.onEdge edge fun m => some (m.restore name processor) }

/-- The last offset asked for every partition, after one more action. -/
def note (asked : Nat → Option Int) : FetcherAction → Nat → Option Int
  | .fetch offset partition => fun p => if p = partition then some offset else asked p
  | _ => asked

/-- The last offset that the actions ask for every partition. -/
def lastAsked (actions : List FetcherAction) : Nat → Option Int :=
  actions.foldl note fun _ => none

/-- The fetch does not stop the process. -/
def Returns (s : FetcherRun) : FetcherAction → Prop
  | .fetch offset partition => (s.returned offset partition).isSome = true
  | _ => True

/-- Nothing is published for the processor. -/
def Quiet (edge name : String) : FetcherAction → Prop
  | .watchPut e n _ _ => ¬(e = edge ∧ n = name)
  | _ => True

end FetcherRun

variable {e edge : String} {asked : Nat → Option Int}
  {change : ProcessorManager → Option ProcessorManager}

namespace ISBWatermarkFetcher

variable {f f' g g' : ISBWatermarkFetcher} {processor : Processor}

theorem lookup_onEdge (e' : String) : (f.onEdge e change).processorManagers.lookup e' =
      if e' = e then ((f.processorManagers.lookup e).bind change).or (f.processorManagers.lookup e)
      else f.processorManagers.lookup e' := by
  unfold onEdge
  by_cases he : e' = e
  · subst he
    cases (f.processorManagers.lookup e').bind change with
    | none | some => simp
  · cases (f.processorManagers.lookup e).bind change with
    | none | some => simp [he]

@[simp]
theorem getWatermark_onEdge : (f.onEdge e change).getWatermark = f.getWatermark := by
  unfold onEdge
  cases (f.processorManagers.lookup e).bind change with
  | none | some => rfl

/-! ## What a fetch compares -/

/-- Among the watermarks that a fetch compares there is one that is at most the bound: what a
timeline answers for the asked partition, or a stored one that no answer replaces. -/
def SeesAtMost (f : ISBWatermarkFetcher) (offset : Int) (partition : Nat) (bound : Int) : Prop :=
  (∃ e m n p t, f.processorManagers.lookup e = some m ∧ m.processors.lookup n = some p ∧
      p.timelines.lookup partition = some t ∧ t.getEventTime offset ≤ bound) ∨
    ∃ e q w, f.stored e q = some w ∧ w ≤ bound ∧
      (q = partition → ∀ m n p t, f.processorManagers.lookup e = some m →
        m.processors.lookup n = some p → p.timelines.lookup partition = some t →
          i64Max ≤ t.getEventTime offset)

/-- A stored watermark after a fetch is an answer, or was stored before and not replaced. -/
theorem storedAfter_eq_some_iff {w : Int} {q : Nat} :
    f.storedAfter offset partition e q = some w ↔
      (∃ m, f.processorManagers.lookup e = some m ∧ q = partition ∧
        m.epoch offset partition = w ∧ w ≠ i64Max) ∨
      f.stored e q = some w ∧ (q = partition → ∀ m, f.processorManagers.lookup e = some m →
        m.epoch offset partition = i64Max) := by
  unfold storedAfter
  cases f.processorManagers.lookup e with
  | none => simp
  | some m =>
    by_cases hnew : q = partition ∧ m.epoch offset partition ≠ i64Max
    · simp only [if_pos hnew]
      grind
    · simp only [if_neg hnew]
      grind

/-- The returned watermark is at most a bound when a stored one is. -/
theorem getWatermark_le_iff_stored {bound : Int} (hproper : f.Proper)
    (hsome : ∃ e q w, f.stored e q = some w) :
    f.getWatermark ≤ bound ↔ ∃ e q w, f.stored e q = some w ∧ w ≤ bound := by
  have hlt := not_congr (le_getWatermark_iff (v := bound + 1) hproper)
  obtain ⟨e, q, w, hw⟩ := hsome
  have hnone : ¬∀ e p, f.stored e p = none := fun hnone => by
    rw [hnone e q] at hw
    cases hw
  simpa only [hnone, false_implies, and_true, not_le, not_forall, exists_prop,
    Int.lt_add_one_iff] using hlt

/-- When a fetch returns at most a bound. -/
theorem getWatermark_le_iff {bound : Int}
    (hf : ∀ e, Fetched offset partition e f f') (hproper : f'.Proper)
    (hsome : ∃ e q w, f'.stored e q = some w) (hbound : bound < i64Max) :
    f'.getWatermark ≤ bound ↔ f.SeesAtMost offset partition bound := by
  rw [getWatermark_le_iff_stored hproper hsome, SeesAtMost]
  simp only [(hf _).stored, storedAfter_eq_some_iff]
  constructor
  · rintro ⟨e, q, w, (⟨m, hm, rfl, rfl, -⟩ | ⟨hw, hkeep⟩), hle⟩
    · obtain ⟨n, p, t, hp, ht, htime⟩ := (epoch_le_iff hbound).mp hle
      exact .inl ⟨e, m, n, p, t, hm, hp, ht, htime⟩
    · exact .inr ⟨e, q, w, hw, hle, fun hq m n p t hm => epoch_eq_max_iff.mp (hkeep hq m hm) n p t⟩
  · rintro (⟨e, m, n, p, t, hm, hp, ht, htime⟩ | ⟨e, q, w, hw, hle, hkeep⟩)
    · have hle := (epoch_le_iff hbound).mpr ⟨n, p, t, hp, ht, htime⟩
      exact ⟨e, partition, _, .inl ⟨m, hm, rfl, rfl, by omega⟩, hle⟩
    · exact ⟨e, q, w, .inr ⟨hw, fun hq m hm => epoch_eq_max_iff.mpr fun n p t =>
        hkeep hq m n p t hm⟩, hle⟩

/-! ## The two runs -/

/-- The second fetcher has one processor more on an edge, and its stored watermarks differ
by what the timelines of that processor answered for the offsets asked last. -/
structure Kept (edge name : String) (processor : Processor) (asked : Nat → Option Int)
    (f g : ISBWatermarkFetcher) : Prop where
  manager : ∃ m k, f.processorManagers.lookup edge = some m ∧
    g.processorManagers.lookup edge = some k ∧ ProcessorManager.Extends name processor m k
  managers : ∀ e, e ≠ edge → g.processorManagers.lookup e = f.processorManagers.lookup e
  stored : ∀ e, e ≠ edge → ∀ p, g.stored e p = f.stored e p
  unasked : ∀ p, processor.timelines.lookup p = none ∨ asked p = none →
    g.stored edge p = f.stored edge p
  answered : ∀ p t o, processor.timelines.lookup p = some t → asked p = some o →
    ∃ w w', f.stored edge p = some w ∧ g.stored edge p = some w' ∧
      ∀ v, v ≤ w → (v ≤ w' ↔ v ≤ t.getEventTime o)

namespace Kept

variable (h : Kept edge name processor asked f g)

include h

/-- The stored watermarks of a partition are known to both. -/
theorem isSome_stored {p : Nat} : (f.stored edge p).isSome = (g.stored edge p).isSome := by
  cases ht : processor.timelines.lookup p with
  | none => rw [h.unasked p (.inl ht)]
  | some t =>
    cases ho : asked p with
    | none => rw [h.unasked p (.inr ho)]
    | some o =>
      obtain ⟨w, w', hw, hw', -⟩ := h.answered p t o ht ho
      rw [hw, hw']
      rfl

/-- The same change of an edge in both. -/
theorem onEdge (hchange : e = edge → ∀ m k, ProcessorManager.Extends name processor m k →
      (change m = none ∧ change k = none) ∨ ∃ m' k', change m = some m' ∧ change k = some k' ∧
          ProcessorManager.Extends name processor m' k') :
    Kept edge name processor asked (f.onEdge e change) (g.onEdge e change) := by
  refine ⟨?_, fun e' he' => ?_, ?_, ?_, ?_⟩
  · obtain ⟨m, k, hm, hk, hext⟩ := h.manager
    rw [lookup_onEdge, lookup_onEdge]
    by_cases he : edge = e
    · subst he
      rw [if_pos rfl, if_pos rfl, hm, hk, bind_some, bind_some]
      rcases hchange rfl m k hext with ⟨hnone, hnone'⟩ | ⟨m', k', hm', hk', hext'⟩
      · rw [hnone, hnone']
        exact ⟨m, k, rfl, rfl, hext⟩
      · rw [hm', hk']
        exact ⟨m', k', rfl, rfl, hext'⟩
    · rw [if_neg he, if_neg he]
      exact ⟨m, k, hm, hk, hext⟩
  · rw [lookup_onEdge, lookup_onEdge]
    split_ifs with he
    · rw [← he, h.managers e' he']
    · exact h.managers e' he'
  · simpa only [stored_onEdge] using h.stored
  · simpa only [stored_onEdge] using h.unasked
  · simpa only [stored_onEdge] using h.answered

/-- Putting the processor back where it is changes nothing. -/
theorem restore (p : Processor) :
    Kept edge name processor asked f (g.onEdge edge fun m => some (m.restore name p)) := by
  obtain ⟨m, k, hm, hk, hext⟩ := h.manager
  obtain ⟨q, hq, -⟩ := hext.present
  refine ⟨⟨m, k, hm, ?_, hext⟩, fun e he => ?_, ?_, ?_, ?_⟩
  · rw [lookup_onEdge, if_pos rfl, hk, bind_some, restore_of_lookup hq]
    rfl
  · rw [lookup_onEdge, if_neg he]
    exact h.managers e he
  · simpa only [stored_onEdge] using h.stored
  · simpa only [stored_onEdge] using h.unasked
  · simpa only [stored_onEdge] using h.answered

/-- A fetch in both. -/
theorem fetch (hf : ∀ e, Fetched offset partition e f f')
    (hg : ∀ e, Fetched offset partition e g g')
    (hbelow : ∀ t ∈ values processor.timelines, ∀ w ∈ t.watermarks, w.watermark < i64Max)
    (hp : p.timelines = processor.timelines) :
    Kept edge name processor (fun q => if q = partition then some offset else asked q) f'
      (g'.onEdge edge fun m => some (m.restore name p)) := by
  obtain ⟨m, k, hm, hk, hext⟩ := h.manager
  refine ⟨⟨m.removeStale offset, (k.removeStale offset).restore name p, ?_, ?_,
    hext.removeStale offset hp⟩, fun e he => ?_, fun e he q => ?_, fun q hq => ?_,
    fun q t o ht ho => ?_⟩
  · rw [(hf edge).managers, hm, map_some]
  · rw [lookup_onEdge, if_pos rfl, (hg edge).managers, hk]
    rfl
  · rw [lookup_onEdge, if_neg he, (hg e).managers, (hf e).managers, h.managers e he]
  · rw [stored_onEdge, (hg e).stored, (hf e).stored]
    simp only [storedAfter, h.managers e he, h.stored e he]
  · rw [stored_onEdge, (hg edge).stored, (hf edge).stored]
    simp only [storedAfter, hm, hk]
    by_cases hpartition : q = partition
    · -- the partition is asked now, so the processor has no timeline for it
      have hnone : processor.timelines.lookup q = none := by
        simpa only [hpartition, if_true, or_false, reduceCtorEq] using hq
      have hepoch : k.epoch offset partition = m.epoch offset partition := by
        refine eq_of_forall_le_iff fun v => ?_
        rw [hext.le_epoch_iff, ← hpartition, hnone]
        simp
      rw [hepoch, h.unasked q (.inl hnone)]
    · simp only [hpartition, false_and, if_false] at hq ⊢
      exact h.unasked q hq
  · rw [stored_onEdge, (hg edge).stored, (hf edge).stored]
    simp only [storedAfter, hm, hk]
    by_cases hpartition : q = partition
    · subst hpartition
      rw [if_pos rfl, some.injEq] at ho
      subst ho
      have htime := OffsetTimeline.getEventTime_lt
        (hbelow t (mem_values.mpr ⟨q, ht⟩)) (by decide) offset
      have hle := (hext.le_epoch_iff.mp (le_refl (k.epoch offset q))).2 t ht
      have hne : k.epoch offset q ≠ i64Max := by omega
      have hiff : ∀ v, v ≤ k.epoch offset q ↔ v ≤ m.epoch offset q ∧ v ≤ t.getEventTime offset := by
        intro v
        rw [hext.le_epoch_iff, ht]
        simp
      simp only [true_and, hne, ne_eq, not_false_eq_true, if_true]
      by_cases hmax : m.epoch offset q = i64Max
      · -- without the processor no timeline answers, and the old watermark stays
        obtain ⟨w, hw⟩ := isSome_iff_exists.mp
          (h.isSome_stored.trans ((hg edge).known k hk hne))
        refine ⟨w, _, by simpa only [hmax, not_true_eq_false, if_false] using hw, rfl, fun v _ => ?_⟩
        rw [hiff]
        omega
      · refine ⟨_, _, by rw [if_pos hmax], rfl, fun v hv => ?_⟩
        rw [hiff]
        omega
    · simp only [hpartition, false_and, if_false] at ho ⊢
      exact h.answered q t o ht ho

omit h in
/-- A fetch that removes the processor, with and without putting it back. -/
theorem of_fetch (hf : ∀ e, Fetched offset partition e f f')
    (hprocessor : f.processor edge name = some processor) (hdeleted : processor.isDeleted = true)
    (hhead : processor.headOffset < offset) : Kept edge name processor (fun _ => none) f'
      (f'.onEdge edge fun m => some (m.restore name processor)) := by
  obtain ⟨m, hm, hp⟩ := bind_eq_some_iff.mp hprocessor
  have hm' : f'.processorManagers.lookup edge = some (m.removeStale offset) := by
    rw [(hf edge).managers, hm, map_some]
  have habsent : (m.removeStale offset).processors.lookup name = none := by
    rw [removeStale, lookup_deleteProcessors, if_pos]
    exact mem_processorsToDelete.mpr ⟨processor, hp, hdeleted, hhead⟩
  refine ⟨⟨_, _, hm', ?_, ProcessorManager.Extends.of_restore habsent⟩, fun e he => ?_,
    fun e _ p => stored_onEdge, fun p _ => stored_onEdge, fun p t o _ ho => ?_⟩
  · rw [lookup_onEdge, if_pos rfl, hm']
    rfl
  · rw [lookup_onEdge, if_neg he]
  · cases ho

/-- The watermark without the processor is at most the one with it, when it is at most
what the processor's timelines answered. -/
theorem getWatermark_le_iff (hf : f.Proper) (hg : g.Proper) :
    f.getWatermark ≤ g.getWatermark ↔ ∀ p t o, processor.timelines.lookup p = some t →
      asked p = some o → f.getWatermark ≤ t.getEventTime o := by
  have hself := (le_getWatermark_iff hf).mp (le_refl f.getWatermark)
  rw [le_getWatermark_iff hg]
  constructor
  · rintro ⟨hall, -⟩ p t o ht ho
    obtain ⟨w, w', hw, hw', hiff⟩ := h.answered p t o ht ho
    exact (hiff _ (hself.1 edge p w hw)).mp (hall edge p w' hw')
  · intro hall
    refine ⟨fun e p w' hw' => ?_, fun hnone => hself.2 fun e p => ?_⟩
    · by_cases he : e = edge
      · subst he
        cases ht : processor.timelines.lookup p with
        | none => exact hself.1 e p w' (h.unasked p (.inl ht) ▸ hw')
        | some t =>
          cases ho : asked p with
          | none => exact hself.1 e p w' (h.unasked p (.inr ho) ▸ hw')
          | some o =>
            obtain ⟨w, w₁, hw, hw₁, hiff⟩ := h.answered p t o ht ho
            rw [hw', some.injEq] at hw₁
            subst hw₁
            exact (hiff _ (hself.1 e p w hw)).mpr (hall p t o ht ho)
      · exact hself.1 e p w' (h.stored e he p ▸ hw')
    · by_cases he : e = edge
      · subst he
        rw [← not_isSome_iff_eq_none, h.isSome_stored, hnone e p]
        simp
      · rw [← h.stored e he p]
        exact hnone e p

end Kept

end ISBWatermarkFetcher

namespace FetcherRun

open ISBWatermarkFetcher

instance (s : FetcherRun) : DecidablePred s.Returns
  | .fetch .. => by dsimp only [Returns]; infer_instance
  | .watchPut .. | .watchDelete .. | .watchPurge _ | .refresh .. => isTrue trivial

instance (edge name : String) : DecidablePred (Quiet edge name)
  | .watchPut .. => by dsimp only [Quiet]; infer_instance
  | .fetch .. | .watchDelete .. | .watchPurge _ | .refresh .. => isTrue trivial

variable {s k : FetcherRun} {a : FetcherAction} {processor : Processor}

theorem Returns.exists_fetched (h : s.Returns (.fetch offset partition)) :
    ∃ f' v, s.fetcher.fetchWatermark offset partition = some (f', v) ∧
      ∀ e, Fetched offset partition e s.fetcher f' := by
  obtain ⟨v, hv⟩ := isSome_iff_exists.mp h
  obtain ⟨f', hf'⟩ := returned_eq_some.mp hv
  exact ⟨f', v, hf', (Fetched.of_fetchWatermark hf').1⟩

theorem returned_eq_getWatermark (h : s.returned offset partition = some v) :
    v = (s.step (.fetch offset partition)).fetcher.getWatermark := by
  obtain ⟨f', hf'⟩ := returned_eq_some.mp h
  rw [step_fetch hf']
  exact (Fetched.of_fetchWatermark hf').2

/-- The two runs with what has been asked since the removal. -/
structure Paired (edge name : String) (processor : Processor) (asked : Nat → Option Int)
    (s k : FetcherRun) : Prop where
  kept : Kept edge name processor asked s.fetcher k.fetcher
  proper : s.fetcher.Proper
  keptProper : k.fetcher.Proper

namespace Paired

variable (h : Paired edge name processor asked s k)

include h

theorem keptStep_eq :
    ∃ p, p.timelines = processor.timelines ∧ keptStep edge name k a = { k.step a with
        fetcher := (k.step a).fetcher.onEdge edge fun m => some (m.restore name p) } := by
  obtain ⟨m, k', -, hk', hext⟩ := h.kept.manager
  obtain ⟨p, hp, htimelines⟩ := hext.present
  refine ⟨p, htimelines, ?_⟩
  simp only [keptStep, ISBWatermarkFetcher.processor, hk', bind_some, hp]

variable {actions : List FetcherAction} {o v' : Int}

/-- The same change of an edge in both runs. -/
theorem onEdge (hchange : e = edge → ∀ m m', ProcessorManager.Extends name processor m m' →
      (change m = none ∧ change m' = none) ∨ ∃ n n', change m = some n ∧ change m' = some n' ∧
          ProcessorManager.Extends name processor n n') :
    Paired edge name processor asked { s with fetcher := s.fetcher.onEdge e change }
      { k with
        fetcher := (k.fetcher.onEdge e change).onEdge edge (fun m => some (m.restore name p)) } :=
  ⟨(h.kept.onEdge hchange).restore p, h.proper.onEdge, h.keptProper.onEdge.onEdge⟩

variable (hbelow : ∀ t ∈ values processor.timelines, ∀ w ∈ t.watermarks, w.watermark < i64Max)

include hbelow

theorem step (hquiet : Quiet edge name a) (hreturns : s.Returns a) (hreturns' : k.Returns a) :
    Paired edge name processor (note asked a) (s.step a) (keptStep edge name k a) := by
  obtain ⟨p, hp, heq⟩ := h.keptStep_eq (a := a)
  rw [heq]
  cases a with
  | watchPut e n wmb created =>
    refine h.onEdge fun he m m' hext => ?_
    exact hext.watchPut (fun hn => hquiet ⟨he, hn⟩) wmb created
  | watchDelete e n => exact h.onEdge fun _ m m' hext => .inr ⟨_, _, rfl, rfl, hext.watchDelete n⟩
  | watchPurge | refresh =>
    exact h.onEdge fun _ m m' hext => .inr ⟨_, _, rfl, rfl, hext.setStatuses _⟩
  | fetch =>
    obtain ⟨f', v, hf', hf⟩ := hreturns.exists_fetched
    obtain ⟨g', v', hg', hg⟩ := hreturns'.exists_fetched
    rw [step_fetch hf', step_fetch hg']
    exact ⟨h.kept.fetch hf hg hbelow hp, h.proper.fetch hf, (h.keptProper.fetch hg).onEdge⟩

/-- Along a whole run. -/
theorem exec
    (hquiet : ∀ a ∈ actions, Quiet edge name a) (hreturns : Along Returns FetcherRun.step s actions)
    (hreturns' : Along Returns (keptStep edge name) k actions) :
    Paired edge name processor (actions.foldl note asked) (Lib.exec FetcherRun.step s actions)
      (Lib.exec (keptStep edge name) k actions) := by
  induction actions generalizing s k asked with
  | nil => exact h
  | cons a _ ih =>
    rw [List.forall_mem_cons] at hquiet
    have hnext := h.step hbelow hquiet.1 hreturns.1 hreturns'.1
    exact ih hnext hquiet.2 hreturns.2 hreturns'.2

omit hbelow in
omit h in
/-- The fetch that removes the processor. -/
theorem of_fetch (hreturns : s.Returns (.fetch offset partition))
    (hprocessor : s.fetcher.processor edge name = some processor)
    (hdeleted : processor.isDeleted = true) (hhead : processor.headOffset < offset)
    (hproper : s.fetcher.Proper) :
    Paired edge name processor (fun _ => none) (s.step (.fetch offset partition))
      (keptStep edge name s (.fetch offset partition)) := by
  obtain ⟨f', v, hf', hf⟩ := hreturns.exists_fetched
  simp only [keptStep, hprocessor]
  rw [step_fetch hf']
  exact ⟨Kept.of_fetch hf hprocessor hdeleted hhead, hproper.fetch hf, (hproper.fetch hf).onEdge⟩

/-- What the two runs return for the same fetch. -/
theorem returned_le_iff {p : Nat} (hv : s.returned o p = some v) (hv' : k.returned o p = some v') :
    v ≤ v' ↔ ∀ q t o', processor.timelines.lookup q = some t →
      note asked (.fetch o p) q = some o' → s.fetcher.SeesAtMost o p (t.getEventTime o') := by
  have hnext := h.step (a := .fetch o p) hbelow trivial (isSome_iff_exists.mpr ⟨v, hv⟩)
    (isSome_iff_exists.mpr ⟨v', hv'⟩)
  obtain ⟨p', -, heq⟩ := h.keptStep_eq (a := .fetch o p)
  have hsame : (keptStep edge name k (.fetch o p)).fetcher.getWatermark =
      (k.step (.fetch o p)).fetcher.getWatermark := by
    rw [heq, getWatermark_onEdge]
  rw [returned_eq_getWatermark hv, returned_eq_getWatermark hv', ← hsame,
    hnext.kept.getWatermark_le_iff hnext.proper hnext.keptProper]
  refine forall₃_congr fun q t o' => forall₂_congr fun ht ho => ?_
  obtain ⟨f', w, hf', hf⟩ := Returns.exists_fetched (isSome_iff_exists.mpr ⟨v, hv⟩)
  obtain ⟨w, w', hw, -⟩ := hnext.kept.answered q t o' ht ho
  have hproper := hnext.proper
  rw [step_fetch hf'] at hproper hw ⊢
  exact ISBWatermarkFetcher.getWatermark_le_iff hf hproper ⟨edge, q, w, hw⟩
    (OffsetTimeline.getEventTime_lt (hbelow t (mem_values.mpr ⟨q, ht⟩)) (by decide) o')

end Paired

/-- The removal of a deleted processor does not advance the watermark of a later fetch
exactly when, for each answer of the processor's timelines to the offsets asked last since the
removal, the fetch sees a watermark that is not larger. -/
theorem returned_le_kept_iff (s : FetcherRun) (edge name : String) (processor : Processor)
    (offset o : Int) (partition p : Nat) (actions : List FetcherAction) {v' : Int}
    (hprocessor : s.fetcher.processor edge name = some processor)
    (hdeleted : processor.isDeleted = true) (hhead : processor.headOffset < offset)
    (hproper : s.fetcher.Proper)
    (hbelow : ∀ t ∈ HashMap.values processor.timelines, ∀ w ∈ t.watermarks, w.watermark < i64Max)
    (hquiet : ∀ a ∈ actions, Quiet edge name a)
    (hreturns : Along Returns step s (.fetch offset partition :: actions))
    (hreturns' : Along Returns (keptStep edge name) s (.fetch offset partition :: actions))
    (hv : (exec step s (.fetch offset partition :: actions)).returned o p = some v)
    (hv' : (exec (keptStep edge name) s (.fetch offset partition :: actions)).returned o p =
      some v') :
    v ≤ v' ↔ ∀ q t o', processor.timelines.lookup q = some t →
      lastAsked (actions ++ [.fetch o p]) q = some o' →
        (exec step s (.fetch offset partition :: actions)).fetcher.SeesAtMost o p
          (t.getEventTime o') := by
  have hstart := Paired.of_fetch hreturns.1 hprocessor hdeleted hhead hproper
  have hend := hstart.exec hbelow hquiet hreturns.2 hreturns'.2
  rw [hend.returned_le_iff hbelow hv hv', lastAsked, List.foldl_append]
  rfl

/-- Two processors publish for two partitions; then the first one is deleted. -/
def deletedProcessor : FetcherRun :=
  exec step
    (init (AList.singleton "in" ⟨[0, 1], .mapUDF, 0,
      ((∅ : HashMap String Processor).insert "in-0" (Processor.new "in-0" .active [0, 1] 0)).insert
        "in-1" (Processor.new "in-1" .active [0, 1] 0)⟩) [inConfig])
    [.watchPut "in" "in-0" ⟨false, 3, 100, 0, some 2⟩ 0,
      .watchPut "in" "in-0" ⟨false, 1, 40, 1, some 2⟩ 0,
      .watchPut "in" "in-0" ⟨false, 10, 50, 1, some 2⟩ 0,
      .watchPut "in" "in-1" ⟨false, 15, 300, 0, some 2⟩ 0,
      .watchPut "in" "in-1" ⟨false, 2, 400, 1, some 2⟩ 0,
      .watchDelete "in" "in-0"]

/-- The deleted processor after a first fetch of partition 1. -/
def staleProcessor : Processor :=
  ((deletedProcessor.step (.fetch 8 1)).fetcher.processor "in" "in-0").get (by decide)

theorem deletedProcessor_proper : (deletedProcessor.step (.fetch 8 1)).fetcher.Proper := by
  intro edge p w hw
  have hmem := mem_stored_values.mpr ⟨edge, p, hw⟩
  have hall : ∀ w ∈ (values
      (deletedProcessor.step (.fetch 8 1)).fetcher.lastProcessedWm).flatMap values,
      w < i64Max := by decide
  exact hall w hmem

/-- After both partitions were asked the removal goes unnoticed by partition 0. -/
theorem deletedProcessor_returned_le :
    (exec step (deletedProcessor.step (.fetch 8 1)) [.fetch 20 0]).returned 21 0 = some 40 ∧
      (exec (keptStep "in" "in-0") (deletedProcessor.step (.fetch 8 1)) [.fetch 20 0]).returned
        21 0 = some 40 ∧
      ∀ q t o, staleProcessor.timelines.lookup q = some t → lastAsked [.fetch 21 0] q = some o →
        (exec step (deletedProcessor.step (.fetch 8 1)) [.fetch 20 0]).fetcher.SeesAtMost 21 0
          (t.getEventTime o) :=
  ⟨by decide, by decide,
    (returned_le_kept_iff _ "in" "in-0" staleProcessor 20 21 0 0
      [] (some_get _).symm (by decide) (by decide) deletedProcessor_proper (by decide)
      (by decide) (by decide) (by decide) (by decide) (by decide)).mp (le_refl 40)⟩

/-- Partition 0 asks for an offset beyond all heads of the deleted processor, which is then
missing when partition 1 asks for an offset that the processor has published beyond. -/
theorem deletedProcessor_advances :
    ((deletedProcessor.fetcher.processor "in" "in-0").map Processor.headOffset = some 10 ∧
        ((deletedProcessor.step (.fetch 20 0)).fetcher.processor "in" "in-0").isNone = true) ∧
      (((deletedProcessor.fetcher.processor "in" "in-0").bind fun processor =>
        processor.timelines.lookup 1).map OffsetTimeline.getHeadOffset = some 10) ∧
      (exec step deletedProcessor [.fetch 20 0]).returned 8 1 = some 100 ∧
      (exec (keptStep "in" "in-0") deletedProcessor [.fetch 20 0]).returned 8 1 = some 40 := by
  decide

end FetcherRun
end Numaflow.Watermark
