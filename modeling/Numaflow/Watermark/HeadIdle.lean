import Numaflow.Watermark.Fetcher

/-!
# Idle heads

A vertex without messages asks for the earliest idle message at the heads of the
timelines.  The fetcher goes through the edges, stores the earliest head of each one, and
gives up at the first edge with an active processor that is not idle.

Main results: `refused_unchanged_iff`.
-/

namespace Numaflow.Watermark

open Lib HashMap Option

/-- The head of the timeline for the partition, if it is idle. -/
def Processor.idleHead (processor : Processor) (partition : Nat) : Option Wmb :=
  ((processor.timelines.lookup partition).bind fun t => t.watermarks.head?).filter (·.idle)

/-- The message with the smaller watermark, of equal ones the one seen before. -/
def minWmb : Option Wmb → Wmb → Wmb
  | none, wmb => wmb
  | some current, wmb => if wmb.watermark < current.watermark then wmb else current

variable {partition : Nat}

namespace ProcessorManager

section

variable (m : ProcessorManager)

def activeProcessors : List Processor :=
  (values m.processors).filter Processor.isActive

/-- The earliest idle head, unless a processor is not idle. -/
def edgeMinWmb (partition : Nat) : Option (Option Wmb) :=
  m.activeProcessors.foldlM (fun current processor =>
    (processor.idleHead partition).map fun wmb => some (minWmb current wmb)) none

/-- An active processor is not idle. -/
def Refuses (partition : Nat) : Prop :=
  ∃ processor ∈ m.activeProcessors, processor.idleHead partition = none
deriving Decidable

/-- The smallest watermark of the idle heads. -/
def idleWatermark (partition : Nat) : Option Int :=
  ((m.activeProcessors.filterMap (·.idleHead partition)).map Wmb.watermark).min?

theorem min?_minWmb (current : Option Wmb) (wmb : Wmb) (rest : List Int) :
    ((minWmb current wmb).watermark :: rest).min? =
      (current.toList.map Wmb.watermark ++ wmb.watermark :: rest).min? := by
  cases current with
  | none => rfl
  | some current =>
    have hmin : (minWmb (some current) wmb).watermark = min current.watermark wmb.watermark := by
      simp only [minWmb]
      split_ifs <;> omega
    rw [hmin, toList_some, List.map_singleton, List.singleton_append, List.min?_cons',
      List.min?_cons', List.foldl_cons]

theorem foldlM_minWmb (processors : List Processor) (current : Option Wmb) :
    match processors.foldlM (fun current processor =>
      (processor.idleHead partition).map fun wmb => some (minWmb current wmb)) current with
    | none => ∃ processor ∈ processors, processor.idleHead partition = none
    | some least => (¬∃ processor ∈ processors, processor.idleHead partition = none) ∧
      least.map Wmb.watermark = (current.toList.map Wmb.watermark ++
        (processors.filterMap (·.idleHead partition)).map Wmb.watermark).min? := by
  induction processors generalizing current with
  | nil => cases current <;> simp
  | cons processor _ ih =>
    cases hhead : processor.idleHead partition with
    | none => simp [hhead]
    | some wmb =>
      have hrest := ih (some (minWmb current wmb))
      rw [toList_some, List.map_singleton, List.singleton_append, min?_minWmb] at hrest
      simpa [hhead] using hrest

theorem edgeMinWmb_spec (partition : Nat) : match m.edgeMinWmb partition with
    | none => m.Refuses partition
    | some least => ¬m.Refuses partition ∧ least.map Wmb.watermark = m.idleWatermark partition :=
  foldlM_minWmb m.activeProcessors none

end

end ProcessorManager

namespace ISBWatermarkFetcher

/-- The loop over the edges, with the earliest message so far. -/
def headIdleLoop (partition : Nat) :
    List (Σ _ : String, ProcessorManager) → ISBWatermarkFetcher → Option Wmb →
      Option (ISBWatermarkFetcher × Option Wmb)
  | [], f, current => some (f, current)
  | ⟨edge, m⟩ :: edges, f, current =>
    match m.edgeMinWmb partition with
    -- what was stored for the edges before stays
    | none => some (f, none)
    | some none => headIdleLoop partition edges f current
    | some (some wmb) =>
      (f.setLastProcessed edge partition wmb.watermark).bind fun f' =>
        headIdleLoop partition edges f' (some (minWmb current wmb))

section

variable (f : ISBWatermarkFetcher) (partition : Nat)

/-- The earliest idle head, if all active processors are idle. -/
def fetchHeadIdleWmb :
    Option (ISBWatermarkFetcher × Option Wmb) :=
  headIdleLoop partition f.processorManagers.entries f none

/-- The fetcher knows the edges that have idle heads. -/
def Knows
    (edges : List (Σ _ : String, ProcessorManager)) : Prop :=
  ∀ e ∈ edges, ∀ w, e.2.idleWatermark partition = some w →
    (f.stored e.1 partition).isSome = true

/-- The edges that have idle heads have stored the smallest watermark of them. -/
def Stores
    (edges : List (Σ _ : String, ProcessorManager)) : Prop :=
  ∀ e ∈ edges, ∀ w, e.2.idleWatermark partition = some w → f.stored e.1 partition = some w

/-- The edges before the first one that refuses have stored the smallest watermarks already.
The code stops at an edge that it does not know. -/
def Settled : Prop :=
  ∀ before edge m after, f.processorManagers.entries = before ++ ⟨edge, m⟩ :: after →
    m.Refuses partition → (∀ e ∈ before, ¬e.2.Refuses partition) → f.Knows partition before →
    f.Stores partition before

end

/-! ## Fetchers with the same stored watermarks -/

variable {edge : String}

theorem exists_setLastProcessed {f : ISBWatermarkFetcher}
    (h : (f.stored edge partition).isSome = true) (epoch : Int) :
    ∃ f', f.setLastProcessed edge partition epoch = some f' := by
  obtain ⟨w, hw⟩ := isSome_iff_exists.mp h
  obtain ⟨processed, hprocessed, hlookup⟩ := bind_eq_some_iff.mp hw
  have hmem := AList.lookup_isSome.mp (by rw [hlookup]; rfl)
  simp [setLastProcessed, hprocessed, hmem]

/-- The same edges and the same stored watermarks, in any order. -/
structure Alike (f g : ISBWatermarkFetcher) : Prop where
  managers : f.processorManagers = g.processorManagers
  stored : ∀ edge p, f.stored edge p = g.stored edge p

namespace Alike

variable {f g : ISBWatermarkFetcher} (h : Alike f g)

include h

theorem symm : Alike g f :=
  ⟨h.managers.symm, fun edge p => (h.stored edge p).symm⟩

theorem getWatermark : f.getWatermark = g.getWatermark := by
  have hmin : ((values f.lastProcessedWm).flatMap values).foldl min i64Max =
      ((values g.lastProcessedWm).flatMap values).foldl min i64Max := by
    refine eq_of_forall_le_iff fun v => ?_
    simp only [le_foldl_min, mem_stored_values, h.stored]
  simp only [ISBWatermarkFetcher.getWatermark, hmin]

variable {epoch offset v : Int} {f' : ISBWatermarkFetcher}

theorem setLastProcessed (hf : f.setLastProcessed edge partition epoch = some f') :
    ∃ g', g.setLastProcessed edge partition epoch = some g' ∧ Alike f' g' := by
  obtain ⟨hmanagers, hsome, hstored⟩ := stored_setLastProcessed hf
  rw [h.stored] at hsome
  obtain ⟨g', hg'⟩ := exists_setLastProcessed hsome epoch
  obtain ⟨hmanagers', -, hstored'⟩ := stored_setLastProcessed hg'
  refine ⟨g', hg', hmanagers.trans (h.managers.trans hmanagers'.symm), fun e p => ?_⟩
  rw [hstored, hstored', h.stored]

theorem fetchEdge (hf : fetchEdge offset partition f edge = some f') :
    ∃ g', ISBWatermarkFetcher.fetchEdge offset partition g edge = some g' ∧ Alike f' g' := by
  unfold ISBWatermarkFetcher.fetchEdge at hf ⊢
  rw [← h.managers]
  split at hf
  case h_1 =>
    cases hf
    exact ⟨g, rfl, h⟩
  case h_2 m hm =>
    have hnext : Alike { f with processorManagers := f.processorManagers.insert edge (m.removeStale offset) }
        { g with processorManagers := f.processorManagers.insert edge (m.removeStale offset) } :=
      ⟨rfl, h.stored⟩
    split_ifs at hf ⊢ with hepoch
    · exact hnext.setLastProcessed hf
    · cases hf
      exact ⟨_, rfl, hnext⟩

theorem foldlM_fetchEdge {edges : List String}
    (hf : edges.foldlM (ISBWatermarkFetcher.fetchEdge offset partition) f = some f') :
    ∃ g', edges.foldlM (ISBWatermarkFetcher.fetchEdge offset partition) g = some g' ∧
      Alike f' g' := by
  induction edges generalizing f g with
  | nil =>
    cases hf
    exact ⟨g, rfl, h⟩
  | cons _ _ ih =>
    obtain ⟨f₁, hf₁, hrest⟩ := bind_eq_some_iff.mp hf
    obtain ⟨g₁, hg₁, hnext⟩ := h.fetchEdge hf₁
    rw [List.foldlM_cons, hg₁]
    exact ih hnext hrest

theorem fetchWatermark (hv : (f.fetchWatermark offset partition).map Prod.snd = some v) :
    (g.fetchWatermark offset partition).map Prod.snd = some v := by
  rw [ISBWatermarkFetcher.fetchWatermark, map_map, map_eq_some_iff] at hv ⊢
  obtain ⟨f', hf', rfl⟩ := hv
  obtain ⟨g', hg', halike⟩ := h.foldlM_fetchEdge hf'
  exact ⟨g', h.managers ▸ hg', halike.getWatermark.symm⟩

end Alike

/-! ## The loop -/

variable {f f' f₁ : ISBWatermarkFetcher} {e : Σ _ : String, ProcessorManager}
  {edges before after : List (Σ _ : String, ProcessorManager)}

/-- What edges that do not refuse leave behind. -/
structure Marked (partition : Nat) (edges : List (Σ _ : String, ProcessorManager))
    (f f' : ISBWatermarkFetcher) : Prop where
  managers : f'.processorManagers = f.processorManagers
  knows : f.Knows partition edges
  stores : f'.Stores partition edges
  others : ∀ edge p, (∀ e ∈ edges, ∀ w, e.2.idleWatermark partition = some w →
    ¬(edge = e.1 ∧ p = partition)) → f'.stored edge p = f.stored edge p

theorem Marked.cons (h : Marked partition [e] f f₁) (h' : Marked partition edges f₁ f')
    (hne : ∀ e' ∈ edges, e'.1 ≠ e.1) : Marked partition (e :: edges) f f' := by
  have hsame : ∀ e' ∈ edges, f₁.stored e'.1 partition = f.stored e'.1 partition :=
    fun e' he' => h.others _ _ fun e₁ he₁ _ _ heq =>
      hne e' he' (heq.1.trans (by rw [List.mem_singleton.mp he₁]))
  refine ⟨h'.managers.trans h.managers, ?_, ?_, fun edge p hout => ?_⟩
  · refine List.forall_mem_cons.mpr ⟨h.knows e List.mem_cons_self, fun e' he' w hw => ?_⟩
    exact hsame e' he' ▸ h'.knows e' he' w hw
  · refine List.forall_mem_cons.mpr ⟨fun w hw => ?_, h'.stores⟩
    rw [h'.others _ _ fun e' he' _ _ heq => hne e' he' heq.1.symm]
    exact h.stores e List.mem_cons_self w hw
  · rw [List.forall_mem_cons] at hout
    rw [h'.others _ _ hout.2, h.others _ _ (List.forall_mem_singleton.mpr hout.1)]

/-- An edge that does not refuse. -/
theorem headIdleLoop_cons (he : ¬e.2.Refuses partition) (f : ISBWatermarkFetcher)
    (current : Option Wmb) :
    (headIdleLoop partition (e :: edges) f current = none ∧ ¬f.Knows partition [e]) ∨
      ∃ f₁ current₁, headIdleLoop partition (e :: edges) f current =
        headIdleLoop partition edges f₁ current₁ ∧ Marked partition [e] f f₁ ∧
        (current₁ = none → current = none ∧ f₁ = f) := by
  have hspec := e.2.edgeMinWmb_spec partition
  rw [headIdleLoop]
  cases hleast : e.2.edgeMinWmb partition with
  | none =>
    rw [hleast] at hspec
    exact absurd hspec he
  | some least =>
    rw [hleast] at hspec
    cases least with
    | none =>
      have hidle : ∀ w, e.2.idleWatermark partition ≠ some w := by simp [← hspec.2]
      exact .inr ⟨f, current, rfl, ⟨rfl, by simp [Knows, hidle], by simp [Stores, hidle],
        fun _ _ _ => rfl⟩, fun h => ⟨h, rfl⟩⟩
    | some wmb =>
      have hidle := hspec.2.symm
      cases hset : f.setLastProcessed e.1 partition wmb.watermark with
      | none =>
        refine .inl ⟨by simp only [hset, bind_none], fun hknows => ?_⟩
        obtain ⟨f', hf'⟩ := exists_setLastProcessed (hknows e List.mem_cons_self _ hidle) wmb.watermark
        rw [hset] at hf'
        cases hf'
      | some f₁ =>
        obtain ⟨hmanagers, hsome, hstored⟩ := stored_setLastProcessed hset
        refine .inr ⟨f₁, some (minWmb current wmb), by simp only [hset, bind_some],
          ⟨hmanagers, by simp [Knows, hsome], ?_, fun edge p hout => ?_⟩, fun h => by cases h⟩
        · simp [Stores, hidle, hstored]
        · rw [hstored, if_neg (hout e List.mem_cons_self _ hidle)]

variable {current : Option Wmb} {m : ProcessorManager}

/-- Without an edge that refuses nothing is returned only if nothing is idle. -/
theorem headIdleLoop_unrefused (hedges : ∀ e ∈ edges, ¬e.2.Refuses partition)
    (h : headIdleLoop partition edges f current = some (f', none)) : current = none ∧ f' = f := by
  induction edges generalizing f current with
  | nil =>
    cases h
    exact ⟨rfl, rfl⟩
  | cons e _ ih =>
    rw [List.forall_mem_cons] at hedges
    rcases headIdleLoop_cons hedges.1 f current with ⟨hnone, -⟩ | ⟨f₁, current₁, heq, -, hfirst⟩
    · rw [hnone] at h
      cases h
    · obtain ⟨hcurrent, rfl⟩ := ih hedges.2 (heq ▸ h)
      exact hfirst hcurrent

/-- The loop ends at the first edge that refuses. -/
theorem headIdleLoop_refused (hnodup : (before.map Sigma.fst).Nodup)
    (hbefore : ∀ e ∈ before, ¬e.2.Refuses partition) (hm : m.Refuses partition)
    (f : ISBWatermarkFetcher) (current : Option Wmb) :
    (headIdleLoop partition (before ++ ⟨edge, m⟩ :: after) f current = none ∧
        ¬f.Knows partition before) ∨
      ∃ f', headIdleLoop partition (before ++ ⟨edge, m⟩ :: after) f current = some (f', none) ∧
        Marked partition before f f' := by
  induction before generalizing f current with
  | nil =>
    have hspec := m.edgeMinWmb_spec partition
    rw [List.nil_append, headIdleLoop]
    split at hspec
    case h_1 heq =>
      rw [heq]
      exact .inr ⟨f, rfl, rfl, by simp [Knows], by simp [Stores], fun _ _ _ => rfl⟩
    case h_2 => exact absurd hm hspec.1
  | cons e before ih =>
    rw [List.map_cons, List.nodup_cons] at hnodup
    rw [List.forall_mem_cons] at hbefore
    have hne : ∀ e' ∈ before, e'.1 ≠ e.1 := fun e' he' heq =>
      hnodup.1 (heq ▸ List.mem_map_of_mem he')
    rw [List.cons_append]
    rcases headIdleLoop_cons hbefore.1 f current with ⟨hnone, hknows⟩ | ⟨f₁, c₁, heq, hmarked, -⟩
    · exact .inl ⟨hnone, fun h => hknows (by simpa [Knows] using h e List.mem_cons_self)⟩
    · rw [heq]
      rcases ih hnodup.2 hbefore.2 f₁ c₁ with ⟨hnone, hknows⟩ | ⟨f', hf', hmarked'⟩
      · refine .inl ⟨hnone, fun h => hknows fun e' he' w hw => ?_⟩
        rw [hmarked.others _ _ fun e₁ he₁ _ _ heq => hne e' he' (by
          rw [heq.1, List.mem_singleton.mp he₁])]
        exact h e' (List.mem_cons_of_mem _ he') w hw
      · exact .inr ⟨f', hf', hmarked.cons hmarked' hne⟩

/-- A refused fetch leaves what is stored, and with it every later fetch, exactly when the
edges before the one that refuses have stored the smallest watermarks of their idle heads. -/
theorem refused_unchanged_iff (f : ISBWatermarkFetcher) (partition : Nat) :
    (∀ f', f.fetchHeadIdleWmb partition = some (f', none) →
      (∀ edge p, f'.stored edge p = f.stored edge p) ∧
        ∀ offset p, (f'.fetchWatermark offset p).map Prod.snd =
          (f.fetchWatermark offset p).map Prod.snd) ↔ f.Settled partition := by
  have hnodup : ∀ before rest, f.processorManagers.entries = before ++ rest →
      (before.map Sigma.fst).Nodup := fun before rest hentries => by
    have hkeys : (f.processorManagers.entries.map Sigma.fst).Nodup := f.processorManagers.nodupKeys
    rw [hentries, List.map_append] at hkeys
    exact hkeys.of_append_left
  constructor
  · intro h before edge m after hentries hm hbefore hknows e he w hw
    rcases headIdleLoop_refused (hnodup _ _ hentries) hbefore hm f none with
      ⟨-, hunknown⟩ | ⟨f', hf', hmarked⟩
    · exact absurd hknows hunknown
    · rw [← hentries] at hf'
      rw [← (h f' hf').1]
      exact hmarked.stores e he w hw
  · intro hsettled f' hf'
    have halike : Alike f' f := by
      cases hfind : f.processorManagers.entries.find? fun e => e.2.Refuses partition with
      | none =>
        obtain ⟨-, rfl⟩ := headIdleLoop_unrefused (by simpa using hfind) hf'
        exact ⟨rfl, fun _ _ => rfl⟩
      | some e =>
        obtain ⟨hm, before, after, hentries, hbefore⟩ := List.find?_eq_some_iff_append.mp hfind
        simp only [decide_eq_true_eq, Bool.not_eq_true', decide_eq_false_iff_not] at hm hbefore
        rw [fetchHeadIdleWmb, hentries] at hf'
        obtain ⟨hnone, -⟩ | ⟨g, hg, hmarked⟩ :=
          headIdleLoop_refused (hnodup _ _ hentries) hbefore hm f none
        · rw [hnone] at hf'
          cases hf'
        · cases hg.symm.trans hf'
          have hstores := hsettled _ _ _ _ hentries hm hbefore hmarked.knows
          refine ⟨hmarked.managers, fun edge p => ?_⟩
          by_cases hin : ∃ e ∈ before, ∃ w, e.2.idleWatermark partition = some w ∧
              edge = e.1 ∧ p = partition
          · obtain ⟨e, he, w, hw, rfl, rfl⟩ := hin
            rw [hmarked.stores e he w hw, hstores e he w hw]
          · exact hmarked.others _ _ fun e he w hw heq => hin ⟨e, he, w, hw, heq⟩
    exact ⟨halike.stored, fun offset p => ext fun v =>
      ⟨halike.fetchWatermark, halike.symm.fetchWatermark⟩⟩

/-- A processor of two partitions with the given heads. -/
def headsAt (name : String) (head head' : Wmb) : ProcessorManager :=
  ⟨[0, 1], .mapUDF, 0, AList.singleton name ⟨name, .active,
    (AList.singleton 0 ⟨1, [head]⟩).insert 1 ⟨1, [head']⟩, 0⟩⟩

/-- An idle edge in front of one that is not idle. -/
def idleThenBusy : ISBWatermarkFetcher where
  processorManagers :=
    (AList.singleton "busy" (headsAt "busy-0" ⟨false, 3, 90, 0, none⟩ ⟨false, 3, 90, 1, none⟩)).insert
      "idle" (headsAt "idle-0" ⟨true, 5, 80, 0, none⟩ ⟨false, 4, 70, 1, none⟩)
  lastProcessedWm :=
    (AList.singleton "busy" ((AList.singleton 0 90).insert 1 90)).insert "idle"
      ((AList.singleton 0 60).insert 1 70)

/-- The busy edge refuses, but the idle one has stored its head, and a later fetch for the other
partition returns more than without the refused fetch. -/
theorem idleThenBusy_changed : ∃ f', idleThenBusy.fetchHeadIdleWmb 0 = some (f', none) ∧
      idleThenBusy.stored "idle" 0 = some 60 ∧ f'.stored "idle" 0 = some 80 ∧
      (idleThenBusy.fetchWatermark 9 1).map Prod.snd = some 60 ∧
      (f'.fetchWatermark 9 1).map Prod.snd = some 70 :=
  ⟨_, rfl, by decide⟩

end ISBWatermarkFetcher
end Numaflow.Watermark
