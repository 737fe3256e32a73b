import Numaflow.Reduce.Wal.Conservation

/-!
# When a GC segment may be deleted

A GC segment is deleted when the newest data segment was created after the successor of
the GC segment.  Then all records written before an event of the segment were in frozen
segments when the cycle started, and the cycle, which has read the event, drops those
that the event covers.

This leaves out the records on their way to a compaction segment.  When the cycle lists
the compaction log, a covered record may still be in the channel or in the file of the
compaction writer; the cycle does not see it, and the event that covers it is deleted.

Main results: `Gated.delete`, `dropsCovered_exec`.
-/

namespace Numaflow.Wal

open Lib CyclePhase SegmentLog CompactionRequest List

variable {cycle : Cycle} {t g successor : Nat} {newestDataMicros : Option Nat}

namespace CyclePhase

/-- The create time of the newest data segment when the cycle started. -/
def newest? : CyclePhase → Option Nat
  | .started newestDataMicros => newestDataMicros
  | phase => phase.cycle?.bind Cycle.newestDataMicros

/-- The GC segments the cycle has read. -/
def scannedFiles (phase : CyclePhase) : List Nat :=
  (phase.cycle?.map Cycle.scannedFiles).getD []

/-- The GC segments the cycle has still to look at. -/
def gcFiles : CyclePhase → List Nat
  | .deleting _ _ gcFiles => gcFiles
  | _ => []

/-- All GC segments when the cycle came to delete them. -/
def allGcSorted : CyclePhase → List Nat
  | .deleting _ allGcSorted _ => allGcSorted
  | _ => []

/-- The cycle that is about to list the compaction log. -/
def listsCompaction? : CyclePhase → Option Cycle
  | .listing _ .data => none
  | .listing cycle _ => some cycle
  | _ => none

variable {phase : CyclePhase}

theorem listsCompaction_iff :
    cycle ∈ phase.listsCompaction? ↔ ∃ walType ≠ .data, phase = .listing cycle walType := by
  cases phase with
  | listing c walType => cases walType <;> simp [listsCompaction?]
  | _ => simp [listsCompaction?]

theorem exists_cycle (h : t ∈ phase.scannedFiles) :
    ∃ cycle ∈ phase.cycle?, t ∈ cycle.scannedFiles := by
  unfold scannedFiles at h
  cases hcycle : phase.cycle? with
  | none => simp [hcycle] at h
  | some cycle =>
    rw [hcycle] at h
    exact ⟨cycle, rfl, h⟩

variable {compaction compaction' data data' : List DataRecord}

theorem unseen_subset (hcompaction : compaction ⊆ compaction') (hdata : data ⊆ data') :
    phase.unseen compaction data ⊆ phase.unseen compaction' data' := by
  unfold unseen
  split
  · exact hdata
  · exact Subset.refl _
  · exact append_subset.mpr ⟨subset_append_left _ _, subset_append_of_subset_right _ hdata⟩
  · exact Subset.refl _
  · exact append_subset.mpr
      ⟨subset_append_of_subset_left _ hcompaction, subset_append_of_subset_right _ hdata⟩

theorem newest_of_cycle (h : cycle ∈ phase.cycle?) : phase.newest? = cycle.newestDataMicros := by
  cases phase with
  | idle | started | failed => cases h
  | listing | reading | deleting => cases h; rfl

end CyclePhase

/-! ## The order of create times -/

theorem mem_sortFilenames {names : List Nat} : t ∈ sortFilenames names ↔ t ∈ names :=
  mem_insertionSort _

/-- The successor of a segment is a later file. -/
theorem lt_of_successorCreateMicros {names : List Nat} (hnodup : names.Nodup)
    (h : successorCreateMicros (sortFilenames names) g = some successor) :
    successor ∈ names ∧ g < successor := by
  obtain ⟨pos, hpos, hnext⟩ := Option.bind_eq_some_iff.mp h
  obtain ⟨hlt, hget, -⟩ := idxOf?_eq_some_iff.mp hpos
  obtain ⟨hlt', hget'⟩ := List.getElem?_eq_some_iff.mp hnext
  have hsorted : (sortFilenames names).Pairwise (· ≤ ·) := pairwise_insertionSort _ _
  have hdistinct : (sortFilenames names).Nodup := (perm_insertionSort _ names).nodup_iff.mpr hnodup
  have hle := pairwise_iff_getElem.mp hsorted pos (pos + 1) hlt hlt' (Nat.lt_succ_self _)
  have hne := pairwise_iff_getElem.mp hdistinct pos (pos + 1) hlt hlt' (Nat.lt_succ_self _)
  rw [hget] at hle hne
  refine ⟨mem_sortFilenames.mp (hget' ▸ getElem_mem hlt'), ?_⟩
  omega

theorem exists_of_shouldDelete {allGcSorted : List Nat}
    (h : shouldDelete newestDataMicros allGcSorted g = true) :
    ∃ newest successor, newestDataMicros = some newest ∧
      successorCreateMicros allGcSorted g = some successor ∧ successor < newest := by
  unfold shouldDelete at h
  split at h
  · rename_i newest successor hsuccessor
    exact ⟨newest, successor, rfl, hsuccessor, by simpa using h⟩
  · cases h

namespace LogRun

/-! ## The clocks of the logs -/

/-- The records of the data log and of the GC log were written while their file was the
latest one. -/
structure Clocked (s : LogRun) : Prop where
  data : s.data.Timed s.clock
  gc : s.gc.Timed s.clock

variable (kind : WindowKind)

theorem Clocked.init : (init kind).Clocked :=
  ⟨.empty, .empty⟩

variable {s s' : LogRun}

theorem Clocked.effect (h : s.Clocked) (hnamed : s.Named) (heffect : Effect s s') : s'.Clocked := by
  have hdata := h.data.mono (Nat.le_succ _)
  have hgc := h.gc.mono (Nat.le_succ _)
  cases heffect with
  | openData => exact ⟨h.data.openSegment, hgc⟩
  | openGc => exact ⟨hdata, h.gc.openSegment⟩
  | writeMessage => exact ⟨h.data.writeData hnamed.data _, hgc⟩
  | writeGcEvent => exact ⟨hdata, h.gc.writeData hnamed.gc _⟩
  | flush walType =>
    cases walType with
    | data => exact ⟨h.data.flush, h.gc⟩
    | gc => exact ⟨h.data, h.gc.flush⟩
    | compact => exact ⟨h.data, h.gc⟩
  | rotateData => exact ⟨h.data.rotateFile hnamed.data, hgc⟩
  | rotateGc => exact ⟨hdata, h.gc.rotateFile hnamed.gc⟩
  | rotateCompaction => exact ⟨hdata, hgc⟩
  | @removeFile _ walType =>
    cases walType with
    | data => exact ⟨h.data.removeFile _, h.gc⟩
    | gc | compact => exact ⟨h.data, h.gc⟩
  | deleteFile => exact ⟨h.data, h.gc.removeFile _⟩
  | restart =>
    exact ⟨(h.data.stop hnamed.data).mono (Nat.le_succ _),
      (h.gc.stop hnamed.gc).mono (Nat.le_succ _)⟩
  | _ => exact ⟨h.data, h.gc⟩

/-! ## What a cycle knows -/

/-- No record that was in the data writer's file when the cycle started, or was written
later, is older than the newest data segment was then; the scanned GC segments hold the
events the cycle has read; and their records are older than their successors. -/
structure Scanned (s : LogRun) : Prop where
  newest : ∀ n ∈ s.phase.newest?, n < s.clock ∧ ∀ c ∈ s.data.current, n ≤ c
  older : ∀ cycle ∈ s.phase.cycle?, s.gc.Older s.clock cycle.scannedFiles
  events : ∀ cycle ∈ s.phase.cycle?, ∀ file ∈ s.gc.files,
    file.createTime ∈ cycle.scannedFiles → ∀ r ∈ file.records, r.value ∈ cycle.gcEvents
  subset : s.phase.gcFiles ⊆ s.phase.scannedFiles
  successor : ∀ file ∈ s.gc.files, file.createTime ∈ s.phase.gcFiles → ∀ next,
    successorCreateMicros s.phase.allGcSorted file.createTime = some next →
      ∀ r ∈ file.records, r.time < next

variable {walType : WalType} {pending : Option Pending} {entries unread : List SegmentEntry}
  {r : DataRecord} {a : LogAction} {event : GcRecord}

namespace Scanned

theorem init : (init kind).Scanned := by
  constructor <;> simp [LogRun.init, newest?, cycle?, gcFiles]

variable (h : s.Scanned)

include h

/-- The data writer takes steps. -/
theorem of_data (hphase : s'.phase = s.phase) (hgc : s'.gc = s.gc) (hclock : s.clock ≤ s'.clock)
    (hcurrent : ∀ c ∈ s'.data.current, c ∈ s.data.current ∨ c = s.clock) : s'.Scanned := by
  refine ⟨fun n hn => ?_, fun cycle hcycle => ?_, ?_, ?_, ?_⟩
  · obtain ⟨hlt, hle⟩ := h.newest n (hphase ▸ hn)
    refine ⟨Nat.lt_of_lt_of_le hlt hclock, fun c hc => ?_⟩
    rcases hcurrent c hc with hold | hnew
    · exact hle c hold
    · omega
  · rw [hgc]
    exact (h.older cycle (hphase ▸ hcycle)).congr hclock fun c hc => .inl hc
  · rw [hphase, hgc]
    exact h.events
  · rw [hphase]
    exact h.subset
  · rw [hphase, hgc]
    exact h.successor

/-- The GC writer takes a step: a segment it freezes is not one of those scanned. -/
theorem of_gc (hphase : s'.phase = s.phase) (hdata : s'.data = s.data) (hclock : s.clock ≤ s'.clock)
    (hcurrent : ∀ c ∈ s'.gc.current, c ∈ s.gc.current ∨ c = s.clock)
    (hfiles : ∀ file ∈ s'.gc.files, file ∈ s.gc.files ∨ file.createTime ∈ s.gc.current) :
    s'.Scanned := by
  have hold : ∀ cycle ∈ s.phase.cycle?, ∀ file ∈ s'.gc.files,
      file.createTime ∈ cycle.scannedFiles → file ∈ s.gc.files := by
    intro cycle hcycle file hfile hscanned
    rcases hfiles file hfile with hfile | hnew
    · exact hfile
    · exact absurd hscanned ((h.older cycle hcycle).not_mem _ hnew)
  refine ⟨fun n hn => ?_, fun cycle hcycle => ?_, ?_, ?_, ?_⟩
  · rw [hdata]
    obtain ⟨hlt, hle⟩ := h.newest n (hphase ▸ hn)
    exact ⟨Nat.lt_of_lt_of_le hlt hclock, hle⟩
  · exact (h.older cycle (hphase ▸ hcycle)).congr hclock hcurrent
  · rw [hphase]
    intro cycle hcycle file hfile hscanned
    exact h.events cycle hcycle file (hold cycle hcycle file hfile hscanned) hscanned
  · rw [hphase]
    exact h.subset
  · rw [hphase]
    intro file hfile hmem
    have hscanned := h.subset hmem
    obtain ⟨cycle, hcycle, hmem'⟩ := exists_cycle hscanned
    exact h.successor file (hold cycle hcycle file hfile hmem') hmem

/-- The cycle goes on, and looks at no GC segment. -/
theorem of_cycle (hcurrent : s'.data.current = s.data.current)
    (hgc : s'.gc = s.gc) (hclock : s'.clock = s.clock)
    (hnewest : ∀ n ∈ s'.phase.newest?, n ∈ s.phase.newest?)
    (hcycle : ∀ cycle ∈ s'.phase.cycle?, cycle ∈ s.phase.cycle?)
    (hgcFiles : s'.phase.gcFiles = []) : s'.Scanned := by
  refine ⟨fun n hn => ?_, fun cycle hc => ?_, fun cycle hc => ?_, ?_, ?_⟩
  · rw [hclock, hcurrent]
    exact h.newest n (hnewest n hn)
  · rw [hgc, hclock]
    exact h.older cycle (hcycle cycle hc)
  · rw [hgc]
    exact h.events cycle (hcycle cycle hc)
  · simp [hgcFiles]
  · simp [hgcFiles]

/-- The cycle is done with a GC segment. -/
theorem of_deleting {allGcSorted gcFiles : List Nat}
    (hphase : s.phase = .deleting cycle allGcSorted (g :: gcFiles))
    (hphase' : s'.phase = .deleting cycle allGcSorted gcFiles) (hdata : s'.data = s.data)
    (hclock : s'.clock = s.clock) (hcurrent : s'.gc.current = s.gc.current)
    (hfiles : ∀ file ∈ s'.gc.files, file ∈ s.gc.files) : s'.Scanned := by
  have hsubset := h.subset
  have hsuccessor := h.successor
  rw [hphase] at hsubset hsuccessor
  have hcycle : ∀ c ∈ s'.phase.cycle?, c ∈ s.phase.cycle? := by
    rw [hphase, hphase']
    exact fun _ => id
  refine ⟨fun n hn => ?_, fun c hc => ?_, fun c hc file hfile => ?_, ?_, fun file hfile hmem => ?_⟩
  · rw [hdata, hclock]
    refine h.newest n ?_
    rw [hphase'] at hn
    rw [hphase]
    exact hn
  · rw [hclock]
    exact (h.older c (hcycle c hc)).congr (Nat.le_refl _) fun t ht => .inl (hcurrent ▸ ht)
  · exact h.events c (hcycle c hc) file (hfiles file hfile)
  · rw [hphase']
    exact fun t ht => hsubset (mem_cons_of_mem _ ht)
  · rw [hphase'] at hmem ⊢
    exact hsuccessor file (hfiles file hfile) (mem_cons_of_mem _ hmem)

omit h in
/-- No cycle runs. -/
theorem of_idle (hnewest : s'.phase.newest? = none) (hcycle : s'.phase.cycle? = none)
    (hgcFiles : s'.phase.gcFiles = []) : s'.Scanned := by
  constructor <;> simp [hnewest, hcycle, hgcFiles]

/-- A cycle reads a log. -/
theorem of_reading (hcycle : s.phase.cycle? = some cycle)
    (hnewest : s.phase.newest? = cycle.newestDataMicros)
    (hphase' : s'.phase = .reading cycle walType pending entries unread)
    (hcurrent : s'.data.current = s.data.current) (hgc : s'.gc = s.gc)
    (hclock : s'.clock = s.clock) : s'.Scanned := by
  refine h.of_cycle hcurrent hgc hclock (fun n hn => ?_) (fun c hc => ?_) (by rw [hphase']; rfl)
  · rw [hphase'] at hn
    rw [hnewest]
    exact hn
  · rw [hphase'] at hc
    rw [hcycle]
    exact hc

variable (hnamed : s.Named)

include hnamed

omit h in
theorem tick : Scanned { s with phase := .started s.newestDataSegmentMicros } := by
  refine ⟨fun n hn => ?_, by simp [cycle?], by simp [cycle?], by simp [gcFiles], by simp [gcFiles]⟩
  have hmax := hn
  have hmem := (max?_eq_some_iff.mp hmax).1
  exact ⟨hnamed.data.below n hmem, fun c hc => hnamed.data.le_current hc hmem⟩

theorem scan {compaction : Compaction}
    (hphase : s.phase = .started newestDataMicros) {cycles : List (List GcEvent)}
    {bootCompaction : Option Compaction} : Scanned { s with
      phase := .listing ⟨newestDataMicros, s.gc.frozen.map Stamped.value, compaction,
        s.gc.files.map SegmentFile.createTime⟩ .compact
      cycles := cycles
      bootCompaction := bootCompaction } := by
  refine ⟨fun n hn => h.newest n ?_, fun cycle hcycle => ?_, fun cycle hcycle file hfile _ r hr => ?_,
    by simp [gcFiles], by simp [gcFiles]⟩
  · rw [hphase]
    exact hn
  · cases hcycle
    exact .of_named hnamed.gc
  · cases hcycle
    exact mem_map_of_mem (Timed.mem_frozen hfile hr)

/-- When the cycle comes to delete GC segments, their records are older than their
successors. -/
theorem finishData (hclocked : s.Clocked)
    (hphase : s.phase = .reading cycle .data none [] []) : Scanned { s with
      phase := .deleting cycle (sortFilenames s.gc.names) cycle.scannedFiles } := by
  have hcycle : cycle ∈ s.phase.cycle? := by rw [hphase]; rfl
  refine ⟨fun n hn => h.newest n ?_, fun c hc => ?_, fun c hc => ?_, fun t ht => ht, ?_⟩
  · rw [hphase]
    exact hn
  · cases hc
    exact h.older cycle hcycle
  · cases hc
    exact h.events cycle hcycle
  · intro file hfile _ next hnext r hr
    obtain ⟨hmem, hlt⟩ := lt_of_successorCreateMicros hnamed.gc.nodup hnext
    exact hclocked.gc.before file hfile r hr next hmem hlt

theorem effect (hclocked : s.Clocked) (heffect : Effect s s') : s'.Scanned := by
  cases heffect with
  | quiet => exact h
  | openData => exact h.of_data rfl rfl (Nat.le_succ _) fun _ hc => mem_current_openSegment hc
  | openGc =>
    refine h.of_gc rfl rfl (Nat.le_succ _) (fun _ hc => mem_current_openSegment hc)
      fun file hfile => .inl ?_
    unfold SegmentLog.openSegment at hfile
    split at hfile <;> exact hfile
  | writeMessage =>
    exact h.of_data rfl rfl (Nat.le_succ _) fun c hc => .inl (by simpa using hc)
  | writeGcEvent =>
    exact h.of_gc rfl rfl (Nat.le_succ _)
      (fun c hc => .inl (s.gc.current_writeData _ ▸ hc)) fun _ hfile => .inl hfile
  | flush walType =>
    cases walType with
    | data => exact h.of_data rfl rfl (Nat.le_refl _) fun c hc => .inl (s.data.current_flush ▸ hc)
    | gc =>
      exact h.of_gc rfl rfl (Nat.le_refl _) (fun c hc => .inl (s.gc.current_flush ▸ hc))
        fun _ hfile => .inl hfile
    | compact => exact h.of_data rfl rfl (Nat.le_refl _) fun c hc => .inl hc
  | rotateData => exact h.of_data rfl rfl (Nat.le_succ _) fun _ hc => mem_current_rotateFile hc
  | rotateGc =>
    refine h.of_gc rfl rfl (Nat.le_succ _) (fun _ hc => mem_current_rotateFile hc)
      fun file hfile => ?_
    rcases s.gc.rotateFile_cases s.clock with hsame | ⟨w, hwriter, hrotate⟩
    · exact .inl (hsame ▸ hfile)
    · simp only [hrotate] at hfile
      refine (mem_append.mp hfile).imp_right fun hnew => ?_
      simp [mem_singleton.mp hnew, SegmentLog.current, hwriter]
  | rotateCompaction =>
    exact h.of_data rfl rfl (Nat.le_succ _) fun c hc => .inl hc
  | handleWrite => exact h.of_data rfl rfl (Nat.le_refl _) fun c hc => .inl hc
  | read hphase | list hphase | replay hphase | keep hphase | drop hphase
  | fileSwitch hphase =>
    exact h.of_reading (by rw [hphase]; rfl) (by rw [hphase]; rfl) rfl rfl rfl rfl
  | tick => exact .tick hnamed
  | scan hphase => exact h.scan hnamed hphase
  | unreadable | fail | finishBoot
  | finishCycle => exact of_idle rfl rfl rfl
  | @removeFile _ walType _ _ _ hphase =>
    cases walType <;> exact h.of_reading (by rw [hphase]; rfl) (by rw [hphase]; rfl) rfl rfl rfl rfl
  | finishCompaction _ hphase =>
    exact h.of_cycle rfl rfl rfl (by rw [hphase]; exact fun _ => id)
      (by rw [hphase]; exact fun _ => id) rfl
  | finishData hphase => exact h.finishData hnamed hclocked hphase
  | deleteFile hphase =>
    exact h.of_deleting hphase rfl rfl rfl rfl fun file hfile => (mem_filter.mp hfile).1
  | keepFile hphase => exact h.of_deleting hphase rfl rfl rfl rfl fun _ => id
  | restart hphase =>
    exact of_idle (by rw [hphase]; rfl) (by rw [hphase]; rfl) (by rw [hphase]; rfl)

end Scanned

/-! ## Where records come from -/

section

variable (heffect : Effect s s')

include heffect

theorem Effect.clock_le : s.clock ≤ s'.clock := by
  rcases heffect.appended_cases with ⟨-, hclock⟩ | ⟨-, -, -, -, hclock⟩
  · exact hclock
  · omega

/-- Dropped records stay dropped. -/
theorem Effect.dropped_sublist : s.droppedRecords.Sublist s'.droppedRecords := by
  refine List.Sublist.map _ ?_
  cases heffect with
  | drop => exact sublist_append_left _ _
  | flush walType | @removeFile _ walType => cases walType <;> exact .refl _
  | _ => exact .refl _

/-- A record that is present was present before, or is written by the step. -/
theorem Effect.mem_present (hbalanced : s.Balanced)
    (hbalanced' : s'.Balanced) (hr : r ∈ s'.present) : r ∈ s.present ∨ s.clock ≤ r.time := by
  have hbefore := hbalanced r
  have hafter := hbalanced' r
  have hdropped := heffect.dropped_sublist.count_le r
  have hpos := count_pos_iff.mpr hr
  rcases heffect.appended_cases with ⟨happended, -⟩ | ⟨msg, record, -, happended, -⟩
  · rw [happended] at hafter
    exact .inl (count_pos_iff.mp (by omega))
  · rw [happended, count_append] at hafter
    by_cases heq : r = ⟨s.clock, record⟩
    · rw [heq]
      exact .inr (Nat.le_refl _)
    · have hzero : count r [(⟨s.clock, record⟩ : DataRecord)] = 0 :=
        count_eq_zero_of_not_mem (by simpa using heq)
      exact .inl (count_pos_iff.mp (by omega))

end

theorem Conserves.not_mem_present (h : s.Conserves) (hr : r ∈ s.droppedRecords) :
    r ∉ s.present := by
  intro hmem
  have honce := h.once r
  have hpresent := count_pos_iff.mpr hmem
  have hdropped := count_pos_iff.mpr hr
  rw [count_append] at honce
  split_ifs at honce
  all_goals omega

/-! ## What a cycle has seen -/

/-- A record that is older than the newest data segment was at the start of the cycle is
kept by the cycle, or the cycle has still to process it. -/
def Seen (s : LogRun) : Prop :=
  ∀ cycle ∈ s.phase.cycle?, s.phase.early = false → ∀ n ∈ cycle.newestDataMicros,
    ∀ r ∈ s.present, r.time < n → cycle.compaction.keeps r.value = true ∨
      r ∈ s.phase.unseen s.compaction.frozen s.data.frozen

/-- No record that the cycle would drop is on its way to a compaction segment. -/
def Drained (s : LogRun) (cycle : Cycle) : Prop :=
  ∀ r ∈ s.sent ++ s.compaction.active, cycle.compaction.keeps r.value = true
deriving Decidable

/-- A cycle lists the compaction log only when no record that it would drop is on its
way to a compaction segment. -/
def Settled (s : LogRun) (a : LogAction) : Prop :=
  a = .advance → ∀ cycle ∈ s.phase.listsCompaction?, s.Drained cycle
deriving Decidable

/-- Only the compactor goes on from listing a log. -/
theorem phase_step_of_listing (hphase : s.phase = .listing cycle walType) (ha : a ≠ .advance) :
    (s.step a).phase = s.phase := by
  cases a with
  | openSegment walType =>
    cases walType with
    | data =>
      simp only [step, openSegment]
      split_ifs <;> rfl
    | gc | compact => rfl
  | writeMessage =>
    simp only [step, writeMessage]
    split <;> rfl
  | writeGcEvent =>
    simp only [step, writeGcEvent]
    split <;> rfl
  | flush walType | rotate walType => cases walType <;> rfl
  | handle =>
    simp only [step, handleMessage]
    split <;> rfl
  | read => simp [step, readEntry, hphase]
  | tick => simp [step, tick, hphase]
  | advance => exact absurd rfl ha
  | restart => simp [step, restart, hphase]

theorem Settled.drained (h : s.Settled a) (hearly : (s.step a).phase.early = false) :
    ∀ cycle ∈ s.phase.listsCompaction?, s.Drained cycle := by
  by_cases ha : a = .advance
  · exact h ha
  · intro cycle hcycle
    obtain ⟨walType, hwal, hphase⟩ := listsCompaction_iff.mp hcycle
    rw [phase_step_of_listing hphase ha, hphase] at hearly
    cases walType with
    | data => exact absurd rfl hwal
    | gc | compact => cases hearly

namespace Seen

theorem init : (init kind).Seen := by
  simp [Seen, LogRun.init, cycle?]

/-- The cycle goes on: it has processed only records that it keeps or that are gone. -/
theorem of_unseen (h : s.Seen) (hscanned : s.Scanned)
    (hpresent : ∀ r ∈ s'.present, r ∈ s.present ∨ s.clock ≤ r.time)
    (hcycle : ∀ cycle ∈ s'.phase.cycle?, cycle ∈ s.phase.cycle?)
    (hearly : s'.phase.early = false → s.phase.early = false)
    (hunseen : ∀ cycle ∈ s.phase.cycle?, ∀ r ∈ s'.present,
      r ∈ s.phase.unseen s.compaction.frozen s.data.frozen → cycle.compaction.keeps r.value = true ∨
          r ∈ s'.phase.unseen s'.compaction.frozen s'.data.frozen) : s'.Seen := by
  intro cycle hc he n hn r hr hlt
  have hc' := hcycle cycle hc
  have hclock := (hscanned.newest n (newest_of_cycle hc' ▸ hn)).1
  rcases hpresent r hr with hold | hfresh
  · rcases h cycle hc' (hearly he) n hn r hold hlt with hkept | hmem
    · exact .inl hkept
    · exact hunseen cycle hc' r hr hmem
  · omega

theorem of_idle (hcycle : s'.phase.cycle? = none) : s'.Seen := by
  simp [Seen, hcycle]

theorem of_early (hearly : s'.phase.early = true) : s'.Seen := by
  simp [Seen, hearly]

variable (hscanned : s.Scanned)

include hscanned

section

variable (hpresent : ∀ r ∈ s'.present, r ∈ s.present ∨ s.clock ≤ r.time)

include hpresent

/-- The writers take steps. -/
theorem of_writers (h : s.Seen)
    (hphase : s'.phase = s.phase) (hdata : s.data.frozen ⊆ s'.data.frozen)
    (hcompaction : s.compaction.frozen ⊆ s'.compaction.frozen) : s'.Seen := by
  refine h.of_unseen hscanned hpresent (hphase ▸ fun _ => id) (hphase ▸ fun he => he)
    fun cycle _ r _ hmem => .inr ?_
  rw [hphase]
  exact unseen_subset hcompaction hdata hmem

variable {pending' : Option Pending} {entries' unread' : List SegmentEntry}

/-- The stream changes while a log is read. -/
theorem of_reading (h : s.Seen) (hphase : s.phase = .reading cycle walType pending entries unread)
    (hphase' : s'.phase = .reading cycle walType pending' entries' unread')
    (hdata : walType ≠ .data → s'.data.frozen = s.data.frozen)
    (hrecords : ∀ r ∈ s'.present, r ∈ s.phase.records →
      cycle.compaction.keeps r.value = true ∨ r ∈ s'.phase.records) : s'.Seen := by
  refine h.of_unseen hscanned hpresent (by rw [hphase, hphase']; exact fun _ => id)
    (by rw [hphase, hphase']; exact fun he => he) fun c hc r hr hmem => ?_
  rw [hphase] at hc hmem
  cases hc
  have hread := hrecords r hr
  rw [hphase, hphase'] at hread
  rw [hphase']
  cases walType with
  | data => exact hread hmem
  | gc | compact =>
    rcases mem_append.mp hmem with hmem | hmem
    · exact (hread hmem).imp_right (mem_append_left _)
    · exact .inr (mem_append_right _ (hdata (by simp) ▸ hmem))

end

/-- The cycle lists the compaction log. -/
theorem list (h : s.Seen) (hclocked : s.Clocked) (hphase : s.phase = .listing cycle walType)
    (hdrained : ∀ c ∈ s.phase.listsCompaction?, s.Drained c)
    (hpresent : ∀ r ∈ s'.present, r ∈ s.present ∨ s.clock ≤ r.time)
    (hphase' : s'.phase = .reading cycle walType none [] (streamingRead (s.log walType)))
    (hdata : s'.data = s.data) : s'.Seen := by
  by_cases hwal : walType = .data
  · subst hwal
    refine h.of_unseen hscanned hpresent (by rw [hphase, hphase']; exact fun _ => id)
      (by rw [hphase]; exact fun _ => rfl) fun c hc r hr hmem => .inr ?_
    rw [hphase] at hmem
    rw [hphase', CyclePhase.unseen, SegmentEntry.records_streamingRead]
    exact hmem
  · intro c hc _ n hn r hr hlt
    rw [hphase'] at hc
    cases hc
    obtain ⟨hclock, hcurrent⟩ := hscanned.newest n (by rw [hphase]; exact hn)
    have hunseen : r ∈ s'.phase.unseen s'.compaction.frozen s'.data.frozen ↔
        r ∈ s.compaction.frozen ∨ r ∈ s.data.frozen := by
      rw [hphase', hdata]
      cases walType with
      | data => exact absurd rfl hwal
      | gc | compact =>
        simp only [CyclePhase.unseen, log, SegmentEntry.records_streamingRead, mem_append]
    rw [hunseen]
    rcases hpresent r hr with hold | hfresh
    · have hdrains := hdrained cycle (CyclePhase.listsCompaction_iff.mpr ⟨walType, hwal, hphase⟩) r
      simp only [present, hphase, CyclePhase.listedData, CyclePhase.listedCompaction,
        CyclePhase.records, unlisted_nil, mem_append, not_mem_nil,
        or_false] at hold hdrains
      rcases hold with (((hactive | hfrozen) | hactive) | hfrozen) | hsent
      · -- the data writer's file is not older than the newest data segment
        obtain ⟨c, hc⟩ := exists_current hactive
        have hafter := hclocked.data.after c hc r hactive
        have hle := hcurrent c hc
        omega
      · exact .inr (.inr hfrozen)
      · exact .inl (hdrains (.inr hactive))
      · exact .inr (.inl hfrozen)
      · exact .inl (hdrains (.inl hsent))
    · omega

theorem effect (h : s.Seen) (hclocked : s.Clocked)
    (hpresent : ∀ r ∈ s'.present, r ∈ s.present ∨ s.clock ≤ r.time)
    (hgone : ∀ r ∈ s'.droppedRecords, r ∉ s'.present)
    (hdrained : s'.phase.early = false → ∀ cycle ∈ s.phase.listsCompaction?, s.Drained cycle)
    (heffect : Effect s s') : s'.Seen := by
  cases heffect with
  | quiet => exact h
  | openData => exact h.of_writers hscanned hpresent rfl (by simp) (Subset.refl _)
  | rotateData =>
    exact h.of_writers hscanned hpresent rfl (by simp [frozen_rotateFile]) (Subset.refl _)
  | rotateCompaction =>
    exact h.of_writers hscanned hpresent rfl (Subset.refl _) (by simp [frozen_rotateFile])
  | flush walType =>
    cases walType <;>
      exact h.of_writers hscanned hpresent rfl (Subset.refl _) (Subset.refl _)
  | read hphase | replay hphase | fileSwitch hphase =>
    refine h.of_reading hscanned hpresent hphase rfl (fun _ => rfl) fun r _ hmem => .inr ?_
    simpa [hphase, records] using hmem
  | tick | unreadable | fail | finishBoot
  | finishCycle => exact of_idle rfl
  | scan => exact of_early rfl
  | list hphase => exact h.list hscanned hclocked hphase (hdrained rfl) hpresent rfl rfl
  | @removeFile _ walType _ _ _ hphase =>
    refine h.of_reading hscanned hpresent hphase rfl (fun hwal => ?_) fun r _ hmem => .inr ?_
    · cases walType with
      | data => exact absurd rfl hwal
      | gc | compact => rfl
    · simpa [hphase, records] using hmem
  | @keep _ _ _ _ _ hphase hretain =>
    refine h.of_reading hscanned hpresent hphase rfl (fun _ => rfl) fun r _ hmem => ?_
    rw [hphase] at hmem
    rcases mem_cons.mp hmem with rfl | hmem
    · exact .inl (by simp [Compaction.keeps, hretain])
    · exact .inr hmem
  | @drop _ _ _ _ _ hphase =>
    refine h.of_reading hscanned hpresent hphase rfl (fun _ => rfl) fun r hr hmem => .inr ?_
    rw [hphase] at hmem
    rcases mem_cons.mp hmem with rfl | hmem
    · exact absurd hr (hgone r (by simp [droppedRecords]))
    · exact hmem
  | @finishCompaction walType _ hwal hphase =>
    refine h.of_unseen hscanned hpresent (by rw [hphase]; exact fun _ => id)
      (by rw [hphase]; exact fun _ => rfl) fun c hc r hr hmem => .inr ?_
    rw [hphase] at hmem
    cases walType with
    | data => exact absurd rfl hwal
    | gc | compact => exact hmem
  | finishData hphase | deleteFile hphase | keepFile hphase =>
    refine h.of_unseen hscanned hpresent (by rw [hphase]; exact fun _ => id)
      (by rw [hphase]; exact fun _ => rfl) fun c hc r hr hmem => .inr ?_
    rw [hphase] at hmem
    exact hmem
  | restart hphase => exact of_idle (by rw [hphase]; rfl)
  | _ => exact h.of_writers hscanned hpresent rfl (Subset.refl _) (Subset.refl _)

end Seen

/-! ## Deleted GC segments -/

/-- The event covers no stored record that was written before it. -/
def Outdated (s : LogRun) (event : GcRecord) : Prop :=
  event.time < s.clock ∧
    ∀ r ∈ s.stored, r.time < event.time → s.kind.covers event.value r.value = false

/-- What is written later is not older than the event. -/
theorem Outdated.effect (h : s.Outdated event) (hnamed : s.Named) (heffect : Effect s s') :
    s'.Outdated event := by
  refine ⟨Nat.lt_of_lt_of_le h.1 heffect.clock_le, fun r hr hlt => ?_⟩
  rw [heffect.kind_eq]
  rcases heffect.mem_stored hnamed hr with hold | hfresh
  · exact h.2 r hold hlt
  · have hpast := h.1
    have hlate := hfresh.2
    omega

/-- The events of the deleted GC segments are outdated. -/
def Purged (s : LogRun) : Prop :=
  ∀ file ∈ s.removed, ∀ event ∈ file.records, s.Outdated event

/-- What holds in every state of a run whose cycles list the compaction log when no
record that they drop is on its way. -/
structure Gated (s : LogRun) : Prop where
  accounted : s.Accounted
  clocked : s.Clocked
  scanned : s.Scanned
  seen : s.Seen
  purged : s.Purged

namespace Gated

theorem init : (init kind).Gated :=
  ⟨accounted_exec kind [], .init kind, .init kind, .init kind, by simp [Purged, LogRun.init]⟩

variable {file : SegmentFile GcEvent}

/-- When the cycle comes to a GC segment that it deletes, it keeps every stored record
that was written before an event of the segment, so the event does not cover it. -/
theorem delete {event : Stamped GcEvent} (h : s.Gated) {allGcSorted gcFiles : List Nat}
    (hphase : s.phase = .deleting cycle allGcSorted (g :: gcFiles))
    (hdelete : shouldDelete cycle.newestDataMicros allGcSorted g = true) (hfile : file ∈ s.gc.files)
    (hname : file.createTime = g) (hevent : event ∈ file.records) (hr : r ∈ s.present)
    (hlt : r.time < event.time) : s.kind.covers event.value r.value = false := by
  have hcycle : cycle ∈ s.phase.cycle? := by rw [hphase]; rfl
  have hmem : file.createTime ∈ s.phase.gcFiles := by
    rw [hphase, hname]
    exact mem_cons_self
  have hscanned : file.createTime ∈ cycle.scannedFiles := by
    have hsubset := h.scanned.subset hmem
    rw [hphase] at hsubset
    exact hsubset
  obtain ⟨newest, successor, hnewest, hsuccessor, hbefore⟩ := exists_of_shouldDelete hdelete
  have hread := h.scanned.successor file hfile hmem successor (by rw [hphase, hname]; exact hsuccessor)
    event hevent
  have hkept : cycle.compaction.keeps r.value = true := by
    rcases h.seen cycle hcycle (by rw [hphase]; rfl) newest hnewest r hr (by omega) with
      hkept | hunseen
    · exact hkept
    · rw [hphase] at hunseen
      cases hunseen
  obtain ⟨msg, hencode⟩ :=
    h.accounted.written.encoded r (h.accounted.genuine (mem_stored_of_present hr))
  exact ((WindowKind.keeps_iff (h.accounted.covered.running cycle hcycle).2 hencode).mp hkept).2
    event.value (h.scanned.events cycle hcycle file hfile hscanned event hevent)

/-- A GC segment is deleted when its events are outdated. -/
theorem purgedEffect (h : s.Gated) (heffect : Effect s s') : s'.Purged := by
  have hold : ∀ file ∈ s.removed, ∀ event ∈ file.records, s'.Outdated event :=
    fun file hfile event hevent =>
      (h.purged file hfile event hevent).effect h.accounted.named heffect
  cases heffect with
  | deleteFile hphase hdelete =>
    intro file hfile event hevent
    rcases mem_append.mp hfile with hfile | hnew
    · exact hold file hfile event hevent
    · obtain ⟨hfile, hname⟩ := mem_filter.mp hnew
      have hfrozen := mem_append_left s.gc.active (Timed.mem_frozen hfile hevent)
      refine ⟨h.clocked.gc.past event hfrozen, fun r hr hlt => ?_⟩
      refine h.delete hphase hdelete hfile (by simpa using hname) hevent ?_ hlt
      simpa [stored, present, hphase, listedData, listedCompaction, records, sent] using hr
  | flush walType | @removeFile _ walType =>
    cases walType <;> exact hold
  | _ => exact hold

theorem step (h : s.Gated) (hsettled : s.Settled a) : (s.step a).Gated := by
  have heffect := s.step_effect a
  have haccounted := h.accounted.step a
  have hpresent : ∀ r ∈ (s.step a).present, r ∈ s.present ∨ s.clock ≤ r.time :=
    fun r hr => heffect.mem_present h.accounted.balanced haccounted.balanced hr
  exact ⟨haccounted, h.clocked.effect h.accounted.named heffect,
    h.scanned.effect h.accounted.named h.clocked heffect,
    h.seen.effect h.scanned h.clocked hpresent
      (fun r hr => haccounted.conserves.not_mem_present hr) hsettled.drained heffect,
    h.purgedEffect heffect⟩

end Gated

/-- The records that were written before an event of a deleted GC segment and that the
event covers are dropped, and are stored nowhere. -/
def DropsCovered (s : LogRun) : Prop :=
  ∀ file ∈ s.removed, ∀ event ∈ file.records, ∀ r ∈ s.appended,
    r.time < event.time ∧ s.kind.covers event.value r.value = true →
      r ∈ s.droppedRecords ∧ r ∉ s.stored
deriving Decidable

theorem Gated.dropsCovered (h : s.Gated) : s.DropsCovered := by
  rintro file hfile event hevent r hr ⟨hlt, hcovers⟩
  have hstored : r ∉ s.stored := by
    intro hmem
    rw [(h.purged file hfile event hevent).2 r hmem hlt] at hcovers
    cases hcovers
  refine ⟨?_, hstored⟩
  have hbalanced := h.accounted.balanced r
  have hpresent := count_eq_zero_of_not_mem fun hmem => hstored (mem_stored_of_present hmem)
  have hpos := count_pos_iff.mpr hr
  exact count_pos_iff.mp (by omega)

/-- In every run whose cycles list the compaction log when no record that they drop is
on its way, what the events of deleted GC segments cover is dropped. -/
theorem dropsCovered_exec (kind : WindowKind) {actions : List LogAction}
    (hrun : Along Settled step (init kind) actions) :
    (exec step (init kind) actions).DropsCovered :=
  (exec_invariant (fun _ _ hs hok => hs.step hok) (Gated.init kind) hrun).dropsCovered

/-- The first cycle of an empty directory, and the start of the writers. -/
def startActions : List LogAction :=
  [.tick, .advance, .advance, .advance, .advance, .advance, .openSegment .data, .openSegment .gc]

/-- A message at 5 ms. -/
def earlyMessage : Message :=
  { keys := ["a"], eventTime := 5000000 }

/-- The end of the window with the message, in a GC segment that has a successor. -/
def closeActions : List LogAction :=
  [.writeGcEvent ⟨0, 10000000, some ["a"]⟩, .rotate .gc]

/-- A message and the event that covers it are in frozen segments; a cycle drops the
message and deletes the GC segment. -/
def purgeActions : List LogAction :=
  startActions ++ [.writeMessage earlyMessage] ++ closeActions ++ [.rotate .data, .tick, .advance,
    .advance, .advance, .advance, .read, .read, .advance, .advance, .advance, .advance, .advance]

/-- A cycle sends the message on before its window ends; the next one comes to the GC
segment while the compaction writer has not handled any request. -/
def overtakingActions : List LogAction :=
  startActions ++ [.writeMessage earlyMessage, .rotate .data, .tick, .advance, .advance, .advance,
    .advance, .read, .read, .advance, .advance, .advance, .advance, .advance] ++ closeActions ++
    [.writeMessage { keys := ["a"], eventTime := 20000000 }, .rotate .data, .tick, .advance,
      .advance, .advance, .advance, .read, .read, .advance, .advance, .advance, .advance, .advance]

/-- The covered message of a deleted GC segment is dropped. -/
theorem purgeActions_dropsCovered : (exec step (init .unaligned) purgeActions).removed.length = 1 ∧
      (exec step (init .unaligned) purgeActions).appended.length = 1 ∧
      (exec step (init .unaligned) purgeActions).DropsCovered :=
  ⟨by decide, by decide, dropsCovered_exec .unaligned (by decide)⟩

/-- The GC segment is deleted while the message that it covers is in the channel to the
compaction writer, which later writes it to a compaction segment. -/
theorem overtakingActions_not_dropsCovered :
    ¬(exec step (init .aligned) overtakingActions).DropsCovered ∧
      ¬(exec step (init .unaligned) overtakingActions).DropsCovered :=
  ⟨by decide, by decide⟩

end LogRun
end Numaflow.Wal
