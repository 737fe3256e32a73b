import Numaflow.Reduce.Wal.Log

/-!
# Compaction conserves messages

Every record written to the data log is at every time in exactly one place, or was
dropped once.  The places are the files of the data log and of the compaction log, the
stream the compactor reads and the channel to the compaction writer.  A segment that is
being read counts with the records that the cycle has not processed yet: the file is
deleted only after all of its records were sent on, so until then these records are
both in the file and on their way.

Main results: `conserves_exec`.
-/

namespace Numaflow.Wal

open Lib CyclePhase SegmentLog Pending List

/-- No segment is being read. -/
structure CyclePhase.Quiet (phase : CyclePhase) : Prop where
  records : phase.records = []
  listedData : phase.listedData = []
  listedCompaction : phase.listedCompaction = []

/-- The record that is to be replayed. -/
def Pending.replayed? : Pending → Option DataRecord
  | .replay record => some record
  | .removeFile _ => none

namespace CyclePhase

/-- The record that was sent on and has still to be replayed. -/
def replaying : CyclePhase → List DataRecord
  | .reading _ _ pending _ _ => (pending.bind Pending.replayed?).toList
  | _ => []

/-- The cycle deletes GC segments. -/
def deletes : CyclePhase → Bool
  | .deleting _ _ _ => true
  | _ => false

/-- The cycle has not listed the compaction log. -/
def early : CyclePhase → Bool
  | .listing _ .data => false
  | .reading _ _ _ _ _ => false
  | .deleting _ _ _ => false
  | _ => true

/-- What a cycle has still to process, given the frozen records of the two logs. -/
def unseen (phase : CyclePhase) (compaction data : List DataRecord) : List DataRecord :=
  match phase with
  | .listing _ .data => data
  | .reading _ .data _ entries unread => SegmentEntry.records (entries ++ unread)
  | .reading _ _ _ entries unread => SegmentEntry.records (entries ++ unread) ++ data
  | .deleting _ _ _ => []
  | _ => compaction ++ data

theorem unseen_congr {phase : CyclePhase} (h : phase.early = false)
    (compaction compaction' data : List DataRecord) :
    phase.unseen compaction data = phase.unseen compaction' data := by
  cases phase with
  | idle | started | failed => cases h
  | listing _ walType =>
    cases walType
    all_goals first | rfl | cases h
  | reading _ walType => cases walType <;> rfl
  | deleting => rfl

end CyclePhase

theorem CyclePhase.quiet_reading (cycle : Cycle) (walType : WalType) :
    (reading cycle walType none [] []).Quiet := by
  cases walType
  all_goals exact ⟨rfl, rfl, rfl⟩

namespace LogRun

/-- The records in the channel to the compaction writer. -/
def sent (s : LogRun) : List DataRecord :=
  s.channel.filterMap CompactionRequest.record?

/-- The records in all files, in the stream and in the channel. -/
def stored (s : LogRun) : List DataRecord :=
  s.data.active ++ s.data.frozen ++ s.compaction.active ++ s.compaction.frozen ++
    s.phase.records ++ s.sent

/-- The same records, where a segment that is being read counts only with what the cycle
has not processed yet. -/
def present (s : LogRun) : List DataRecord :=
  s.data.active ++ s.data.unlisted s.phase.listedData ++ s.compaction.active ++
    s.compaction.unlisted s.phase.listedCompaction ++ s.phase.records ++ s.sent

/-- The records that were dropped. -/
def droppedRecords (s : LogRun) : List DataRecord :=
  s.dropped.map Prod.snd

/-- What is written is present or dropped, with the same multiplicity. -/
def Balanced (s : LogRun) : Prop :=
  ∀ r, s.appended.count r = s.present.count r + s.droppedRecords.count r

/-- From one state to the next, what is present or dropped changes by what is written. -/
def Balances (s s' : LogRun) : Prop :=
  ∀ r, s'.present.count r + s'.droppedRecords.count r + s.appended.count r =
    s.present.count r + s.droppedRecords.count r + s'.appended.count r

variable {pending pending' : Option Pending} {entries' unread' entries unread : List SegmentEntry}
  {s' s : LogRun} {cycle : Cycle} {walType : WalType}

namespace Balances

/-- Nothing is written and nothing moves between the places. -/
theorem of_present (happended : s'.appended = s.appended)
    (hdropped : s'.dropped = s.dropped) (hpresent : s'.present.Perm s.present) : Balances s s' := by
  intro r
  rw [happended, droppedRecords, hdropped, hpresent.count_eq, droppedRecords]

/-- Only the compactor moves, and it reads no segment before and after. -/
theorem of_idle {phase : CyclePhase} (hphase : s.phase = phase)
    (hbefore : phase.Quiet) (hafter : s'.phase.Quiet) (happended : s'.appended = s.appended)
    (hdropped : s'.dropped = s.dropped) (hdata : s'.data = s.data)
    (hcompaction : s'.compaction = s.compaction) (hsent : s'.sent = s.sent) : Balances s s' := by
  refine of_present happended hdropped ?_
  rw [present, present, hdata, hcompaction, hsent, hphase, hbefore.listedData, hbefore.listedCompaction,
    hbefore.records, hafter.listedData, hafter.listedCompaction, hafter.records]

/-- The compactor or the reader changes the stream. -/
theorem of_reading (hphase : s.phase = .reading cycle walType pending entries unread)
    (hphase' : s'.phase = .reading cycle walType pending' entries' unread')
    (happended : s'.appended = s.appended) (hdata : s'.data = s.data)
    (hcompaction : s'.compaction = s.compaction) (hlisted : (pending'.bind removed?).toList ++
        SegmentEntry.switches (entries' ++ unread') =
      (pending.bind removed?).toList ++ SegmentEntry.switches (entries ++ unread))
    (hrecords : ∀ r, s'.phase.records.count r + s'.sent.count r + s'.droppedRecords.count r =
      s.phase.records.count r + s.sent.count r + s.droppedRecords.count r) : Balances s s' := by
  have hlistedData : s'.phase.listedData = s.phase.listedData := by
    rw [hphase, hphase']
    cases walType with
    | data => exact hlisted
    | gc | compact => rfl
  have hlistedCompaction : s'.phase.listedCompaction = s.phase.listedCompaction := by
    rw [hphase, hphase']
    cases walType with
    | data => rfl
    | gc | compact => exact hlisted
  intro r
  have hrecord := hrecords r
  simp only [present, count_append]
  rw [happended, hdata, hcompaction, hlistedData, hlistedCompaction]
  omega

theorem flush (s : LogRun) (walType : WalType) : Balances s (s.flush walType) := by
  cases walType with
  | data | compact => exact of_present rfl rfl (by simp [present, LogRun.flush, sent])
  | gc => exact of_present rfl rfl (.refl _)

/-- The records of the listed segments are read from the stream. -/
theorem list (hphase : s.phase = .listing cycle walType) : Balances s { s with
      phase := .reading cycle walType none [] (streamingRead (s.log walType)) } := by
  have hunlisted : ∀ log : SegmentLog ReadMessage,
      log.unlisted ([] ++ SegmentEntry.switches ([] ++ streamingRead log)) = [] := by
    intro log
    rw [nil_append, nil_append, SegmentEntry.switches_streamingRead]
    exact log.unlisted_all
  intro r
  simp only [present, hphase, listedData, listedCompaction, records, unlisted_nil, count_append,
    count_nil]
  cases walType
  all_goals
    simp only [log, Option.bind_none, Option.toList_none, hunlisted,
      SegmentEntry.records_streamingRead, unlisted_nil, count_nil, sent, droppedRecords]
    omega

variable {createTime : Nat}

/-- A segment is deleted when all of its records were processed. -/
theorem removeFile
    (hphase : s.phase = .reading cycle walType (some (.removeFile createTime)) entries unread) :
    Balances s { s.removeFile walType createTime with
      phase := .reading cycle walType none entries unread } := by
  cases walType
  all_goals
    refine of_present rfl rfl ?_
    simp only [present, hphase, listedData, listedCompaction,
      LogRun.removeFile, unlisted_removeFile, active_removeFile]
    rfl

end Balances

/-- Every step keeps the balance, as long as the decisions about records do not fail. -/
theorem Effect.balances (heffect : Effect s s') (hnamed : s.Named)
    (hdecides : ∀ r ∈ s.phase.records, ∀ c : Compaction, ∃ b, c.shouldRetain r.value = .ok b) :
    Balances s s' := by
  cases heffect with
  | quiet | openGc | writeGcEvent | rotateGc => exact .of_present rfl rfl (.refl _)
  | openData => exact .of_present rfl rfl (by simp [present, sent])
  | writeMessage hwriter =>
    intro r
    simp only [present, sent, count_append, droppedRecords, active_writeData hwriter,
      unlisted_writeData]
    omega
  | flush walType => exact .flush s walType
  | rotateData =>
    intro r
    simp only [present, sent, count_append, droppedRecords, active_rotateFile,
      unlisted_rotateFile hnamed.listedData.not_mem, count_nil]
    omega
  | rotateCompaction _ hchannel hrequests =>
    intro r
    simp only [present, sent, hchannel, filterMap_append, hrequests, nil_append,
      count_append, droppedRecords, active_rotateFile,
      unlisted_rotateFile hnamed.listedCompaction.not_mem, count_nil]
    omega
  | handleWrite hchannel =>
    intro r
    simp only [present, sent, hchannel, filterMap_cons, CompactionRequest.record?,
      active_writeData hnamed.writing, unlisted_writeData,
      count_append, count_cons, count_nil, droppedRecords]
    omega
  | read hphase =>
    exact .of_reading hphase rfl rfl rfl rfl (by simp)
      (by simp [hphase, records, sent, droppedRecords])
  | tick hphase | scan hphase | unreadable hphase | finishBoot hphase
  | finishData hphase | deleteFile hphase | keepFile hphase | finishCycle hphase =>
    exact .of_idle hphase ⟨rfl, rfl, rfl⟩ ⟨rfl, rfl, rfl⟩ rfl rfl rfl rfl rfl
  | list hphase => exact .list hphase
  | replay hphase =>
    exact .of_reading hphase rfl rfl rfl rfl (by simp [removed?])
      (by simp [hphase, records, sent, droppedRecords])
  | removeFile hphase => exact .removeFile hphase
  | keep hphase =>
    refine .of_reading hphase rfl rfl rfl rfl (by split_ifs <;> simp [removed?]) ?_
    intro r
    simp [hphase, records, sent, droppedRecords, CompactionRequest.record?, count_cons]
    omega
  | drop hphase =>
    refine .of_reading hphase rfl rfl rfl rfl (by simp) ?_
    intro r
    simp [hphase, records, sent, droppedRecords, count_cons]
    omega
  | fail hphase hretain =>
    obtain ⟨b, hb⟩ := hdecides _ (by rw [hphase]; exact mem_cons_self) _
    rw [hb] at hretain
    cases hretain
  | fileSwitch hphase =>
    exact .of_reading hphase rfl rfl rfl rfl (by simp [removed?])
      (by simp [hphase, records, sent, droppedRecords, filterMap_cons, CompactionRequest.record?])
  | finishCompaction _ hphase =>
    exact .of_idle hphase (quiet_reading _ _) ⟨rfl, rfl, rfl⟩ rfl rfl rfl rfl rfl
  | restart hphase =>
    intro r
    simp only [present, hphase, listedData, listedCompaction, records, unlisted_nil, active_stop,
      frozen_stop, active_openSegment, frozen_openSegment, count_append, count_nil, sent,
      droppedRecords]
    omega

theorem Balanced.init (kind : WindowKind) : (init kind).Balanced := by
  intro r
  rfl

theorem Balanced.of_balances (h : s.Balanced) (hbalances : Balances s s') :
    s'.Balanced := by
  intro r
  have hbefore := h r
  have hchange := hbalances r
  omega

/-! ## What is written -/

variable {r : DataRecord}

/-- A step writes a message to the data log, or leaves the history of the log alone. -/
theorem Effect.appended_cases (heffect : Effect s s') :
    (s'.appended = s.appended ∧ s.clock ≤ s'.clock) ∨
      ∃ msg record, encode msg = .ok record ∧
        s'.appended = s.appended ++ [⟨s.clock, record⟩] ∧ s'.clock = s.clock + 1 := by
  cases heffect with
  | writeMessage _ hencode => exact .inr ⟨_, _, hencode, rfl, rfl⟩
  | flush walType => cases walType <;> exact .inl ⟨rfl, Nat.le_refl _⟩
  | @removeFile _ walType =>
    cases walType <;> exact .inl ⟨rfl, Nat.le_refl _⟩
  | openData | openGc | writeGcEvent | rotateData | rotateGc
  | rotateCompaction | restart =>
    exact .inl ⟨rfl, Nat.le_succ _⟩
  | _ => exact .inl ⟨rfl, Nat.le_refl _⟩

/-- What was written to the data log stays written. -/
theorem Effect.appended_sublist (heffect : Effect s s') : s.appended.Sublist s'.appended := by
  rcases heffect.appended_cases with ⟨hsame, -⟩ | ⟨msg, record, -, happended, -⟩
  · rw [hsame]
  · exact happended ▸ sublist_append_left _ _

/-- The records of the data log are stored messages with distinct times. -/
structure Written (s : LogRun) : Prop where
  encoded : ∀ r ∈ s.appended, ∃ msg, encode msg = .ok r.value
  past : ∀ r ∈ s.appended, r.time < s.clock
  nodup : s.appended.Nodup

variable (kind : WindowKind)

theorem Written.init : (init kind).Written := by
  constructor <;> simp [LogRun.init]

theorem Written.effect (h : s.Written) (heffect : Effect s s') : s'.Written := by
  rcases heffect.appended_cases with ⟨happended, hclock⟩ | ⟨msg, record, hencode, happended, hclock⟩
  · refine ⟨?_, ?_, ?_⟩
    · rw [happended]
      exact h.encoded
    · rw [happended]
      exact fun r hr => Nat.lt_of_lt_of_le (h.past r hr) hclock
    · rw [happended]
      exact h.nodup
  · refine ⟨?_, ?_, ?_⟩
    · rw [happended]
      exact forall_mem_concat.mpr ⟨h.encoded, msg, hencode⟩
    · rw [happended, hclock]
      exact forall_mem_concat.mpr
        ⟨fun r hr => Nat.lt_succ_of_lt (h.past r hr), Nat.lt_succ_self _⟩
    · rw [happended]
      refine h.nodup.append (nodup_singleton _) ?_
      rw [disjoint_singleton]
      exact fun hmem => Nat.lt_irrefl _ (h.past _ hmem)

/-! ## What is stored -/

section

theorem mem_stored : r ∈ s.stored ↔ (r ∈ s.data.active ∨ r ∈ s.data.frozen) ∨
      (r ∈ s.compaction.active ∨ r ∈ s.compaction.frozen) ∨ r ∈ s.phase.records ∨ r ∈ s.sent := by
  simp only [stored, mem_append, or_assoc]

theorem mem_stored_of_present (hr : r ∈ s.present) : r ∈ s.stored := by
  have hdata := s.data.unlisted_subset s.phase.listedData
  have hcompaction := s.compaction.unlisted_subset s.phase.listedCompaction
  simp only [present, mem_append, or_assoc] at hr
  rw [mem_stored, or_assoc, or_assoc]
  exact hr.imp_right (Or.imp (fun hmem => hdata hmem)
    (Or.imp_right (Or.imp_left fun hmem => hcompaction hmem)))

/-- The compactor moves on, and the stream gets no longer. -/
theorem mem_stored_of_phase (hr : r ∈ s'.stored) (hdata : s'.data = s.data)
    (hcompaction : s'.compaction = s.compaction) (hsent : s'.sent = s.sent)
    (hrecords : s'.phase.records ⊆ s.phase.records) : r ∈ s.stored := by
  rw [mem_stored] at hr ⊢
  rw [hdata, hcompaction, hsent] at hr
  exact hr.imp_right (Or.imp_right (Or.imp_left fun hmem => hrecords hmem))

/-- A record that is stored was stored before, or is written by the step. -/
theorem Effect.mem_stored (heffect : Effect s s') (hnamed : s.Named) (hr : r ∈ s'.stored) :
    r ∈ s.stored ∨ r ∈ s'.appended ∧ s.clock ≤ r.time := by
  cases heffect with
  | openData =>
    left
    simpa [stored, sent] using hr
  | @writeMessage _ _ hwriter =>
    rw [LogRun.mem_stored] at hr ⊢
    simp only [active_writeData hwriter, frozen_writeData, mem_append, mem_singleton] at hr
    rcases hr with ((hr | rfl) | hr) | hr
    · exact .inl (.inl (.inl hr))
    · exact .inr ⟨by simp, Nat.le_refl _⟩
    · exact .inl (.inl (.inr hr))
    · exact .inl (.inr hr)
  | flush walType =>
    left
    cases walType with
    | data | compact => simpa [stored, sent, LogRun.flush] using hr
    | gc => exact hr
  | rotateData =>
    rw [LogRun.mem_stored] at hr ⊢
    simp only [active_rotateFile, frozen_rotateFile, mem_append, not_mem_nil, false_or] at hr
    exact .inl (hr.imp_left Or.symm)
  | @rotateCompaction rest _ hchannel hrequests =>
    have hsent : s.sent = rest.filterMap CompactionRequest.record? := by
      rw [sent, hchannel, filterMap_append, hrequests, nil_append]
    rw [LogRun.mem_stored] at hr ⊢
    simp only [active_rotateFile, frozen_rotateFile, mem_append, not_mem_nil, false_or] at hr
    rw [hsent]
    exact .inl (hr.imp_right (Or.imp_left Or.symm))
  | @handleWrite rest record hchannel =>
    have hsent : s.sent = record :: rest.filterMap CompactionRequest.record? := by
      rw [sent, hchannel]
      rfl
    rw [LogRun.mem_stored] at hr ⊢
    rw [hsent, mem_cons]
    simp only [active_writeData hnamed.writing, frozen_writeData,
      mem_append, mem_singleton, sent] at hr
    tauto
  | read hphase | replay hphase | drop hphase =>
    exact .inl (mem_stored_of_phase hr rfl rfl rfl (by simp [hphase, records]))
  | tick | scan | unreadable | fail
  | finishCompaction | finishBoot | finishData
  | deleteFile | keepFile | finishCycle =>
    exact .inl (mem_stored_of_phase hr rfl rfl rfl (nil_subset _))
  | @list _ walType =>
    rw [LogRun.mem_stored] at hr ⊢
    simp only [records, SegmentEntry.records_streamingRead, log] at hr
    cases walType <;> tauto
  | @removeFile _ walType createTime _ _ hphase =>
    have hfrozen := fun l : SegmentLog ReadMessage => l.frozen_removeFile_subset createTime
    rw [LogRun.mem_stored] at hr ⊢
    rw [hphase]
    cases walType with
    | data => exact .inl (hr.imp_left (Or.imp_right fun hmem => hfrozen _ hmem))
    | gc => exact .inl (hr.imp_right (Or.imp_left (Or.imp_right fun hmem => hfrozen _ hmem)))
    | compact => exact .inl (hr.imp_right (Or.imp_left (Or.imp_right fun hmem => hfrozen _ hmem)))
  | @keep _ _ record _ _ hphase =>
    rw [LogRun.mem_stored] at hr ⊢
    simp only [hphase, records, SegmentEntry.records_append,
      SegmentEntry.records_dataEntry, sent, filterMap_append, mem_append,
      filterMap_cons, CompactionRequest.record?, filterMap_nil, mem_cons,
      cons_append] at hr ⊢
    tauto
  | fileSwitch hphase =>
    refine .inl (mem_stored_of_phase hr rfl rfl ?_ (by simp [hphase, records]))
    simp [sent, filterMap_cons, CompactionRequest.record?]
  | restart =>
    rw [LogRun.mem_stored] at hr ⊢
    simp only [active_stop, frozen_stop, active_openSegment,
      frozen_openSegment, mem_append, not_mem_nil, false_or] at hr
    exact .inl (hr.imp Or.symm (Or.imp_left Or.symm))
  | _ => exact .inl hr

end

/-! ## What is dropped -/

theorem Effect.kind_eq (heffect : Effect s s') : s'.kind = s.kind := by
  cases heffect with
  | flush walType | @removeFile _ walType =>
    cases walType <;> rfl
  | _ => rfl

/-- The cycles decide by the GC events they have read, and only dropped records are
covered by them. -/
structure Covered (s : LogRun) : Prop where
  running : ∀ cycle ∈ s.phase.cycle?, cycle.gcEvents ∈ s.cycles ∧
    s.kind.buildCompaction cycle.gcEvents = some cycle.compaction
  dropped : ∀ d ∈ s.dropped, d.1 ∈ s.cycles ∧
    ∃ c, s.kind.buildCompaction d.1 = some c ∧ c.shouldRetain d.2.value = .ok false

namespace Covered

theorem init : (init kind).Covered := by
  constructor <;> simp [LogRun.init, cycle?]

/-- The cycle goes on, and nothing is dropped. -/
theorem of_running (h : s.Covered) (hcycle : ∀ cycle ∈ s'.phase.cycle?, cycle ∈ s.phase.cycle?)
    (hkind : s'.kind = s.kind) (hcycles : s'.cycles = s.cycles)
    (hdropped : s'.dropped = s.dropped) : s'.Covered := by
  refine ⟨fun cycle hc => ?_, ?_⟩
  · rw [hkind, hcycles]
    exact h.running cycle (hcycle cycle hc)
  · rw [hkind, hcycles, hdropped]
    exact h.dropped

theorem effect (h : s.Covered) (heffect : Effect s s') : s'.Covered := by
  cases heffect with
  | @scan _ _ _ hbuild =>
    refine ⟨fun cycle hcycle => ?_, fun d hd => ?_⟩
    · cases hcycle
      exact ⟨by simp, hbuild⟩
    · obtain ⟨hmem, hcovered⟩ := h.dropped d hd
      exact ⟨mem_append_left _ hmem, hcovered⟩
  | @drop cycle _ _ _ _ hphase hretain =>
    have hcycle := h.running cycle (by rw [hphase]; rfl)
    refine ⟨fun cycle' hcycle' => ?_, forall_mem_concat.mpr
      ⟨h.dropped, hcycle.1, cycle.compaction, hcycle.2, hretain⟩⟩
    cases hcycle'
    exact hcycle
  | flush walType => cases walType <;> exact h.of_running (fun _ => id) rfl rfl rfl
  | @removeFile cycle walType _ _ _ hphase =>
    cases walType <;> exact h.of_running (by simp [hphase, cycle?]) rfl rfl rfl
  | tick | unreadable | fail | finishBoot
  | finishCycle => exact h.of_running (by simp [cycle?]) rfl rfl rfl
  | read hphase | list hphase | replay hphase | keep hphase | fileSwitch hphase
  | keepFile hphase => exact h.of_running (by simp [hphase, cycle?]) rfl rfl rfl
  | finishCompaction _ hphase | finishData hphase | deleteFile hphase =>
    exact h.of_running (by simp [hphase, cycle?]) rfl rfl rfl
  | _ => exact h.of_running (fun _ => id) rfl rfl rfl

end Covered

/-! ## What the first cycle replays -/

/-- The running first cycle: the data writer does not run, nothing is written to the
compaction log before the log is listed, and the cycle decides by what it has read. -/
structure Booting (s : LogRun) : Prop where
  stopped : s.data.writer = none
  early : s.phase.early = true →
    s.channel = [] ∧ s.compaction.active = [] ∧ s.replayed = []
  known : s.bootCompaction = s.phase.cycle?.map Cycle.compaction
  gated : s.phase.deletes = false

/-- The first cycle keeps the record, or has not decided yet. -/
def bootKeeps (s : LogRun) (r : DataRecord) : Bool :=
  s.bootCompaction.all fun c => c.keeps r.value

/-- The records the first cycle has still to process. -/
def unseen (s : LogRun) : List DataRecord :=
  if s.boot then s.phase.unseen s.compaction.frozen s.data.frozen else []

/-- A record that was there at the start is replayed as often as it was there, when the
first cycle keeps it, and never otherwise. -/
structure Replaying (s : LogRun) : Prop where
  booting : s.boot = true → s.Booting
  booted : s.boot = false → s.phase.replaying = []
  kept : ∀ r, s.bootKeeps r = true →
    s.replayed.count r + s.phase.replaying.count r + s.unseen.count r = s.bootRecords.count r
  other : ∀ r, s.bootKeeps r = false → r ∉ s.replayed ++ s.phase.replaying

/-- What the first cycle has found and decided does not change. -/
structure SameStart (s s' : LogRun) : Prop where
  boot : s'.boot = s.boot
  records : s'.bootRecords = s.bootRecords
  decided : s'.bootCompaction = s.bootCompaction

namespace Replaying

theorem bootKeeps_eq (hsame : SameStart s s') (r : DataRecord) : s'.bootKeeps r = s.bootKeeps r := by
  rw [bootKeeps, hsame.decided, bootKeeps]

theorem init : (init kind).Replaying := by
  refine ⟨fun _ => ⟨rfl, fun _ => ⟨rfl, rfl, rfl⟩, rfl, rfl⟩, nofun, fun r _ => rfl, ?_⟩
  simp [bootKeeps, LogRun.init]

variable (h : s.Replaying)

include h

/-- The writers take steps. -/
theorem of_writers (hsame : SameStart s s') (hphase : s'.phase = s.phase)
    (hreplayed : s'.replayed = s.replayed) (hdata : s.boot = true → s.data.writer = none →
      s'.data.writer = none ∧ s'.data.frozen = s.data.frozen)
    (hearly : s.boot = true → s.channel = [] → s.compaction.active = [] →
      s'.channel = [] ∧ s'.compaction.active = [] ∧ s'.compaction.frozen = s.compaction.frozen) :
    s'.Replaying := by
  have hunseen : s'.unseen = s.unseen := by
    unfold unseen
    rw [hsame.boot, hphase]
    split_ifs with hb
    · have hbooting := h.booting hb
      rw [(hdata hb hbooting.stopped).2]
      by_cases he : s.phase.early = true
      · obtain ⟨hchannel, hactive, -⟩ := hbooting.early he
        rw [(hearly hb hchannel hactive).2.2]
      · exact unseen_congr (by simpa using he) _ _ _
    · rfl
  refine ⟨fun hb => ?_, fun hb => ?_, fun r hr => ?_, fun r hr => ?_⟩
  · rw [hsame.boot] at hb
    have hbooting := h.booting hb
    refine ⟨(hdata hb hbooting.stopped).1, fun he => ?_, ?_, hphase ▸ hbooting.gated⟩
    · obtain ⟨hchannel, hactive, hnone⟩ := hbooting.early (hphase ▸ he)
      obtain ⟨hchannel', hactive', -⟩ := hearly hb hchannel hactive
      exact ⟨hchannel', hactive', hreplayed.trans hnone⟩
    · rw [hsame.decided, hphase]
      exact hbooting.known
  · rw [hphase]
    exact h.booted (hsame.boot ▸ hb)
  · rw [hreplayed, hphase, hunseen, hsame.records]
    exact h.kept r (bootKeeps_eq hsame r ▸ hr)
  · rw [hreplayed, hphase]
    exact h.other r (bootKeeps_eq hsame r ▸ hr)

/-- Later cycles replay nothing. -/
theorem of_booted (hsame : SameStart s s') (hboot : s.boot = false)
    (hreplaying : s'.phase.replaying = []) (hreplayed : s'.replayed = s.replayed) :
    s'.Replaying := by
  have hboot' := hsame.boot.trans hboot
  have hunseen : s'.unseen = s.unseen := by simp [unseen, hboot, hboot']
  refine ⟨fun hb => ?_, fun _ => hreplaying, fun r hr => ?_, fun r hr => ?_⟩
  · rw [hboot'] at hb
    cases hb
  · rw [hreplayed, hreplaying, hunseen, hsame.records, ← h.booted hboot]
    exact h.kept r (bootKeeps_eq hsame r ▸ hr)
  · rw [hreplayed, hreplaying, ← h.booted hboot]
    exact h.other r (bootKeeps_eq hsame r ▸ hr)

/-- The first cycle takes a step after it has decided what to keep. -/
theorem of_booting (hsame : SameStart s s') (hboot : s.boot = true)
    (hbooting : s'.Booting) (hkept : ∀ r, s.bootKeeps r = true →
      s'.replayed.count r + s'.phase.replaying.count r + s'.unseen.count r =
        s.replayed.count r + s.phase.replaying.count r + s.unseen.count r)
    (hother : ∀ r, s.bootKeeps r = false → r ∈ s'.replayed ++ s'.phase.replaying →
      r ∈ s.replayed ++ s.phase.replaying) : s'.Replaying := by
  refine ⟨fun _ => hbooting, fun hb => ?_, fun r hr => ?_, fun r hr hmem => ?_⟩
  · rw [hsame.boot, hboot] at hb
    cases hb
  · rw [bootKeeps_eq hsame] at hr
    rw [hkept r hr, hsame.records]
    exact h.kept r hr
  · rw [bootKeeps_eq hsame] at hr
    exact h.other r hr (hother r hr hmem)

/-- The compactor takes a step that reads no segment. -/
theorem of_idle {phase : CyclePhase} (hphase : s.phase = phase)
    (hsame : SameStart s s') (hdata : s'.data = s.data) (hcompaction : s'.compaction = s.compaction)
    (hchannel : s'.channel = s.channel) (hreplayed : s'.replayed = s.replayed)
    (hreplaying : phase.replaying = []) (hreplaying' : s'.phase.replaying = [])
    (hearly : s'.phase.early = true → phase.early = true)
    (hcycle : s'.phase.cycle?.map Cycle.compaction = phase.cycle?.map Cycle.compaction)
    (hdeletes : s.boot = true → s'.phase.deletes = false)
    (hunseen : s.boot = true → s'.phase.unseen s.compaction.frozen s.data.frozen =
      phase.unseen s.compaction.frozen s.data.frozen) : s'.Replaying := by
  cases hb : s.boot with
  | false => exact h.of_booted hsame hb hreplaying' hreplayed
  | true =>
    have hbooting := h.booting hb
    refine h.of_booting hsame hb ⟨hdata ▸ hbooting.stopped, fun he => ?_, ?_, hdeletes hb⟩
      (fun r _ => ?_) (fun r _ hmem => ?_)
    · rw [hcompaction, hchannel, hreplayed]
      exact hbooting.early (hphase ▸ hearly he)
    · rw [hsame.decided, hbooting.known, hphase, hcycle]
    · rw [unseen, unseen, hsame.boot, hb, if_pos rfl, if_pos rfl, hdata, hcompaction, hunseen hb, hphase,
        hreplayed, hreplaying, hreplaying']
    · rw [hreplayed, hreplaying', ← hreplaying, ← hphase] at hmem
      exact hmem

/-- The stream changes while a log is read. -/
theorem of_reading (hphase : s.phase = .reading cycle walType pending entries unread)
    (hphase' : s'.phase = .reading cycle walType pending' entries' unread')
    (hsame : SameStart s s') (hwriter : s'.data.writer = s.data.writer)
    (hfrozen : walType ≠ .data → s'.data.frozen = s.data.frozen) (hbooted : s.boot = false → s.phase.replaying = [] →
      s'.phase.replaying = [] ∧ s'.replayed = s.replayed)
    (hkept : s.boot = true → ∀ r, cycle.compaction.keeps r.value = true →
      s'.replayed.count r + s'.phase.replaying.count r + s'.phase.records.count r =
        s.replayed.count r + s.phase.replaying.count r + s.phase.records.count r)
    (hother : s.boot = true → ∀ r, cycle.compaction.keeps r.value = false →
      r ∈ s'.replayed ++ s'.phase.replaying → r ∈ s.replayed ++ s.phase.replaying) :
    s'.Replaying := by
  cases hb : s.boot with
  | false =>
    obtain ⟨hreplaying, hreplayed⟩ := hbooted hb (h.booted hb)
    exact h.of_booted hsame hb hreplaying hreplayed
  | true =>
    have hbooting := h.booting hb
    have hkeeps : ∀ r, s.bootKeeps r = cycle.compaction.keeps r.value := by
      intro r
      simp [bootKeeps, hbooting.known, hphase, CyclePhase.cycle?]
    refine h.of_booting hsame hb
      ⟨hwriter.trans hbooting.stopped, by simp [hphase', CyclePhase.early], ?_,
        by simp [hphase', CyclePhase.deletes]⟩ (fun r hr => ?_)
      (fun r hr => hother hb r (hkeeps r ▸ hr))
    · rw [hsame.decided, hbooting.known, hphase, hphase']
      rfl
    · have hcount := hkept hb r (hkeeps r ▸ hr)
      rw [unseen, unseen, hsame.boot, hb, if_pos rfl, if_pos rfl]
      rw [hphase, hphase'] at hcount ⊢
      cases walType with
      | data => exact hcount
      | gc | compact =>
        simp only [CyclePhase.unseen, count_append, hfrozen (by simp)] at hcount ⊢
        simp only [CyclePhase.records] at hcount
        omega

variable {newestDataMicros : Option Nat} {allGcSorted gcFiles : List Nat}

/-- The first cycle decides what it keeps. -/
theorem scan (hphase : s.phase = .started newestDataMicros) (cycles : List (List GcEvent)) :
    Replaying { s with
      phase := .listing cycle .compact
      cycles := cycles
      bootCompaction := if s.boot then some cycle.compaction else s.bootCompaction } := by
  cases hb : s.boot with
  | false => exact h.of_booted ⟨hb.symm, rfl, rfl⟩ hb rfl rfl
  | true =>
    have hbooting := h.booting hb
    have hearly := hbooting.early (by rw [hphase]; rfl)
    refine ⟨fun _ => ⟨hbooting.stopped, fun _ => hearly, rfl, rfl⟩, nofun, fun r _ => ?_,
      fun r _ => ?_⟩
    · have hr := h.kept r (by simp [bootKeeps, hbooting.known, hphase, cycle?])
      rw [unseen, hb, hphase] at hr
      exact hr
    · rw [hearly.2.2]
      exact not_mem_nil

/-- The first cycle deletes no GC segment. -/
theorem not_boot (hphase : s.phase = .deleting cycle allGcSorted gcFiles) : s.boot = false := by
  cases hb : s.boot with
  | false => rfl
  | true =>
    have hgated := (h.booting hb).gated
    rw [hphase] at hgated
    cases hgated

theorem flush (walType : WalType) : (s.flush walType).Replaying := by
  cases walType with
  | data =>
    exact h.of_writers ⟨rfl, rfl, rfl⟩ rfl rfl
      (fun _ hnone => ⟨by simp [LogRun.flush, SegmentLog.flush, hnone], rfl⟩)
      fun _ hc ha => ⟨hc, ha, rfl⟩
  | gc =>
    exact h.of_writers ⟨rfl, rfl, rfl⟩ rfl rfl (fun _ hnone => ⟨hnone, rfl⟩)
      fun _ hc ha => ⟨hc, ha, rfl⟩
  | compact =>
    exact h.of_writers ⟨rfl, rfl, rfl⟩ rfl rfl (fun _ hnone => ⟨hnone, rfl⟩)
      fun _ hc ha => ⟨hc, s.compaction.active_flush.trans ha, rfl⟩

section

variable {record : DataRecord}
  (hphase : s.phase = .reading cycle walType none (.dataEntry record :: entries) unread)

include hphase

/-- The first cycle replays a record that it keeps. -/
theorem keep (hretain : cycle.compaction.shouldRetain record.value = .ok true) : Replaying { s with
      channel := s.channel ++ [.writeGcEvent record]
      phase := .reading cycle walType (if s.boot then some (.replay record) else none)
        entries unread } := by
  refine h.of_reading hphase rfl ⟨rfl, rfl, rfl⟩ rfl (fun _ => rfl) (fun hb _ => ?_)
    (fun hb r _ => ?_) (fun hb r hr hmem => ?_)
  · simp [hb, replaying]
  · simp [hphase, hb, records, replaying, replayed?, count_cons]
    omega
  · have hne : r ≠ record := by
      rintro rfl
      simp [Compaction.keeps, hretain] at hr
    simpa [hphase, hb, replaying, replayed?, hne] using hmem

theorem drop (hretain : cycle.compaction.shouldRetain record.value = .ok false) : Replaying { s with
      phase := .reading cycle walType none entries unread
      dropped := s.dropped ++ [(cycle.gcEvents, record)] } := by
  refine h.of_reading hphase rfl ⟨rfl, rfl, rfl⟩ rfl (fun _ => rfl) (fun _ _ => ⟨rfl, rfl⟩)
    (fun _ r hr => ?_) (fun _ r _ hmem => ?_)
  · have hne : record ≠ r := by
      rintro rfl
      simp [Compaction.keeps, hretain] at hr
    simp [hphase, records, replaying, hne]
  · simpa [hphase, replaying] using hmem

end

omit h in
/-- After a restart everything is still to be seen. -/
theorem restart (hphase : s.phase = .idle) (hchannel : s.channel = []) :
    Replaying { s with
      clock := s.clock + 1
      data := s.data.stop
      gc := s.gc.stop
      compaction := s.compaction.stop.openSegment s.clock
      boot := true
      replayed := []
      bootRecords := s.stoppedRecords
      bootCompaction := none } := by
  refine ⟨fun _ => ⟨?_, fun _ => ⟨hchannel, by simp, rfl⟩, by rw [hphase]; rfl, by rw [hphase]; rfl⟩,
    nofun, fun r _ => ?_, fun r hr => ?_⟩
  · simp only [stop]
    split
    · assumption
    · rfl
  · simp [unseen, hphase, CyclePhase.unseen, CyclePhase.replaying, stoppedRecords]
  · simp [bootKeeps] at hr

/-- Every step keeps the account of the first cycle, as long as the decisions about
records do not fail. -/
theorem effect (heffect : Effect s s')
    (hdecides : ∀ r ∈ s.phase.records, ∀ c : Compaction, ∃ b, c.shouldRetain r.value = .ok b) :
    s'.Replaying := by
  cases heffect with
  | quiet => exact h
  | openData hboot =>
    refine h.of_writers ⟨rfl, rfl, rfl⟩ rfl rfl (fun hb => ?_) fun _ hc ha => ⟨hc, ha, rfl⟩
    rw [hboot] at hb
    cases hb
  | writeMessage hwriter =>
    refine h.of_writers ⟨rfl, rfl, rfl⟩ rfl rfl (fun _ hnone => ?_) fun _ hc ha => ⟨hc, ha, rfl⟩
    rw [hnone] at hwriter
    cases hwriter
  | flush walType => exact h.flush walType
  | rotateData =>
    exact h.of_writers ⟨rfl, rfl, rfl⟩ rfl rfl
      (fun _ hnone => by simp [rotateFile, hnone]) fun _ hc ha => ⟨hc, ha, rfl⟩
  | rotateCompaction _ hchannel =>
    refine h.of_writers ⟨rfl, rfl, rfl⟩ rfl rfl (fun _ hnone => ⟨hnone, rfl⟩) fun _ hc ha => ?_
    rw [hc] at hchannel
    refine ⟨(append_eq_nil_iff.mp hchannel.symm).2, s.compaction.active_rotateFile _, ?_⟩
    rw [frozen_rotateFile, ha, append_nil]
  | handleWrite hchannel =>
    refine h.of_writers ⟨rfl, rfl, rfl⟩ rfl rfl (fun _ hnone => ⟨hnone, rfl⟩) fun _ hc _ => ?_
    rw [hc] at hchannel
    cases hchannel
  | read hphase =>
    refine h.of_reading hphase rfl ⟨rfl, rfl, rfl⟩ rfl (fun _ => rfl) (fun _ hnone => ?_)
      (fun _ r _ => ?_) (fun _ r _ hmem => ?_)
    · rw [hphase] at hnone
      exact ⟨hnone, rfl⟩
    · simp [hphase, CyclePhase.records, CyclePhase.replaying]
    · simpa [hphase, CyclePhase.replaying] using hmem
  | tick hphase | unreadable hphase =>
    exact h.of_idle hphase ⟨rfl, rfl, rfl⟩ rfl rfl rfl rfl rfl rfl (fun _ => rfl) rfl (fun _ => rfl)
      fun _ => rfl
  | scan hphase => exact h.scan hphase _
  | @list _ walType hphase =>
    refine h.of_idle hphase ⟨rfl, rfl, rfl⟩ rfl rfl rfl rfl rfl rfl (fun he => ?_) rfl (fun _ => rfl)
      fun _ => ?_
    · cases he
    · cases walType
      all_goals simp only [CyclePhase.unseen, log, SegmentEntry.records_streamingRead]
  | replay hphase =>
    refine h.of_reading hphase rfl ⟨rfl, rfl, rfl⟩ rfl (fun _ => rfl) (fun _ hnone => ?_)
      (fun _ r _ => ?_) (fun _ r _ hmem => ?_)
    · simp [hphase, CyclePhase.replaying, replayed?] at hnone
    · simp [hphase, CyclePhase.records, CyclePhase.replaying, replayed?]
    · simpa [hphase, CyclePhase.replaying, replayed?] using hmem
  | @removeFile _ walType _ _ _ hphase =>
    cases walType
    all_goals
      refine h.of_reading hphase rfl ⟨rfl, rfl, rfl⟩ rfl (fun hwal => ?_) (fun _ _ => ⟨rfl, rfl⟩)
        (fun _ r _ => ?_) (fun _ r _ hmem => ?_)
      · first | rfl | exact absurd rfl hwal
      · simp [hphase, LogRun.removeFile, CyclePhase.records, CyclePhase.replaying, replayed?]
      · simpa [hphase, LogRun.removeFile, CyclePhase.replaying, replayed?] using hmem
  | keep hphase hretain => exact h.keep hphase hretain
  | drop hphase hretain => exact h.drop hphase hretain
  | fail hphase hretain =>
    obtain ⟨b, hb⟩ := hdecides _ (by rw [hphase]; exact mem_cons_self) _
    rw [hb] at hretain
    cases hretain
  | fileSwitch hphase =>
    refine h.of_reading hphase rfl ⟨rfl, rfl, rfl⟩ rfl (fun _ => rfl) (fun _ _ => ⟨rfl, rfl⟩)
      (fun _ r _ => ?_) (fun _ r _ hmem => ?_)
    · simp [hphase, CyclePhase.records, CyclePhase.replaying, replayed?]
    · simpa [hphase, CyclePhase.replaying, replayed?] using hmem
  | @finishCompaction walType _ hwal hphase =>
    refine h.of_idle hphase ⟨rfl, rfl, rfl⟩ rfl rfl rfl rfl rfl rfl (fun he => ?_) rfl (fun _ => rfl)
      fun _ => ?_
    · cases he
    · cases walType with
      | data => exact absurd rfl hwal
      | gc | compact => rfl
  | finishBoot hphase hboot =>
    refine ⟨nofun, fun _ => rfl, fun r hr => ?_, fun r hr hmem => ?_⟩
    · have hcount := h.kept r hr
      simpa [unseen, hboot, hphase, CyclePhase.unseen, CyclePhase.replaying,
        SegmentEntry.records] using hcount
    · refine h.other r hr ?_
      simpa [hphase, CyclePhase.replaying] using hmem
  | finishData hphase hboot =>
    refine h.of_idle hphase ⟨rfl, rfl, rfl⟩ rfl rfl rfl rfl rfl rfl (fun he => ?_) rfl (fun hb => ?_)
      fun hb => ?_
    · cases he
    · rw [hboot] at hb
      cases hb
    · rw [hboot] at hb
      cases hb
  | deleteFile hphase | keepFile hphase | finishCycle hphase =>
    have hboot := h.not_boot hphase
    exact h.of_booted ⟨rfl, rfl, rfl⟩ hboot rfl rfl
  | restart hphase _ hchannel => exact restart hphase hchannel
  | _ =>
    exact h.of_writers ⟨rfl, rfl, rfl⟩ rfl rfl (fun _ hnone => ⟨hnone, rfl⟩)
      fun _ hc ha => ⟨hc, ha, rfl⟩

/-- A finished first cycle has decided what it keeps. -/
theorem decided (hdecided : s.boot = false → s.bootCompaction.isSome = true)
    (heffect : Effect s s') : s'.boot = false → s'.bootCompaction.isSome = true := by
  cases heffect with
  | finishBoot hphase hboot =>
    intro _
    have hknown := (h.booting hboot).known
    rw [hphase] at hknown
    simp [hknown, cycle?]
  | scan =>
    intro hboot
    have hboot' : s.boot = false := hboot
    simpa [hboot'] using hdecided hboot
  | restart => exact fun hboot => absurd hboot (by simp)
  | flush walType | @removeFile _ walType => cases walType <;> exact hdecided
  | _ => exact hdecided

/-- When the first cycle is done, it has replayed what it has found and keeps. -/
theorem mem_replayed {c : Compaction} (hboot : s.boot = false) (hc : s.bootCompaction = some c)
    (hr : r ∈ s.bootRecords) (hkeeps : c.keeps r.value = true) : r ∈ s.replayed := by
  have hcount := h.kept r (by simpa [bootKeeps, hc] using hkeeps)
  rw [h.booted hboot, unseen, hboot] at hcount
  have hpos := count_pos_iff.mpr hr
  exact count_pos_iff.mp (by simp at hcount; omega)

end Replaying

/-- A step leaves the records alone that the start has found, or it is a restart. -/
theorem Effect.start_cases (heffect : Effect s s') :
    (s'.bootRecords = s.bootRecords ∧ (s'.boot = true → s.boot = true)) ∨
      (s.phase = .idle ∧ s.channel = [] ∧ s'.bootRecords = s.stoppedRecords) := by
  cases heffect with
  | restart hphase _ hchannel => exact .inr ⟨hphase, hchannel, rfl⟩
  | finishBoot => exact .inl ⟨rfl, fun hboot => by cases hboot⟩
  | flush walType | @removeFile _ walType => cases walType <;> exact .inl ⟨rfl, id⟩
  | _ => exact .inl ⟨rfl, id⟩

/-! ## Whole runs -/

/-- The files have different names, nothing but messages of the data log is stored, the cycles
decide by what they have read, and the first cycle replays what it has found and keeps. -/
structure Sound (s : LogRun) : Prop where
  named : s.Named
  written : s.Written
  genuine : s.stored ⊆ s.appended
  covered : s.Covered
  replaying : s.Replaying
  decided : s.boot = false → s.bootCompaction.isSome = true

theorem Sound.init : (init kind).Sound :=
  ⟨.init kind, .init kind, nil_subset _, .init kind, .init kind, nofun⟩

/-- No decision about a record fails. -/
theorem Sound.decides (h : s.Sound) :
    ∀ r ∈ s.phase.records, ∀ c : Compaction, ∃ b, c.shouldRetain r.value = .ok b := by
  intro r hr c
  have hstored : r ∈ s.stored := mem_stored.mpr (.inr (.inr (.inl hr)))
  obtain ⟨msg, hencode⟩ := h.written.encoded r (h.genuine hstored)
  exact c.shouldRetain_encode hencode

theorem Sound.effect (h : s.Sound) (heffect : Effect s s') : s'.Sound where
  named := h.named.effect heffect
  written := h.written.effect heffect
  genuine _ hr := (heffect.mem_stored h.named hr).elim
    (fun hold => heffect.appended_sublist.subset (h.genuine hold)) And.left
  covered := h.covered.effect heffect
  replaying := h.replaying.effect heffect h.decides
  decided := h.replaying.decided h.decided heffect

/-- Without crashes nothing is lost either, and no record is found twice at a start. -/
structure Accounted (s : LogRun) : Prop extends Sound s where
  balanced : s.Balanced
  nodup : s.bootRecords.Nodup

/-- No record is present twice. -/
theorem Accounted.nodup_present (h : s.Accounted) : s.present.Nodup := by
  rw [nodup_iff_count_le_one]
  intro r
  have hbalanced := h.balanced r
  have hle := nodup_iff_count_le_one.mp h.written.nodup r
  omega

/-- A start finds the records that are present. -/
theorem stoppedRecords_perm (hphase : s.phase = .idle) (hchannel : s.channel = []) :
    s.stoppedRecords.Perm s.present := by
  rw [perm_iff_count]
  intro r
  simp only [stoppedRecords, present, sent, hphase, hchannel, listedData, listedCompaction, records,
    unlisted_nil, frozen_stop, filterMap_nil, count_append, count_nil]
  omega

theorem Accounted.step (h : s.Accounted) (a : LogAction) : (s.step a).Accounted := by
  have heffect := s.step_effect a
  refine ⟨h.toSound.effect heffect,
    h.balanced.of_balances (heffect.balances h.named h.decides), ?_⟩
  rcases heffect.start_cases with ⟨hrecords, -⟩ | ⟨hphase, hchannel, hrecords⟩
  · exact hrecords ▸ h.nodup
  · rw [hrecords]
    exact (stoppedRecords_perm hphase hchannel).nodup_iff.mpr h.nodup_present

theorem accounted_exec (actions : List LogAction) : (exec step (init kind) actions).Accounted :=
  exec_invariant_all (fun _ a h => h.step a) ⟨.init kind, .init kind, nodup_nil⟩

/-- Every record written to the data log is present or dropped exactly once; it is
dropped when the GC events that a cycle read at its start cover it; and since the start
every record that was found and that the first cycle keeps is replayed exactly once. -/
structure Conserves (s : LogRun) : Prop where
  once : ∀ r, (s.present ++ s.droppedRecords).count r = if r ∈ s.appended then 1 else 0
  covered : ∀ d ∈ s.dropped, d.1 ∈ s.cycles ∧
    ∃ c, s.kind.buildCompaction d.1 = some c ∧ c.shouldRetain d.2.value = .ok false
  replayed : ∀ r ∈ s.replayed, s.replayed.count r = 1 ∧ r ∈ s.bootRecords ∧ s.bootKeeps r = true
  complete : s.boot = false → ∃ c, s.bootCompaction = some c ∧
    ∀ r ∈ s.bootRecords, c.keeps r.value = true → r ∈ s.replayed

theorem Accounted.replayed (h : s.Accounted) (hr : r ∈ s.replayed) :
    s.replayed.count r = 1 ∧ r ∈ s.bootRecords ∧ s.bootKeeps r = true := by
  have hkeeps : s.bootKeeps r = true := by
    cases hb : s.bootKeeps r with
    | true => rfl
    | false => exact absurd (mem_append_left _ hr) (h.replaying.other r hb)
  have hcount := h.replaying.kept r hkeeps
  have hpos := count_pos_iff.mpr hr
  have hle := nodup_iff_count_le_one.mp h.nodup r
  exact ⟨by omega, count_pos_iff.mp (by omega), hkeeps⟩

theorem Accounted.conserves (h : s.Accounted) : s.Conserves where
  once := by
    intro r
    have hbalanced := h.balanced r
    rw [count_append]
    split_ifs with hr
    · have hone := count_eq_one_of_mem h.written.nodup hr
      omega
    · have hzero := count_eq_zero_of_not_mem hr
      omega
  covered := h.covered.dropped
  replayed := fun r hr => h.replayed hr
  complete := by
    intro hboot
    obtain ⟨c, hc⟩ := Option.isSome_iff_exists.mp (h.decided hboot)
    refine ⟨c, hc, fun r hr hkeeps => ?_⟩
    exact h.replaying.mem_replayed hboot hc hr hkeeps

/-- Compaction conserves messages, in every interleaving of the writers and any number
of cycles and orderly restarts. -/
theorem conserves_exec (kind : WindowKind) (actions : List LogAction) :
    (exec step (init kind) actions).Conserves :=
  (accounted_exec kind actions).conserves

/-- The segments that a cycle still has to read and delete are older than the files of the
writers, in every interleaving. -/
theorem listed_lt_current (kind : WindowKind) (actions : List LogAction) :
    let s := exec step (init kind) actions
    (∀ t ∈ s.phase.listedData, ∀ c ∈ s.data.current, t < c) ∧
      ∀ t ∈ s.phase.listedCompaction, ∀ c ∈ s.compaction.current, t < c := by
  have hnamed := (accounted_exec kind actions).named
  exact ⟨fun t ht => (hnamed.listedData t ht).2, fun t ht => (hnamed.listedCompaction t ht).2⟩

/-- The first cycle of an empty directory, a message in a frozen data segment, and a
cycle that has read the segment and sent the message on. -/
def copyActions : List LogAction :=
  [.tick, .advance, .advance, .advance, .advance, .advance, .openSegment .data,
    .writeMessage { keys := ["a"], eventTime := 5000000 }, .rotate .data, .tick, .advance,
    .advance, .advance, .advance, .read, .advance]

/-- While a segment is being read, a record of it that was sent on is also still in the
file. -/
theorem copyActions_stored_twice :
    ¬∀ r ∈ (exec step (init .aligned) copyActions).appended,
      ((exec step (init .aligned) copyActions).stored ++
        (exec step (init .aligned) copyActions).droppedRecords).count r = 1 := by
  decide

end LogRun
end Numaflow.Wal
