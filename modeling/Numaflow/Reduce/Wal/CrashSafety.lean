import Numaflow.Reduce.Wal.Compactor

/-!
# Compaction and crashes

A compaction cycle reads the frozen segments one by one, first those of earlier
compactions and then those of the data log.  It sends the records to keep over a
bounded channel to a writer task, followed by a request to rotate, and then deletes
the segment file.  The writer appends to a file of its own; only when it rotates that
file do the records become part of a frozen segment, which a restart reads.

The cycle does not wait for the writer, so a crash after the deletion loses what is
still in the channel or in the writer's file.  Nothing is lost when a segment is
deleted only after the writer has handled all requests.

Records are not empty, so the size of the writer's file is zero exactly when it holds
no record.  The writer also rotates by size, by age and when it is idle, which is a
step that may happen at any time.  The data log freezes segments at any time.

Main results: `Safe.remove`, `durable_exec`.
-/

namespace Numaflow.Wal

open Lib List

/-! ## Cycles -/

/-- A frozen segment. -/
structure Segment where
  walType : WalType
  name : Nat
  records : List ReadMessage
deriving DecidableEq, Repr

/-- A request to the writer. -/
inductive SegmentWriteMessage where
  | writeGcEvent (record : ReadMessage)
  | rotate
deriving DecidableEq, Repr

/-- The records a request carries. -/
def SegmentWriteMessage.records : SegmentWriteMessage → List ReadMessage
  | .writeGcEvent record => [record]
  | .rotate => []

/-- How far a cycle has come: it reads a segment, it has asked for the rotation and is
about to delete the segment, or it is about to list the segments of a kind. -/
inductive CompactorPhase where
  | idle
  | reading (c : Compaction) (walType : WalType) (segment : Segment) (todo : List ReadMessage)
      (rest : List Segment)
  | rotated (c : Compaction) (walType : WalType) (segment : Segment) (rest : List Segment)
  | listing (c : Compaction) (walType : WalType)
  | failed

variable {segments : List Segment}

namespace CompactorPhase

/-- Go on with the next segment, or with the next kind of segments. -/
def nextFile (c : Compaction) (walType : WalType) : List Segment → CompactorPhase
  | segment :: rest => .reading c walType segment segment.records rest
  | [] => if walType = .compact then .listing c .data else .idle

/-- What the running cycle decides by. -/
def criterion : CompactorPhase → Option Compaction
  | .reading c _ _ _ _ => some c
  | .rotated c _ _ _ => some c
  | .listing c _ => some c
  | _ => none

/-- The segments that are listed and not yet deleted. -/
def pending : CompactorPhase → List Segment
  | .reading _ _ segment _ rest => segment :: rest
  | .rotated _ _ segment rest => segment :: rest
  | _ => []

theorem pending_nextFile (c : Compaction) (walType : WalType) (segments : List Segment) :
    (nextFile c walType segments).pending = segments := by
  cases segments with
  | nil =>
    unfold nextFile
    split_ifs <;> rfl
  | cons => rfl

variable {c c' : Compaction} {walType : WalType}

theorem criterion_nextFile (h : c' ∈ (nextFile c walType segments).criterion) : c' = c := by
  cases segments with
  | nil =>
    unfold nextFile at h
    split_ifs at h
    · exact (Option.mem_some_iff.mp h).symm
    · cases h
  | cons => exact (Option.mem_some_iff.mp h).symm

end CompactorPhase

/-- A step of the compactor, the writer or the data log, or a crash. -/
inductive CompactorAction where
  | start (gcEvents : List GcEvent)
  | advance
  | abort
  | handle
  | flush
  | rotate
  | writerError
  | freeze (records : List ReadMessage)
  | crash
deriving DecidableEq, Repr

/-- The frozen segments, the compactor, the channel and the writer with its file.  The
records in `due` have to survive: those that were frozen when a cycle started, or
later, and that all cycles since have kept. -/
structure CompactorRun where
  kind : WindowKind
  disk : List Segment
  nextName : Nat
  phase : CompactorPhase
  channel : List SegmentWriteMessage
  writing : Bool
  flushed : List ReadMessage
  buffered : List ReadMessage
  due : List ReadMessage

open CompactorPhase

namespace CompactorRun

/-- An empty directory. -/
def init (kind : WindowKind) : CompactorRun :=
  ⟨kind, [], 0, .idle, [], true, [], [], []⟩

section

variable (s : CompactorRun)

/-- The records of the frozen segments. -/
def frozen : List ReadMessage :=
  s.disk.flatMap Segment.records

/-- The frozen segments of a kind. -/
def listFiles (walType : WalType) : List Segment :=
  s.disk.filter fun segment => decide (segment.walType = walType)

/-- Send a request; the cycle fails when the writer is gone, and waits while the
channel is full. -/
def send (msg : SegmentWriteMessage) (next : CompactorPhase) : CompactorRun :=
  if s.writing then
    if s.channel.length < channelCapacity then
      { s with channel := s.channel ++ [msg], phase := next }
    else s
  else { s with phase := .failed }

/-- Start a cycle: read the GC events. -/
def compact (gcEvents : List GcEvent) : CompactorRun :=
  match s.kind.buildCompaction gcEvents with
  | some c =>
    { s with
      phase := .listing c .compact
      due := (s.due ++ s.frozen).filter c.keeps }
  | none => { s with phase := .failed }

/-- The next step of the running cycle. -/
def processWalStream : CompactorRun :=
  match s.phase with
  | .reading c walType segment (record :: todo) rest =>
    match c.shouldRetain record with
    | .ok true => s.send (.writeGcEvent record) (.reading c walType segment todo rest)
    | .ok false => { s with phase := .reading c walType segment todo rest }
    | .error _ => { s with phase := .failed }
  | .reading c walType segment [] rest => s.send .rotate (.rotated c walType segment rest)
  | .rotated c walType segment rest =>
    { s with
      disk := s.disk.filter fun t => decide (t.name ≠ segment.name)
      phase := .nextFile c walType rest }
  | .listing c walType => { s with phase := .nextFile c walType (s.listFiles walType) }
  | _ => s

/-- Rename the writer's file, unless it is empty, and open a new one. -/
def rotateFile : CompactorRun :=
  if s.flushed ++ s.buffered = [] then s
  else
    { s with
      disk := s.disk ++ [⟨.compact, s.nextName, s.flushed ++ s.buffered⟩]
      nextName := s.nextName + 1
      flushed := []
      buffered := [] }

/-- Handle the next request. -/
def handleMessage : CompactorRun :=
  match s.channel with
  | [] => s
  | .writeGcEvent record :: rest =>
    { s with channel := rest, buffered := s.buffered ++ [record] }
  | .rotate :: rest => rotateFile { s with channel := rest }

/-- Perform a step; a step that is not due changes nothing. -/
def step : CompactorAction → CompactorRun
  | .start gcEvents =>
    match s.phase with
    | .idle => s.compact gcEvents
    | _ => s
  | .advance => s.processWalStream
  | .abort => { s with phase := .failed }
  | .handle => if s.writing then s.handleMessage else s
  | .flush =>
    if s.writing then { s with flushed := s.flushed ++ s.buffered, buffered := [] } else s
  | .rotate => if s.writing then s.rotateFile else s
  | .writerError => { s with writing := false, channel := [] }
  | .freeze records =>
    { s with
      disk := s.disk ++ [⟨.data, s.nextName, records⟩]
      nextName := s.nextName + 1
      due := s.due ++ records.filter fun r => s.phase.criterion.all fun c => c.keeps r }
  | .crash =>
    { s with phase := .idle, channel := [], writing := true, flushed := [], buffered := [] }

/-- Every record that is due is in a frozen segment, and so survives a crash. -/
def Durable : Prop :=
  ∀ r ∈ s.due, r ∈ s.frozen
deriving Decidable

/-- A segment is deleted only after the writer has handled all requests. -/
def Waits : CompactorAction → Prop
  | .advance =>
    match s.phase with
    | .rotated _ _ _ _ => s.writing = true ∧ s.channel = []
    | _ => True
  | _ => True

instance (s : CompactorRun) : DecidablePred s.Waits := fun _ => by
  unfold Waits
  split
  · split <;> infer_instance
  · infer_instance

/-! ## Records on their way to a frozen segment -/

/-- The records the writer has and has not yet frozen. -/
def inFlight : List ReadMessage :=
  s.flushed ++ s.buffered ++ s.channel.flatMap SegmentWriteMessage.records

/-- The record is with the writer, or in a frozen segment other than the named one. -/
def Carries (name : Nat) (r : ReadMessage) : Prop :=
  r ∈ s.inFlight ∨ ∃ t ∈ s.disk, t.name ≠ name ∧ r ∈ t.records

/-- Once the channel is empty, so is the writer's file. -/
def Settled : Prop :=
  s.channel.getLast? = some .rotate ∨ s.channel = [] ∧ s.flushed ++ s.buffered = []

/-- The writer has got the records to keep among those that were read. -/
def Copied : CompactorPhase → Prop
  | .reading c _ segment todo _ =>
    ∃ done, segment.records = done ++ todo ∧
      ∀ r ∈ done, c.keeps r = true → s.Carries segment.name r
  | .rotated c _ segment _ =>
    (∀ r ∈ segment.records, c.keeps r = true → s.Carries segment.name r) ∧ s.Settled
  | _ => True

end

variable {s s' : CompactorRun} {r : ReadMessage} {c : Compaction} {walType : WalType}
  {segment : Segment}

theorem mem_frozen : r ∈ s.frozen ↔ ∃ t ∈ s.disk, r ∈ t.records :=
  mem_flatMap

/-- A request brings its records to the writer. -/
theorem inFlight_append (s : CompactorRun) (msg : SegmentWriteMessage) (phase : CompactorPhase) :
    inFlight { s with channel := s.channel ++ [msg], phase := phase } =
      s.inFlight ++ msg.records := by
  simp [inFlight]

variable {name : Nat} {msg : SegmentWriteMessage}

theorem carries_append {phase : CompactorPhase} (h : s.Carries name r) :
    Carries { s with channel := s.channel ++ [msg], phase := phase } name r := by
  refine h.imp_left fun hflight => ?_
  rw [inFlight_append]
  exact mem_append_left _ hflight

theorem Settled.inFlight_eq_nil (h : s.Settled) (hchannel : s.channel = []) : s.inFlight = [] := by
  rcases h with hlast | ⟨_, hfile⟩
  · simp [hchannel] at hlast
  · simp [inFlight, hchannel, hfile]

/-- A step of the others that takes no record away leaves the copy complete. -/
theorem Copied.mono {phase : CompactorPhase} (h : s.Copied phase)
    (hcarry : ∀ t ∈ phase.pending, ∀ r, s.Carries t.name r → s'.Carries t.name r)
    (hsettled : s.Settled → s'.Settled) : s'.Copied phase := by
  cases phase with
  | reading c _ segment =>
    obtain ⟨done, hrecords, hdone⟩ := h
    refine ⟨done, hrecords, fun r hr hkeeps => ?_⟩
    exact hcarry segment mem_cons_self r (hdone r hr hkeeps)
  | rotated c _ segment =>
    refine ⟨fun r hr hkeeps => ?_, hsettled h.2⟩
    exact hcarry segment mem_cons_self r (h.1 r hr hkeeps)
  | idle | listing | failed => trivial

/-- The next segment is not read yet. -/
theorem copied_nextFile (s : CompactorRun) (c : Compaction) (walType : WalType)
    (segments : List Segment) : s.Copied (.nextFile c walType segments) := by
  cases segments with
  | nil =>
    unfold nextFile
    split_ifs
    · trivial
    · trivial
  | cons => exact ⟨[], rfl, by simp⟩

/-! ## What every step keeps -/

/-- The names of the frozen segments are distinct and used, and no record that is due
is missing. -/
structure Intact (s : CompactorRun) : Prop where
  unique : (s.disk.map Segment.name).Nodup
  below : ∀ t ∈ s.disk, t.name < s.nextName
  durable : s.Durable

/-- The cycle keeps what is due, lists frozen segments, and has sent the writer what
it keeps of the segment it is about to delete. -/
structure Safe (s : CompactorRun) : Prop extends s.Intact where
  kept : ∀ c ∈ s.phase.criterion, ∀ r ∈ s.due, c.keeps r = true
  listed : ∀ t ∈ s.phase.pending, t ∈ s.disk
  distinct : (s.phase.pending.map Segment.name).Nodup
  copied : s.writing = true → s.Copied s.phase

theorem Safe.init (kind : WindowKind) : (init kind).Safe where
  unique := nodup_nil
  below := by simp [CompactorRun.init]
  durable := by simp [Durable, CompactorRun.init]
  kept := by simp [CompactorRun.init, criterion]
  listed := by simp [CompactorRun.init, pending]
  distinct := nodup_nil
  copied := fun _ => trivial

/-- No cycle is running. -/
theorem Intact.rest (h : s.Intact) (hcriterion : s.phase.criterion = none)
    (hpending : s.phase.pending = []) (hcopied : s.Copied s.phase) : s.Safe where
  toIntact := h
  kept := by simp [hcriterion]
  listed := by simp [hpending]
  distinct := by simp [hpending]
  copied := fun _ => hcopied

/-- The cycle goes on with segments that are frozen. -/
theorem Intact.nextFile (h : s.Intact) (hkept : ∀ r ∈ s.due, c.keeps r = true)
    (hlisted : ∀ t ∈ segments, t ∈ s.disk) (hdistinct : (segments.map Segment.name).Nodup)
    (hphase : s.phase = .nextFile c walType segments) : s.Safe where
  toIntact := h
  kept := by
    intro c' hc'
    rw [hphase] at hc'
    rw [criterion_nextFile hc']
    exact hkept
  listed := by
    rw [hphase, pending_nextFile]
    exact hlisted
  distinct := by
    rw [hphase, pending_nextFile]
    exact hdistinct
  copied := fun _ => hphase ▸ s.copied_nextFile c walType segments

/-! ## The writer and the data log -/

/-- A new segment has a new name. -/
theorem Intact.append (h : s.Intact) (segment : Segment) (hname : segment.name = s.nextName)
    (hdisk : s'.disk = s.disk ++ [segment]) (hnext : s'.nextName = s.nextName + 1)
    (hdue : ∀ r ∈ s'.due, r ∈ s.due ∨ r ∈ segment.records) : s'.Intact where
  unique := by
    rw [hdisk, map_append, map_singleton, hname]
    refine h.unique.append (nodup_singleton _) ?_
    rw [disjoint_singleton]
    intro hmem
    obtain ⟨t, ht, heq⟩ := mem_map.mp hmem
    exact Nat.ne_of_lt (h.below t ht) heq
  below := by
    intro t ht
    rw [hdisk, mem_append, mem_singleton] at ht
    rw [hnext]
    rcases ht with ht | rfl
    · exact Nat.lt_succ_of_lt (h.below t ht)
    · exact hname ▸ Nat.lt_succ_self _
  durable := by
    intro r hr
    rw [mem_frozen, hdisk]
    rcases hdue r hr with hold | hnew
    · obtain ⟨t, ht, hrt⟩ := mem_frozen.mp (h.durable r hold)
      exact ⟨t, mem_append_left _ ht, hrt⟩
    · exact ⟨segment, by simp, hnew⟩

/-- Nobody but the compactor deletes segments. -/
theorem Safe.grow (h : s.Safe) (hintact : s'.Intact) (hdisk : ∀ t ∈ s.disk, t ∈ s'.disk)
    (hphase : s'.phase = s.phase) (hkept : ∀ c ∈ s.phase.criterion, ∀ r ∈ s'.due, c.keeps r = true)
    (hwriting : s'.writing = s.writing)
    (hcarry : ∀ name < s.nextName, ∀ r, s.Carries name r → s'.Carries name r)
    (hsettled : s.Settled → s'.Settled) : s'.Safe where
  toIntact := hintact
  kept := by
    rw [hphase]
    exact hkept
  listed := by
    intro t ht
    rw [hphase] at ht
    exact hdisk t (h.listed t ht)
  distinct := by
    rw [hphase]
    exact h.distinct
  copied := by
    intro hw
    rw [hphase]
    refine (h.copied (hwriting ▸ hw)).mono (fun t ht => ?_) hsettled
    exact hcarry t.name (h.below t (h.listed t ht))

/-- Renaming the file moves its records to a frozen segment with a new name. -/
theorem carries_rotateFile (hname : name < s.nextName) (h : s.Carries name r) :
    s.rotateFile.Carries name r := by
  unfold rotateFile
  split_ifs with hfile
  · exact h
  · rcases h with hflight | ⟨t, ht, hne, hr⟩
    · rcases mem_append.mp hflight with hr | hr
      · exact .inr ⟨⟨.compact, s.nextName, s.flushed ++ s.buffered⟩, by simp, Nat.ne_of_gt hname, hr⟩
      · exact .inl (mem_append_right _ hr)
    · exact .inr ⟨t, mem_append_left _ ht, hne, hr⟩

theorem rotateFile_file (s : CompactorRun) :
    s.rotateFile.flushed ++ s.rotateFile.buffered = [] := by
  unfold rotateFile
  split_ifs with hfile
  · exact hfile
  · rfl

/-- Rotating touches only the file and the frozen segments. -/
theorem rotateFile_frame (s : CompactorRun) :
    s.rotateFile.phase = s.phase ∧ s.rotateFile.due = s.due ∧
      s.rotateFile.writing = s.writing ∧ s.rotateFile.channel = s.channel := by
  unfold rotateFile
  split_ifs
  · exact ⟨rfl, rfl, rfl, rfl⟩
  · exact ⟨rfl, rfl, rfl, rfl⟩

variable {t : Segment}

theorem mem_disk_rotateFile (h : t ∈ s.disk) : t ∈ s.rotateFile.disk := by
  unfold rotateFile
  split_ifs
  · exact h
  · exact mem_append_left _ h

/-- Handling requests settles the writer when it empties the channel and the file. -/
theorem Settled.drop (h : s.Settled) (requests : List SegmentWriteMessage)
    (hchannel : s.channel = requests ++ s'.channel)
    (hfile : s'.channel = [] → s'.flushed ++ s'.buffered = []) : s'.Settled := by
  by_cases hempty : s'.channel = []
  · exact .inr ⟨hempty, hfile hempty⟩
  · rcases h with hlast | ⟨hnil, _⟩
    · rw [hchannel, List.getLast?_append_of_ne_nil _ hempty] at hlast
      exact .inl hlast
    · rw [hchannel] at hnil
      exact absurd (append_eq_nil_iff.mp hnil).2 hempty

theorem Intact.rotateFile (h : s.Intact) : s.rotateFile.Intact := by
  unfold CompactorRun.rotateFile
  split_ifs
  · exact h
  · exact h.append ⟨.compact, s.nextName, s.flushed ++ s.buffered⟩ rfl rfl rfl fun _ hr => .inl hr

section

variable (h : s.Safe)

include h

/-- The writer takes requests that carry no record, and rotates. -/
theorem Safe.rotateFile (requests : List SegmentWriteMessage)
    {channel : List SegmentWriteMessage} (hchannel : s.channel = requests ++ channel)
    (hrequests : requests.flatMap SegmentWriteMessage.records = []) :
    (CompactorRun.rotateFile { s with channel := channel }).Safe := by
  obtain ⟨hphase, hdue, hwriting, hchannel'⟩ := rotateFile_frame { s with channel := channel }
  have hintact : Intact { s with channel := channel } := ⟨h.unique, h.below, h.durable⟩
  refine h.grow hintact.rotateFile (fun t ht => mem_disk_rotateFile ht) hphase ?_ hwriting ?_ ?_
  · rw [hdue]
    exact h.kept
  · intro name hname r hr
    refine carries_rotateFile (s := { s with channel := channel }) hname ?_
    simpa [Carries, inFlight, hchannel, hrequests] using hr
  · intro hsettled
    refine hsettled.drop requests ?_ fun _ => rotateFile_file _
    rw [hchannel', hchannel]

/-- The writer handles a request. -/
theorem Safe.handleMessage : s.handleMessage.Safe := by
  unfold CompactorRun.handleMessage
  cases hchannel : s.channel with
  | nil => exact h
  | cons msg rest =>
    cases msg with
    | rotate => exact h.rotateFile [.rotate] hchannel rfl
    | writeGcEvent record =>
      refine h.grow ⟨h.unique, h.below, h.durable⟩ (fun t ht => ht) rfl h.kept rfl ?_ ?_
      · intro name _ r hr
        simpa [Carries, inFlight, hchannel, SegmentWriteMessage.records, or_assoc] using hr
      · intro hsettled
        refine hsettled.drop [.writeGcEvent record] hchannel fun hrest => ?_
        -- the last request is a rotation, so this is not the last one
        have hlast : rest = [] := hrest
        simp [Settled, hchannel, hlast] at hsettled

/-- The buffer is written to the file. -/
theorem Safe.flush : Safe { s with flushed := s.flushed ++ s.buffered, buffered := [] } := by
  refine h.grow ⟨h.unique, h.below, h.durable⟩ (fun t ht => ht) rfl h.kept rfl ?_ ?_
  · intro name _ r hr
    simpa [Carries, inFlight] using hr
  · intro hsettled
    simpa [Settled] using hsettled

/-- A segment of the data log is frozen. -/
theorem Safe.freeze (records : List ReadMessage) : (s.step (.freeze records)).Safe := by
  have hdue : ∀ r ∈ (s.step (.freeze records)).due, r ∈ s.due ∨
      r ∈ records ∧ ∀ c ∈ s.phase.criterion, c.keeps r = true := by
    intro r hr
    simpa [step, Option.all_eq_true] using hr
  have hintact : (s.step (.freeze records)).Intact := by
    refine h.toIntact.append ⟨.data, s.nextName, records⟩ rfl rfl rfl fun r hr => ?_
    exact (hdue r hr).imp_right And.left
  refine h.grow hintact (fun t ht => mem_append_left _ ht) rfl ?_ rfl ?_ id
  · intro c hc r hr
    rcases hdue r hr with hold | hnew
    · exact h.kept c hc r hold
    · exact hnew.2 c hc
  · intro name _ r hr
    refine hr.imp_right ?_
    rintro ⟨t, ht, hne, hrt⟩
    exact ⟨t, mem_append_left _ ht, hne, hrt⟩

/-! ## The compactor -/

/-- A request is sent after which the writer has got all that was read. -/
theorem Safe.send {next : CompactorPhase} (hcriterion : next.criterion = s.phase.criterion)
    (hpending : next.pending = s.phase.pending) (hcopied : s.writing = true →
      Copied { s with channel := s.channel ++ [msg], phase := next } next) :
    (s.send msg next).Safe := by
  unfold CompactorRun.send
  split_ifs with hwriting hroom
  · exact ⟨⟨h.unique, h.below, h.durable⟩, hcriterion ▸ h.kept, hpending ▸ h.listed,
      hpending ▸ h.distinct, hcopied⟩
  · exact h
  · exact Intact.rest ⟨h.unique, h.below, h.durable⟩ rfl rfl trivial

variable {rest : List Segment} {record : ReadMessage} {todo : List ReadMessage}

/-- Deleting a segment keeps what is due when the writer has frozen its copy. -/
theorem Safe.remove (hphase : s.phase = .rotated c walType segment rest)
    (hwriting : s.writing = true) (hchannel : s.channel = []) : Safe { s with
      disk := s.disk.filter fun t => decide (t.name ≠ segment.name)
      phase := .nextFile c walType rest } := by
  have hcopied := h.copied hwriting
  rw [hphase] at hcopied
  obtain ⟨hcarries, hsettled⟩ := hcopied
  have hflight := hsettled.inFlight_eq_nil hchannel
  have hkept := h.kept c (by rw [hphase]; rfl)
  have hpending : s.phase.pending = segment :: rest := by rw [hphase]; rfl
  have hlisted := h.listed
  have hdistinct := h.distinct
  rw [hpending] at hlisted hdistinct
  have hdurable : ∀ r ∈ s.due, ∃ t ∈ s.disk, t.name ≠ segment.name ∧ r ∈ t.records := by
    intro r hr
    obtain ⟨t, ht, hrt⟩ := mem_frozen.mp (h.durable r hr)
    by_cases hname : t.name = segment.name
    · have heq := inj_on_of_nodup_map h.unique ht (hlisted segment mem_cons_self) hname
      rcases hcarries r (heq ▸ hrt) (hkept r hr) with hr | hcopy
      · simp [hflight] at hr
      · exact hcopy
    · exact ⟨t, ht, hname, hrt⟩
  have hintact : Intact { s with
      disk := s.disk.filter fun t => decide (t.name ≠ segment.name)
      phase := .nextFile c walType rest } := by
    refine ⟨h.unique.sublist (filter_sublist.map _), fun t ht => ?_, fun r hr => ?_⟩
    · exact h.below t (mem_filter.mp ht).1
    · obtain ⟨t, ht, hname, hrt⟩ := hdurable r hr
      exact mem_frozen.mpr ⟨t, mem_filter.mpr ⟨ht, by simpa using hname⟩, hrt⟩
  refine hintact.nextFile hkept (fun t ht => ?_) hdistinct.of_cons rfl
  refine mem_filter.mpr ⟨hlisted t (mem_cons_of_mem _ ht), ?_⟩
  have hne : segment.name ≠ t.name := fun heq =>
    (nodup_cons.mp hdistinct).1 (heq ▸ mem_map_of_mem ht)
  simpa using hne.symm

/-- A record that was read is sent, dropped, or ends the cycle. -/
theorem Safe.readRecord (hphase : s.phase = .reading c walType segment (record :: todo) rest) :
    s.processWalStream.Safe := by
  have hcopied := h.copied
  rw [hphase] at hcopied
  simp only [processWalStream, hphase]
  split
  · refine h.send (by rw [hphase]; rfl) (by rw [hphase]; rfl) fun hwriting => ?_
    obtain ⟨done, hrecords, hdone⟩ := hcopied hwriting
    refine ⟨done ++ [record], by simpa using hrecords, fun r hr hkeeps => ?_⟩
    rcases mem_append.mp hr with hold | hnew
    · exact carries_append (hdone r hold hkeeps)
    · refine .inl ?_
      rw [inFlight_append]
      exact mem_append_right _ hnew
  · rename_i hdrop
    have hlisted := h.listed
    have hdistinct := h.distinct
    have hkept := h.kept
    rw [hphase] at hlisted hdistinct hkept
    refine ⟨⟨h.unique, h.below, h.durable⟩, hkept, hlisted, hdistinct, fun hwriting => ?_⟩
    obtain ⟨done, hrecords, hdone⟩ := hcopied hwriting
    refine ⟨done ++ [record], by simpa using hrecords,
      forall_mem_concat.mpr ⟨hdone, fun hkeeps => ?_⟩⟩
    simp [Compaction.keeps, hdrop] at hkeeps
  · exact Intact.rest ⟨h.unique, h.below, h.durable⟩ rfl rfl trivial

/-- All records of a segment are read, and the rotation is requested. -/
theorem Safe.switchFile (hphase : s.phase = .reading c walType segment [] rest) :
    s.processWalStream.Safe := by
  have hcopied := h.copied
  rw [hphase] at hcopied
  simp only [processWalStream, hphase]
  refine h.send (by rw [hphase]; rfl) (by rw [hphase]; rfl) fun hwriting => ?_
  obtain ⟨done, hrecords, hdone⟩ := hcopied hwriting
  rw [append_nil] at hrecords
  refine ⟨fun r hr hkeeps => ?_, .inl (by simp)⟩
  exact carries_append (hdone r (hrecords ▸ hr) hkeeps)

/-- A step of the cycle. -/
theorem Safe.processWalStream (hwaits : s.Waits .advance) : s.processWalStream.Safe := by
  cases hphase : s.phase with
  | reading c _ _ todo =>
    cases todo with
    | nil => exact h.switchFile hphase
    | cons => exact h.readRecord hphase
  | rotated =>
    simp only [Waits, hphase] at hwaits
    simp only [CompactorRun.processWalStream, hphase]
    exact h.remove hphase hwaits.1 hwaits.2
  | listing c =>
    simp only [CompactorRun.processWalStream, hphase]
    have hkept := h.kept c (by rw [hphase]; rfl)
    refine Intact.nextFile ⟨h.unique, h.below, h.durable⟩ hkept (fun t ht => ?_) ?_ rfl
    · exact (mem_filter.mp ht).1
    · exact h.unique.sublist (filter_sublist.map _)
  | idle | failed => simpa only [CompactorRun.processWalStream, hphase] using h

/-- A cycle starts; from now on the records are due that it keeps. -/
theorem Safe.compact (gcEvents : List GcEvent) : (s.compact gcEvents).Safe := by
  unfold CompactorRun.compact
  cases s.kind.buildCompaction gcEvents with
  | none => exact Intact.rest ⟨h.unique, h.below, h.durable⟩ rfl rfl trivial
  | some =>
    refine ⟨⟨h.unique, h.below, fun r hr => ?_⟩, ?_, by simp [pending], nodup_nil, fun _ => trivial⟩
    · rcases mem_append.mp (mem_filter.mp hr).1 with hold | hfrozen
      · exact h.durable r hold
      · exact hfrozen
    · intro c' hc' r hr
      cases hc'
      exact (mem_filter.mp hr).2

/-! ## Whole runs -/

theorem Safe.step (a : CompactorAction) (hwaits : s.Waits a) : (s.step a).Safe := by
  cases a with
  | start gcEvents =>
    simp only [CompactorRun.step]
    split
    · exact h.compact gcEvents
    · exact h
  | advance => exact h.processWalStream hwaits
  | abort | crash => exact Intact.rest ⟨h.unique, h.below, h.durable⟩ rfl rfl trivial
  | handle =>
    simp only [CompactorRun.step]
    split_ifs
    · exact h.handleMessage
    · exact h
  | flush =>
    simp only [CompactorRun.step]
    split_ifs
    · exact h.flush
    · exact h
  | rotate =>
    simp only [CompactorRun.step]
    split_ifs
    · exact h.rotateFile [] rfl rfl
    · exact h
  | writerError => exact ⟨⟨h.unique, h.below, h.durable⟩, h.kept, h.listed, h.distinct, nofun⟩
  | freeze records => exact h.freeze records

end

/-- In every state of a run that deletes a segment only after the writer has handled
all requests, crashes included, the records that are due are in frozen segments. -/
theorem durable_exec (kind : WindowKind) {actions : List CompactorAction}
    (hrun : Along Waits step (init kind) actions) : (exec step (init kind) actions).Durable :=
  (exec_invariant (fun _ a h hwaits => h.step a hwaits) (Safe.init kind) hrun).durable

/-- A record of the data log, at 5 ms. -/
def dataRecord : ReadMessage :=
  ⟨some (isbMessage { keys := ["a"], eventTime := 5000000 }), 0, none⟩

/-- A data segment is frozen, and a cycle that keeps its record reads it and requests
the rotation. -/
def cycleActions : List CompactorAction :=
  [.freeze [dataRecord], .start [(GcEventEntry.mk 0 2000000 (some ["a"])).toEvent], .advance,
    .advance, .advance, .advance]

/-- When the writer freezes the copy before the segment is deleted, the record
survives the crash. -/
theorem waitingCycle_durable :
    (exec step (init .unaligned) (cycleActions ++ [.handle, .handle, .advance, .crash])).disk =
        [⟨.compact, 1, [dataRecord]⟩] ∧
      dataRecord ∈ (exec step (init .unaligned)
        (cycleActions ++ [.handle, .handle, .advance, .crash])).due ∧
      (exec step (init .unaligned)
        (cycleActions ++ [.handle, .handle, .advance, .crash])).Durable :=
  ⟨by decide, by decide, durable_exec .unaligned (by decide)⟩

/-- The code deletes the segment at once: when the process crashes before the writer
has handled the requests, the record is lost. -/
theorem cycle_not_durable :
    ¬(exec step (init .aligned) (cycleActions ++ [.advance, .crash])).Durable ∧
      ¬(exec step (init .unaligned) (cycleActions ++ [.advance, .crash])).Durable :=
  ⟨by decide, by decide⟩

end CompactorRun
end Numaflow.Wal
