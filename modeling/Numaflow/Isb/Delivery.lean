import Numaflow.Isb.Reader

/-!
# Messages that are never nak'd

Without naks every message is delivered once, in the order of the offsets.  It gets its
watermark, is tracked with it, and stays tracked until it is acked.

Main results: `Orderly.step`, `Orderly.first_le`.
-/

namespace Numaflow.Isb

open Lib ReaderState List Option Tracker

/-- The watermark of the first delivery of a message, in milliseconds. -/
def noted (slots : List BufferSlot) (offset : Nat) : Option Int :=
  slots[offset]?.bind BufferSlot.firstWatermark

namespace ReaderState

section

variable (s : ReaderState)

/-- The message that has its watermark and is not tracked yet. -/
def attaching : Option (Nat × Option Int) :=
  match s.phase with
  | .attached offset watermark _ => some (offset, watermark)
  | _ => none

/-- The messages of the batch without watermark. -/
def waiting : List Nat :=
  match s.phase with
  | .fetched batch | .processing batch | .attached _ _ batch | .sending _ batch => batch
  | .checking | .acquiring | .fetching | .stopped => []

@[simp]
theorem attaching_processMessageBatch (batch : List Nat) :
    (s.processMessageBatch batch).attaching = none := by
  unfold processMessageBatch
  split_ifs <;> rfl

@[simp]
theorem waiting_processMessageBatch (batch : List Nat) :
    (s.processMessageBatch batch).waiting = batch := by
  unfold processMessageBatch
  split_ifs with hbatch
  · exact hbatch.symm
  · rfl

end

end ReaderState

/-- Every outcome is an ack, calls that are not repeated have taken effect, the tracker takes
every message, and the watermarks of the partition never decrease. -/
def Steady (s : ReadState) (action : ReaderAction) : Prop :=
  match action with
  | .attach watermark => -1 < watermark ∧
      ∀ slot ∈ s.reader.slots, ∀ earlier ∈ slot.firstWatermark, earlier ≤ watermark
  | .insert valid => valid = true
  | .outcome _ readAck => readAck = .ack
  | .attempt i effective result => TakesEffect s i effective result
  | _ => True

instance (s : ReadState) (action : ReaderAction) : Decidable (Steady s action) := by
  unfold Steady
  split <;> infer_instance

/-- The deliveries are in order, and the messages that have their watermarks are tracked with
them until they are acked. -/
structure Orderly (r : ISBReader) (s : ReadState) : Prop where
  noDelay : ∀ i, stateAt s.reader.slots i ≠ some .delayed
  delivered : ∀ i j, stateAt s.reader.slots i = some .pending →
    noted s.reader.slots j ≠ none → j < i
  below : ∀ i ∈ s.reader.waiting, ∀ j, stateAt s.reader.slots j = some .pending → i < j
  ahead : ∀ i ∈ s.reader.waiting, ∀ j, noted s.reader.slots j ≠ none → j < i
  sorted : s.reader.waiting.Pairwise (· < ·)
  inFlight : ∀ i ∈ s.reader.waiting, stateAt s.reader.slots i = some .inFlight
  attaching : ∀ i watermark, s.reader.attaching = some (i, watermark) →
    (∃ v, watermark = some (fromTimestampMillis v) ∧ noted s.reader.slots i = some v) ∧
      ¬ s.tracker.Tracked r.partition i ∧ stateAt s.reader.slots i = some .inFlight
  entries : ∀ e ∈ s.tracker.entriesOf r.partition, ∃ (i : Nat) (v : Int), e.offset = i ∧
    e.watermark = some (fromTimestampMillis v) ∧ noted s.reader.slots i = some v
  tracked : ∀ i v, noted s.reader.slots i = some v → stateAt s.reader.slots i = some .acked ∨
    (∃ watermark, s.reader.attaching = some (i, watermark)) ∨ s.tracker.Tracked r.partition i
  mono : ∀ i j v v', i < j → noted s.reader.slots i = some v → noted s.reader.slots j = some v' →
    v ≤ v'
  positive : ∀ i v, noted s.reader.slots i = some v → -1 < v
  held : ∀ wip ∈ s.reader.wips, wip.tracking = true → noted s.reader.slots wip.offset ≠ none ∧
    (stateAt s.reader.slots wip.offset = some .inFlight ∨
      stateAt s.reader.slots wip.offset = some .acked)
  apart : ∀ wip ∈ s.reader.wips, wip.tracking = true → ∀ watermark,
    s.reader.attaching ≠ some (wip.offset, watermark)
  acked : ∀ wip ∈ s.reader.wips, wip.phase = .deleting →
    stateAt s.reader.slots wip.offset = some .acked
  noNak : ∀ wip ∈ s.reader.wips, ∀ options, wip.phase ≠ .naking options

/-! ## The buffer -/

section

variable (slots : List BufferSlot) (offset i : Nat)

theorem noted_append (typ : MessageType) (eventTime : Int) :
    noted (slots ++ [{ typ := typ, eventTime := eventTime }]) i = noted slots i := by
  unfold noted
  rw [getElem?_append]
  split_ifs with hlt
  · rfl
  · rw [getElem?_eq_none (l := slots) (by omega), getElem?_singleton]
    split_ifs <;> rfl

@[simp]
theorem noted_deliver (offsets : List Nat) : noted (deliver slots offsets) i = noted slots i := by
  unfold noted deliver
  rw [getElem?_mapIdx]
  cases slots[i]? with
  | none => rfl
  | some => by_cases hi : i ∈ offsets <;> simp [hi]

variable {f : BufferSlot → BufferSlot}

theorem noted_modify
    (hf : ∀ slot, (f slot).firstWatermark = slot.firstWatermark) :
    noted (slots.modify offset f) i = noted slots i := by
  unfold noted
  rw [getElem?_modify]
  cases slots[i]? with
  | none => rfl
  | some => by_cases hi : offset = i <;> simp [hi, hf]

@[simp]
theorem noted_settleSlot (state : MessageState) :
    noted (settleSlot slots offset state) i = noted slots i :=
  noted_modify _ _ _ fun slot => by split_ifs <;> rfl

@[simp]
theorem noted_expire : noted (expire slots offset) i = noted slots i :=
  noted_modify _ _ _ fun slot => by split_ifs <;> rfl

theorem noted_noteWatermark (watermark : Int) : noted (noteWatermark slots offset watermark) i =
      if i = offset ∧ i < slots.length then (noted slots i).or (some watermark)
      else noted slots i := by
  unfold noted noteWatermark
  rw [getElem?_modify]
  cases hslot : slots[i]? with
  | none =>
    rw [getElem?_eq_none_iff] at hslot
    rw [if_neg (by omega)]
    rfl
  | some =>
    have hlt := (List.getElem?_eq_some_iff.mp hslot).1
    by_cases hi : offset = i
    · simp [hi, hlt]
    · simp [hi, Ne.symm hi]

end

/-- The only change is that messages in flight are acked. -/
structure Advance (slots slots' : List BufferSlot) : Prop where
  state : ∀ i, stateAt slots' i = stateAt slots i ∨
    stateAt slots i = some .inFlight ∧ stateAt slots' i = some .acked
  noted : ∀ i, noted slots' i = noted slots i

section

variable {slots slots' : List BufferSlot} {i : Nat}

theorem Advance.refl (slots : List BufferSlot) : Advance slots slots :=
  ⟨fun _ => .inl rfl, fun _ => rfl⟩

theorem Advance.call (effective : Bool) (slots : List BufferSlot) (offset : Nat) :
    Advance slots (if effective then settleSlot slots offset .acked else slots) := by
  refine ⟨fun i => ?_, fun i => by cases effective <;> simp⟩
  rw [stateAt_call]
  split_ifs with h
  · exact .inr ⟨h.2.2, rfl⟩
  · exact .inl rfl

theorem Advance.of_acked (h : Advance slots slots') (hi : stateAt slots i = some .acked) :
    stateAt slots' i = some .acked := by
  rcases h.state i with hsame | ⟨-, hacked⟩
  · exact hsame.trans hi
  · exact hacked

theorem Advance.eq_of_ne_acked (h : Advance slots slots') (hi : stateAt slots' i ≠ some .acked) :
    stateAt slots' i = stateAt slots i :=
  (h.state i).resolve_right fun hacked => hi hacked.2

end

/-! ## One step -/

section

variable {r : ISBReader} {s : ReadState}

section

variable (h : Orderly r s)

include h

variable {s' : ReadState} {first e : TrackerEntry Int} {v eventTime : Int} {watermark : Option Int}
  {wip : WipLoop} {state : MessageState} {effective : Bool} {result : CallResult}
  {action : ReaderAction}

/-- A step that notes no watermark and tracks the same messages with the same wip loops: the
messages that are pending afterwards come last, after those that wait in the batch. -/
theorem Orderly.of_noted (hnoted : ∀ i, noted s'.reader.slots i = noted s.reader.slots i)
    (hwips : s'.reader.wips = s.reader.wips) (hattaching : s'.reader.attaching = s.reader.attaching)
    (hentries : ∀ e, e ∈ s'.tracker.entriesOf r.partition ↔ e ∈ s.tracker.entriesOf r.partition)
    (hacked : ∀ i, stateAt s.reader.slots i = some .acked → stateAt s'.reader.slots i = some .acked)
    (hflying : ∀ i, stateAt s.reader.slots i = some .inFlight →
      stateAt s'.reader.slots i = some .inFlight ∨ stateAt s'.reader.slots i = some .acked)
    (hkept : ∀ i watermark, s.reader.attaching = some (i, watermark) →
      stateAt s.reader.slots i = some .inFlight → stateAt s'.reader.slots i = some .inFlight)
    (hnoDelay : ∀ i, stateAt s'.reader.slots i ≠ some .delayed)
    (hpending : ∀ i, stateAt s'.reader.slots i = some .pending →
      (∀ j, noted s.reader.slots j ≠ none → j < i) ∧ ∀ j ∈ s'.reader.waiting, j < i)
    (hwaiting : ∀ i ∈ s'.reader.waiting, (∀ j, noted s.reader.slots j ≠ none → j < i) ∧
      stateAt s'.reader.slots i = some .inFlight)
    (hsorted : s'.reader.waiting.Pairwise (· < ·)) : Orderly r s' := by
  have htracked : ∀ i, s'.tracker.Tracked r.partition i ↔ s.tracker.Tracked r.partition i :=
    fun i => exists_congr fun e => and_congr_left fun _ => hentries e
  refine ⟨hnoDelay, fun i j hi hj => ?_, fun i hi j hj => (hpending j hj).2 i hi,
    fun i hi j hj => ?_, hsorted, fun i hi => (hwaiting i hi).2, fun i watermark hi => ?_,
    fun e he => ?_, fun i v hi => ?_, fun i j v v' hij hi hj => ?_, fun i v hi => ?_,
    fun wip hwip htr => ?_, fun wip hwip htr => ?_, fun wip hwip hphase => ?_, hwips ▸ h.noNak⟩
  · rw [hnoted] at hj
    exact (hpending i hi).1 j hj
  · rw [hnoted] at hj
    exact (hwaiting i hi).1 j hj
  · rw [hattaching] at hi
    obtain ⟨hwatermark, hnot, hstate⟩ := h.attaching i watermark hi
    rw [hnoted, htracked]
    exact ⟨hwatermark, hnot, hkept i watermark hi hstate⟩
  · simp only [hnoted]
    exact h.entries e ((hentries e).mp he)
  · rw [hnoted] at hi
    rw [hattaching, htracked]
    exact (h.tracked i v hi).imp_left (hacked i)
  · rw [hnoted] at hi hj
    exact h.mono i j v v' hij hi hj
  · rw [hnoted] at hi
    exact h.positive i v hi
  · rw [hwips] at hwip
    rw [hnoted]
    obtain ⟨hn, hstate⟩ := h.held wip hwip htr
    exact ⟨hn, hstate.elim (hflying _) fun hi => .inr (hacked _ hi)⟩
  · rw [hwips] at hwip
    rw [hattaching]
    exact h.apart wip hwip htr
  · rw [hwips] at hwip
    exact hacked _ (h.acked wip hwip hphase)

/-- A step that delivers nothing, attaches nothing and tracks the same messages. -/
theorem Orderly.frame (hslots : Advance s.reader.slots s'.reader.slots)
    (hwips : s'.reader.wips = s.reader.wips) (hwaiting : s'.reader.waiting.Sublist s.reader.waiting)
    (hattaching : s'.reader.attaching = s.reader.attaching)
    (hsame : ∀ i, i ∈ s'.reader.waiting ∨ (∃ watermark, s'.reader.attaching = some (i, watermark)) →
      stateAt s'.reader.slots i = stateAt s.reader.slots i)
    (hentries : ∀ e, e ∈ s'.tracker.entriesOf r.partition ↔ e ∈ s.tracker.entriesOf r.partition) :
    Orderly r s' := by
  refine h.of_noted hslots.noted hwips hattaching hentries (fun _ => hslots.of_acked)
    (fun i hi => ?_) (fun i watermark hi hstate => ?_) (fun i hi => ?_) (fun i hi => ?_)
    (fun i hi => ?_) (h.sorted.sublist hwaiting)
  · exact (hslots.state i).imp (fun hsame => hsame.trans hi) And.right
  · rw [hsame i (.inr ⟨watermark, hattaching.trans hi⟩)]
    exact hstate
  · exact h.noDelay i ((hslots.eq_of_ne_acked (by rw [hi]; exact nofun)) ▸ hi)
  · have hold := (hslots.eq_of_ne_acked (by rw [hi]; exact nofun)) ▸ hi
    exact ⟨fun j => h.delivered i j hold, fun j hj => h.below j (hwaiting.subset hj) i hold⟩
  · refine ⟨h.ahead i (hwaiting.subset hi), ?_⟩
    rw [hsame i (.inl hi)]
    exact h.inFlight i (hwaiting.subset hi)

variable {tracker : Tracker Int} {i offset : Nat} {batch : List Nat}

/-- A step of another reader. -/
theorem Orderly.other
    (hentries : ∀ e, e ∈ tracker.entriesOf r.partition ↔ e ∈ s.tracker.entriesOf r.partition) :
    Orderly r { s with tracker := tracker } :=
  h.frame (.refl _) rfl (Sublist.refl _) rfl (fun _ _ => rfl) hentries

/-- A message without watermark is not tracked. -/
theorem Orderly.not_tracked (hi : noted s.reader.slots i = none) :
    ¬ s.tracker.Tracked r.partition i := by
  rintro ⟨e, he, hoffset⟩
  obtain ⟨j, v, hj, -, hnoted⟩ := h.entries e he
  rw [← Int.ofNat_inj.mp (hj.symm.trans hoffset), hnoted] at hi
  cases hi

theorem Orderly.noted_waiting (hi : i ∈ s.reader.waiting) : noted s.reader.slots i = none := by
  by_contra hnoted
  exact Nat.lt_irrefl i (h.ahead i hi i hnoted)

/-- The first entry of the partition has the lowest watermark. -/
theorem Orderly.first_le (hfirst : (s.tracker.entriesOf r.partition).first = some first)
    (he : e ∈ s.tracker.entriesOf r.partition) (hv : e.watermark = some (fromTimestampMillis v)) :
    ∃ v₀, first.watermark = some (fromTimestampMillis v₀) ∧ v₀ ≤ v := by
  obtain ⟨i, v₀, hi, hwatermark, hnoted⟩ := h.entries first (OrdSet.first_mem hfirst)
  obtain ⟨j, v', hj, hwatermark', hnoted'⟩ := h.entries e he
  have hvv : v' = v := by
    have := some.inj (hwatermark'.symm.trans hv)
    unfold fromTimestampMillis at this
    omega
  subst hvv
  refine ⟨v₀, hwatermark, ?_⟩
  have hle := OrdSet.first_le hfirst he
  rw [hi, hj, Int.ofNat_le] at hle
  rcases hle.lt_or_eq with hlt | rfl
  · exact h.mono i j v₀ v' hlt hnoted hnoted'
  · exact (some.inj (hnoted.symm.trans hnoted')).le

/-- A message is written to the buffer. -/
theorem Orderly.write (typ : MessageType) (eventTime : Int) : Orderly r
      { s with reader.slots := s.reader.slots ++ [{ typ := typ, eventTime := eventTime }] } := by
  have hkeep : ∀ i state, stateAt s.reader.slots i = some state →
      stateAt (s.reader.slots ++ [{ typ := typ, eventTime := eventTime }]) i = some state := by
    intro i state hi
    rw [stateAt_append, if_neg]
    · exact hi
    · rintro rfl
      simp [stateAt] at hi
  have hnew : ∀ i state, stateAt (s.reader.slots ++ [{ typ := typ, eventTime := eventTime }]) i =
      some state → i = s.reader.slots.length ∧ state = .pending ∨
        stateAt s.reader.slots i = some state := by
    intro i state hi
    rw [stateAt_append] at hi
    split_ifs at hi with hlast
    · exact .inl ⟨hlast, (some.inj hi).symm⟩
    · exact .inr hi
  have hlt : ∀ i, stateAt s.reader.slots i ≠ none → i < s.reader.slots.length := by
    intro i hi
    by_contra hge
    exact hi (by simp [stateAt, getElem?_eq_none (Nat.le_of_not_lt hge)])
  have hnoted : ∀ i, noted s.reader.slots i ≠ none → i < s.reader.slots.length := by
    intro i hi
    by_contra hge
    exact hi (by simp [noted, getElem?_eq_none (Nat.le_of_not_lt hge)])
  refine h.of_noted (fun i => noted_append _ i typ eventTime) rfl rfl (fun _ => Iff.rfl)
    (fun i => hkeep i _) (fun i hi => .inl (hkeep i _ hi)) (fun i _ _ => hkeep i _)
    (fun i hi => ?_) (fun i hi => ?_) (fun i hi => ⟨h.ahead i hi, hkeep i _ (h.inFlight i hi)⟩)
    h.sorted
  · rcases hnew i _ hi with ⟨-, hstate⟩ | hi
    · cases hstate
    · exact h.noDelay i hi
  · rcases hnew i _ hi with ⟨rfl, -⟩ | hi
    · exact ⟨hnoted, fun j hj => hlt j (by simp [h.inFlight j hj])⟩
    · exact ⟨fun j => h.delivered i j hi, fun j hj => h.below j hj i hi⟩

/-- The fetched messages come after all that have their watermarks and before all that are
left in the buffer. -/
theorem Orderly.fetch (hphase : s.reader.phase = .fetching) (max : Nat) : Orderly r
      { s with
        reader :=
          { s.reader with
            slots := deliver s.reader.slots (deliverable s.reader.slots max)
            phase := .fetched (deliverable s.reader.slots max) } } := by
  have hnone : s.reader.attaching = none := by rw [ReaderState.attaching, hphase]
  -- a message that is not pending stays as it is
  have hkeep : ∀ i state, state ≠ .pending → stateAt s.reader.slots i = some state →
      stateAt (deliver s.reader.slots (deliverable s.reader.slots max)) i = some state := by
    intro i state hne hi
    rw [stateAt_deliver, if_neg]
    · exact hi
    · intro hmem
      exact hne (some.inj (hi.symm.trans (mem_deliverable hmem)))
  have hpending : ∀ i, stateAt (deliver s.reader.slots (deliverable s.reader.slots max)) i =
      some .pending → stateAt s.reader.slots i = some .pending ∧
        i ∉ deliverable s.reader.slots max := by
    intro i hi
    rw [stateAt_deliver] at hi
    split_ifs at hi with hmem
    · obtain ⟨_, -, hstate⟩ := map_eq_some_iff.mp hi
      cases hstate
    · exact ⟨hi, hmem⟩
  refine h.of_noted (fun i => noted_deliver _ i _) rfl hnone.symm (fun _ => Iff.rfl)
    (fun i => hkeep i _ nofun) (fun i hi => .inl (hkeep i _ nofun hi))
    (fun i _ _ => hkeep i _ nofun) (fun i hi => ?_) (fun i hi => ?_) (fun i hi => ?_)
    (sorted_deliverable _ _)
  · simp only [stateAt_deliver] at hi
    split_ifs at hi
    · obtain ⟨_, -, hstate⟩ := map_eq_some_iff.mp hi
      cases hstate
    · exact h.noDelay i hi
  · obtain ⟨hi, hnot⟩ := hpending i hi
    refine ⟨fun j => h.delivered i j hi, fun j hj => ?_⟩
    rcases Nat.lt_trichotomy j i with hlt | rfl | hgt
    · exact hlt
    · exact absurd hj hnot
    · exact absurd (mem_deliverable_of_lt hj hgt hi) hnot
  · have hi : i ∈ deliverable s.reader.slots max := hi
    refine ⟨fun j => h.delivered i j (mem_deliverable hi), ?_⟩
    rw [stateAt_deliver, if_pos hi, mem_deliverable hi]
    rfl

/-- A message gets its watermark, which is not below the earlier ones. -/
theorem Orderly.attach {watermark : Int} (hphase : s.reader.phase = .processing (offset :: batch))
    (hok : Steady s (.attach watermark)) : Orderly r
      { s with
        reader :=
          { s.reader with
            slots := noteWatermark s.reader.slots offset watermark
            phase := .attached offset (some (fromTimestampMillis watermark)) batch } } := by
  have hwaiting : s.reader.waiting = offset :: batch := by rw [waiting, hphase]
  have hnone : s.reader.attaching = none := by rw [ReaderState.attaching, hphase]
  have hoffset : offset ∈ s.reader.waiting := by
    rw [hwaiting]
    exact mem_cons_self
  have hbatch : ∀ i ∈ batch, i ∈ s.reader.waiting := by
    intro i hi
    rw [hwaiting]
    exact mem_cons_of_mem _ hi
  have hsorted := h.sorted
  rw [hwaiting, pairwise_cons] at hsorted
  have hfree := h.noted_waiting hoffset
  have hlt : offset < s.reader.slots.length := by
    by_contra hge
    have hstate := h.inFlight offset hoffset
    simp [stateAt, getElem?_eq_none (Nat.le_of_not_lt hge)] at hstate
  have hself : noted (noteWatermark s.reader.slots offset watermark) offset = some watermark := by
    rw [noted_noteWatermark, if_pos ⟨rfl, hlt⟩, hfree]
    rfl
  have hother : ∀ i, i ≠ offset →
      noted (noteWatermark s.reader.slots offset watermark) i = noted s.reader.slots i := by
    intro i hi
    rw [noted_noteWatermark, if_neg fun h => hi h.1]
  have hnoted : ∀ i v, noted s.reader.slots i = some v →
      noted (noteWatermark s.reader.slots offset watermark) i = some v := by
    intro i v hi
    rw [hother i]
    · exact hi
    · rintro rfl
      cases hfree.symm.trans hi
  have hearlier : ∀ i v, noted s.reader.slots i = some v → v ≤ watermark := by
    intro i v hi
    obtain ⟨slot, hslot, hv⟩ := bind_eq_some_iff.mp hi
    exact hok.2 slot (mem_of_getElem? hslot) v hv
  refine ⟨fun i hi => h.noDelay i (by simpa using hi), fun i j hi hj => ?_,
    fun i hi j hj => h.below i (hbatch i hi) j (by simpa using hj), fun i hi j hj => ?_, hsorted.2,
    fun i hi => by simpa using h.inFlight i (hbatch i hi), fun i w hi => ?_, fun e he => ?_,
    fun i v hi => ?_, fun i j v v' hij hi hj => ?_, fun i v hi => ?_, fun wip hwip htr => ?_,
    fun wip hwip htr w hw => ?_, (by simpa using h.acked),
    h.noNak⟩
  · rw [stateAt_noteWatermark] at hi
    by_cases hj' : j = offset
    · rw [hj']
      exact h.below offset hoffset i hi
    · rw [hother j hj'] at hj
      exact h.delivered i j hi hj
  · by_cases hj' : j = offset
    · rw [hj']
      exact hsorted.1 i hi
    · rw [hother j hj'] at hj
      exact h.ahead i (hbatch i hi) j hj
  · cases hi
    refine ⟨⟨watermark, rfl, hself⟩, h.not_tracked hfree, ?_⟩
    rw [stateAt_noteWatermark]
    exact h.inFlight _ hoffset
  · obtain ⟨i, v, hi, hwatermark, hv⟩ := h.entries e he
    exact ⟨i, v, hi, hwatermark, hnoted i v hv⟩
  · by_cases hi' : i = offset
    · exact .inr (.inl ⟨_, by rw [hi']; rfl⟩)
    · rw [hother i hi'] at hi
      rw [stateAt_noteWatermark]
      rcases h.tracked i v hi with hacked | ⟨w, hw⟩ | htracked
      · exact .inl hacked
      · cases hnone.symm.trans hw
      · exact .inr (.inr htracked)
  · by_cases hj' : j = offset
    · rw [hj', hself, some.injEq] at hj
      rw [hother i (by omega)] at hi
      rw [← hj]
      exact hearlier i v hi
    · rw [hother j hj'] at hj
      by_cases hi' : i = offset
      · have := h.ahead offset hoffset j (by simp [hj])
        omega
      · rw [hother i hi'] at hi
        exact h.mono i j v v' hij hi hj
  · by_cases hi' : i = offset
    · rw [hi', hself, some.injEq] at hi
      rw [← hi]
      exact hok.1
    · rw [hother i hi'] at hi
      exact h.positive i v hi
  · obtain ⟨hn, hstate⟩ := h.held wip hwip htr
    obtain ⟨v, hv⟩ := ne_none_iff_exists'.mp hn
    rw [hnoted _ v hv, stateAt_noteWatermark]
    exact ⟨some_ne_none v, hstate⟩
  · have heq := (Prod.mk.inj (some.inj hw)).1
    rw [heq] at hfree
    exact (h.held wip hwip htr).1 hfree

/-- The message with its watermark is tracked. -/
theorem Orderly.track (hphase : s.reader.phase = .attached offset watermark batch)
    (hinsert : s.tracker.insert r.partition ⟨offset, watermark, eventTime⟩ = some tracker) :
    Orderly r ⟨{ s.reader.spawnWipLoop offset with phase := .sending offset batch }, tracker⟩ := by
  have hwaiting : s.reader.waiting = batch := by rw [waiting, hphase]
  have hattaching : s.reader.attaching = some (offset, watermark) := by
    rw [ReaderState.attaching, hphase]
  obtain ⟨⟨v, hwatermark, hnoted⟩, -, hstate⟩ := h.attaching offset watermark hattaching
  refine ⟨h.noDelay, h.delivered, hwaiting ▸ h.below, hwaiting ▸ h.ahead, hwaiting ▸ h.sorted,
    hwaiting ▸ h.inFlight, nofun, fun e he => ?_, fun i v hi => ?_, h.mono, h.positive, ?_, nofun,
    ?_, ?_⟩
  · rcases (mem_entriesOf_insert hinsert).mp he with he | ⟨-, rfl⟩
    · exact h.entries e he
    · exact ⟨offset, v, rfl, hwatermark, hnoted⟩
  · rw [tracked_insert hinsert]
    rcases h.tracked i v hi with hacked | ⟨w, hw⟩ | htracked
    · exact .inl hacked
    · have heq := (Prod.mk.inj (some.inj (hattaching.symm.trans hw))).1
      exact .inr (.inr (.inr ⟨rfl, by rw [heq]⟩))
    · exact .inr (.inr (.inl htracked))
  · refine forall_mem_concat.mpr ⟨h.held, fun _ => ?_⟩
    exact ⟨fun hnone => (by cases hnoted.symm.trans hnone), .inl hstate⟩
  · exact forall_mem_concat.mpr ⟨h.acked, nofun⟩
  · exact forall_mem_concat.mpr ⟨h.noNak, nofun⟩

/-- A step of a wip loop; only acked messages leave the tracker. -/
theorem Orderly.setPhase {permits : Nat} {phase : WipPhase} (hwip : s.reader.wips[i]? = some wip)
    (htr : WipLoop.tracking { wip with phase := phase } = true → wip.tracking = true)
    (hacked : phase = .deleting → stateAt s.reader.slots wip.offset = some .acked)
    (hnoNak : ∀ options, phase ≠ .naking options)
    (hentries : ∀ e ∈ tracker.entriesOf r.partition, e ∈ s.tracker.entriesOf r.partition)
    (htracked : ∀ i : Nat, s.tracker.Tracked r.partition i →
      stateAt s.reader.slots i = some .acked ∨ tracker.Tracked r.partition i) :
    Orderly r ⟨{ s.reader.setPhase i wip phase with permits := permits }, tracker⟩ := by
  have hmem := mem_of_getElem? hwip
  refine ⟨h.noDelay, h.delivered, h.below, h.ahead, h.sorted, h.inFlight,
    fun j watermark hj => ?_, fun e he => h.entries e (hentries e he), fun j v hj => ?_, h.mono,
    h.positive, fun w hw htracking => ?_, fun w hw htracking => ?_, fun w hw hdeleting => ?_,
    fun w hw options hnaking => ?_⟩
  · obtain ⟨hnoted, hnot, hstate⟩ := h.attaching j watermark hj
    refine ⟨hnoted, ?_, hstate⟩
    rintro ⟨e, he, hoffset⟩
    exact hnot ⟨e, hentries e he, hoffset⟩
  · rcases h.tracked j v hj with hj' | hj' | hj'
    · exact .inl hj'
    · exact .inr (.inl hj')
    · exact (htracked j hj').imp_right .inr
  · rcases mem_or_eq_of_mem_set hw with hw | rfl
    · exact h.held w hw htracking
    · exact h.held wip hmem (htr htracking)
  · rcases mem_or_eq_of_mem_set hw with hw | rfl
    · exact h.apart w hw htracking
    · exact h.apart wip hmem (htr htracking)
  · rcases mem_or_eq_of_mem_set hw with hw | rfl
    · exact h.acked w hw hdeleting
    · exact hacked hdeleting
  · rcases mem_or_eq_of_mem_set hw with hw | rfl
    · exact h.noNak w hw options hnaking
    · exact hnoNak options hnaking

/-- A call of a wip loop acks the message. -/
theorem Orderly.call (hwip : s.reader.wips[i]? = some wip)
    (hcalls : wip.Calls state) (hok : TakesEffect s i effective result) :
    Orderly r (s.callBuffer i wip state effective result) := by
  have hmem := mem_of_getElem? hwip
  have htr : wip.tracking = true := by
    rcases hcalls with ⟨hphase, -⟩ | ⟨options, hphase, -⟩ <;> simp [WipLoop.tracking, hphase]
  obtain rfl : state = .acked := by
    rcases hcalls with ⟨-, hstate⟩ | ⟨options, hnaking, -⟩
    · exact hstate
    · exact absurd hnaking (h.noNak wip hmem options)
  obtain ⟨hnoted, hheld⟩ := h.held wip hmem htr
  -- the message is not in the hands of the reader
  have hne : ∀ j, j ∈ s.reader.waiting ∨ (∃ watermark, s.reader.attaching = some (j, watermark)) →
      j ≠ wip.offset := by
    rintro j (hj | ⟨watermark, hj⟩) rfl
    · exact hnoted (h.noted_waiting hj)
    · exact h.apart wip hmem htr watermark hj
  have hslots : Orderly r
      { s with
        reader.slots :=
          if effective then settleSlot s.reader.slots wip.offset .acked else s.reader.slots } := by
    refine h.frame (.call _ _ _) rfl (Sublist.refl _) rfl (fun j hj => ?_) fun _ => Iff.rfl
    rw [stateAt_call, if_neg fun h => hne j hj h.2.1]
  unfold ReadState.callBuffer
  by_cases hends : endsRetry s.reader.cancelled result = true
  · simp only [hends, if_true]
    refine hslots.setPhase hwip (fun _ => htr) (fun _ => ?_) nofun (fun _ => id)
      fun _ hj => .inr hj
    rw [stateAt_call]
    split_ifs with hsame
    · rfl
    · refine hheld.resolve_left fun hi => ?_
      rcases hok hends with heffective | hsettled
      · exact hsame ⟨heffective, rfl, hi⟩
      · exact hsettled wip hwip hi
  · simp only [hends]
    exact hslots

/-- The reader acks a control message, and goes on or stops. -/
theorem Orderly.wmb (hphase : s.reader.phase = .processing (offset :: batch))
    (effective : Bool) (result : CallResult) :
    Orderly r (s.stepWmb offset batch effective result) := by
  have hwaiting : s.reader.waiting = offset :: batch := by rw [waiting, hphase]
  have hnone : s.reader.attaching = none := by rw [ReaderState.attaching, hphase]
  have hsorted := h.sorted
  rw [hwaiting, pairwise_cons] at hsorted
  have hslots := Advance.call effective s.reader.slots offset
  have hsame : ∀ i ∈ batch, stateAt
      (if effective then settleSlot s.reader.slots offset .acked else s.reader.slots) i =
        stateAt s.reader.slots i := by
    intro i hi
    rw [stateAt_call, if_neg fun h => (hsorted.1 i hi).ne' h.2.1]
  unfold ReadState.stepWmb
  by_cases hresult : result = .ok
  · simp only [if_pos hresult]
    refine h.frame (by simpa using hslots) (by simp) (by simp [hwaiting]) (by simp [hnone])
      (fun i hi => ?_) fun _ => Iff.rfl
    simp only [waiting_processMessageBatch, attaching_processMessageBatch,
      reduceCtorEq, exists_false, or_false] at hi
    simpa using hsame i hi
  · simp only [if_neg hresult]
    refine h.frame hslots rfl (nil_sublist _) hnone.symm (fun i hi => ?_) fun _ => Iff.rfl
    rcases hi with hi | ⟨watermark, hi⟩ <;> cases hi

/-- One step keeps the order of the deliveries, and keeps every message that has its watermark and
is not acked in the tracker, except for the moment before it is inserted. -/
theorem Orderly.step (hwatermarking : r.watermarking = true)
    (hok : Steady s action) : Orderly r (s.step r action) := by
  have hstep := step_spec r s action
  generalize s.step r action = s' at hstep
  cases hstep with
  | same => exact h
  | write typ eventTime => exact h.write typ eventTime
  | cancel =>
    exact h.frame (.refl _) rfl (Sublist.refl _) rfl (fun _ _ => rfl) fun _ => Iff.rfl
  | expire offset =>
    have hsame : ∀ i, stateAt (Isb.expire s.reader.slots offset) i = stateAt s.reader.slots i := by
      intro i
      rw [stateAt_expire, if_neg fun hdelayed => h.noDelay i hdelayed.2]
    exact h.frame ⟨fun i => .inl (hsame i), fun i => noted_expire _ _ _⟩ rfl
      (Sublist.refl _) rfl (fun i _ => hsame i) fun _ => Iff.rfl
  | stop hphase | enter hphase | acquire hphase =>
    exact h.frame (.refl _) rfl (nil_sublist _) (by simp [ReaderState.attaching, hphase])
      (fun _ _ => rfl) fun _ => Iff.rfl
  | fetch _ hphase => exact h.fetch hphase _
  | idle batch _ _ hphase htracker =>
    have hwaiting : s.reader.waiting = batch := by rw [waiting, hphase]
    have hnone : s.reader.attaching = none := by rw [ReaderState.attaching, hphase]
    refine h.frame ?_ (by simp) (by simp [hwaiting]) (by simp [hnone]) (by simp) fun e => ?_
    · rw [slots_processMessageBatch]
      exact .refl _
    · rcases htracker with ⟨rfl, -⟩ | ⟨x, rfl, -⟩ <;> exact Iff.rfl
  | wmb _ _ effective result hphase => exact h.wmb hphase effective result
  | attach _ _ _ hphase => exact h.attach hphase hok
  | attachNone _ _ _ _ hoff => cases hoff.symm.trans hwatermarking
  | track _ _ _ _ _ hphase hinsert => exact h.track hphase hinsert
  | duplicate offset watermark _ hphase htracked =>
    have hattaching : s.reader.attaching = some (offset, watermark) := by
      rw [ReaderState.attaching, hphase]
    exact absurd htracked (h.attaching offset watermark hattaching).2.1
  | invalid => cases hok
  | send _ batch _ hphase =>
    have hwaiting : s.reader.waiting = batch := by rw [waiting, hphase]
    have hnone : s.reader.attaching = none := by rw [ReaderState.attaching, hphase]
    refine h.frame ?_ (by simp) ?_ (by simp [hnone]) (by simp) fun _ => Iff.rfl
    · rw [slots_processMessageBatch]
      exact .refl _
    · rw [waiting_processMessageBatch, hwaiting]
      split_ifs
      · exact Sublist.refl _
      · exact nil_sublist _
  | outcome i _ _ phase hwip hphase hnext =>
    obtain rfl : phase = .acking := by
      rcases hnext with ⟨rfl, -⟩ | ⟨options, -, hnak⟩
      · rfl
      · cases hnak.symm.trans hok
    exact h.setPhase hwip (fun _ => by simp [WipLoop.tracking, hphase]) nofun nofun
      (fun _ => id) fun _ hj => .inr hj
  | call i _ _ _ _ hwip hcalls => exact h.call hwip hcalls hok
  | delete i wip hwip hphase =>
    refine h.setPhase hwip nofun nofun nofun (fun e he => (mem_entriesOf_delete.mp he).1)
      fun j hj => ?_
    by_cases hj' : j = wip.offset
    · rw [hj']
      exact .inl (h.acked wip (mem_of_getElem? hwip) hphase)
    · exact .inr (tracked_delete.mpr ⟨hj, fun heq => hj' (Int.ofNat_inj.mp heq.2)⟩)
  | release i _ hwip =>
    exact h.setPhase hwip nofun nofun nofun (fun _ => id) fun _ hj => .inr hj

end

variable {tracker : Tracker Int} {i p : Nat} {w : Int}

theorem Orderly.new (r : ISBReader) (htracker : ∀ e, e ∉ tracker.entriesOf r.partition)
    {permits : Nat} : Orderly r ⟨{ permits := permits }, tracker⟩ where
  noDelay i hi := by simp [stateAt] at hi
  delivered i j hi := by simp [stateAt] at hi
  below i hi := by cases hi
  ahead i hi := by cases hi
  sorted := Pairwise.nil
  inFlight i hi := by cases hi
  attaching i watermark hi := by cases hi
  entries e he := absurd he (htracker e)
  tracked i v hi := by simp [noted] at hi
  mono i j v v' _ hi := by simp [noted] at hi
  positive i v hi := by simp [noted] at hi
  held wip hwip := by cases hwip
  apart wip hwip := by cases hwip
  acked wip hwip := by cases hwip
  noNak wip hwip := by cases hwip

variable (action : ReaderAction)

/-- An acked message stays acked. -/
theorem stateAt_step_acked (hi : stateAt s.reader.slots i = some .acked) :
    stateAt (s.step r action).reader.slots i = some .acked := by
  have hsettle : ∀ effective offset state,
      stateAt (if effective = true then settleSlot s.reader.slots offset state else s.reader.slots) i =
        some .acked := by
    intro effective offset state
    rw [stateAt_call, if_neg]
    · exact hi
    · rintro ⟨-, -, hflying⟩
      cases hi.symm.trans hflying
  have hstep := step_spec r s action
  generalize s.step r action = s' at hstep
  cases hstep with
  | write typ eventTime => exact (Quiet.append _ typ eventTime).acked i hi
  | expire offset => exact (Quiet.expire _ offset).acked i hi
  | fetch =>
    simp only [stateAt_deliver]
    rw [if_neg]
    · exact hi
    · intro hmem
      cases hi.symm.trans (mem_deliverable hmem)
  | wmb _ _ _ result =>
    unfold ReadState.stepWmb
    by_cases hresult : result = .ok <;> simp [hresult, leave, hsettle]
  | call i _ _ _ result =>
    unfold ReadState.callBuffer
    cases hends : endsRetry s.reader.cancelled result <;> simp [hends, setPhase, hsettle]
  | attach
  | idle
  | duplicate | send =>
    simpa using hi
  | _ => exact hi

/-- Only an attach notes a watermark. -/
theorem noted_step (hi : noted (s.step r action).reader.slots i = some w) :
    noted s.reader.slots i = some w ∨ action = .attach w := by
  have hstep := step_spec r s action
  generalize s.step r action = s' at hstep hi
  cases hstep with
  | write =>
    simp only [noted_append] at hi
    exact .inl hi
  | expire | fetch | idle
  | duplicate | send =>
    exact .inl (by simpa using hi)
  | wmb _ _ effective result =>
    left
    unfold ReadState.stepWmb at hi
    cases effective <;> by_cases hresult : result = .ok <;> simpa [hresult, leave] using hi
  | call i _ _ effective result =>
    left
    unfold ReadState.callBuffer at hi
    cases effective <;> cases hends : endsRetry s.reader.cancelled result <;>
      simpa [hends, setPhase] using hi
  | attach =>
    simp only [noted_noteWatermark] at hi
    split_ifs at hi with hoffset
    · rcases or_eq_some_iff.mp hi with hi | ⟨-, hi⟩
      · exact .inl hi
      · rw [some.inj hi]
        exact .inr rfl
    · exact .inl hi
  | _ => exact .inl hi

/-- A step of a reader leaves the entries of other partitions alone. -/
theorem entriesOf_step (hp : p ≠ r.partition) :
    ∀ e, e ∈ (s.step r action).tracker.entriesOf p ↔ e ∈ s.tracker.entriesOf p := by
  have hstep := step_spec r s action
  generalize s.step r action = s' at hstep
  intro e
  cases hstep with
  | idle _ _ _ _ htracker =>
    rcases htracker with ⟨rfl, -⟩ | ⟨x, rfl, -⟩ <;> exact Iff.rfl
  | track _ _ _ _ _ _ hinsert =>
    rw [mem_entriesOf_insert hinsert]
    exact or_iff_left fun h => hp h.1
  | delete =>
    rw [mem_entriesOf_delete]
    exact and_iff_left fun h => hp h.1
  | _ => exact Iff.rfl

end

end Numaflow.Isb
