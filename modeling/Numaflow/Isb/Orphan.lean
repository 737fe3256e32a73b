import Numaflow.Isb.Reader

/-!
# Deliveries that nobody answers

A message in flight is waiting for an ack or a nak.  The wip loop of the message sends it,
as long as there is one.  A nak reaches the buffer before the message is deleted from the
tracker; when the message is delivered again in between, the reader drops the delivery as a
duplicate, and the wip loop that it counts on has done its work.

Main results: `Tended.step`, `tended_of_careful`, `nakThenRefetch_orphan`.
-/

namespace Numaflow.Isb

open Lib ReaderState WipLoop List

/-- No tracked message is fetched, no call that has to take effect is given up, and the
reader does not abandon messages of a batch. -/
def Careful (r : ISBReader) (s : ReadState) (action : ReaderAction) : Prop :=
  match action with
  | .fetch max => ∀ i ∈ deliverable s.reader.slots (min max r.batch),
      ¬ s.tracker.Tracked r.partition i
  | .ackWmb effective result => effective = true ∧ result = .ok
  | .insert valid => valid = true
  | .send isOpen => isOpen = true ∨ s.reader.inHand = []
  | .attempt i effective result => TakesEffect s i effective result
  | _ => True

instance (r : ISBReader) (s : ReadState) (action : ReaderAction) :
    Decidable (Careful r s action) := by
  apply action.casesOn (motive := fun a => Decidable (Careful r s a)) <;> intros <;>
    dsimp only [Careful] <;> infer_instance

/-- Every message in flight is in the hands of the reader or of a live wip loop. -/
structure Tended (r : ISBReader) (s : ReadState) : Prop where
  covered : ∀ i, stateAt s.reader.slots i = some .inFlight →
    i ∈ s.reader.inHand ∨ ∃ wip ∈ s.reader.wips, wip.offset = i ∧ wip.live = true
  tracked : ∀ wip ∈ s.reader.wips, wip.tracking = true →
    s.tracker.Tracked r.partition wip.offset
  settled : ∀ wip ∈ s.reader.wips, wip.phase = .deleting →
    stateAt s.reader.slots wip.offset ≠ some .inFlight
  unique : ∀ (i j : Nat) (wip wip' : WipLoop), s.reader.wips[i]? = some wip →
    s.reader.wips[j]? = some wip' → wip.tracking = true → wip'.tracking = true →
      wip.offset = wip'.offset → i = j
  untracked : ∀ i ∈ s.reader.inHand, ¬ s.tracker.Tracked r.partition i
  nodup : s.reader.inHand.Nodup

theorem WipLoop.tracking_of_live {wip : WipLoop} (h : wip.live = true) : wip.tracking = true := by
  obtain ⟨offset, phase⟩ := wip
  cases phase <;> first | rfl | cases h

variable {state : MessageState}

theorem WipLoop.Calls.live {wip : WipLoop} (h : wip.Calls state) : wip.live = true := by
  rcases h with ⟨hphase, -⟩ | ⟨options, hphase, -⟩ <;> simp [WipLoop.live, hphase]

section

variable {r : ISBReader} {s : ReadState} (h : Tended r s)

include h

variable {s' : ReadState} {tracker : Tracker Int} {watermark : Option Int} {batch : List Nat}
  {eventTime : Int} {effective : Bool} {result : CallResult} {action : ReaderAction}

/-- A step that leaves the wip loops and the tracker alone and takes no message out of the
buffer or out of the reader's hands. -/
theorem Tended.frame (hwips : s'.reader.wips = s.reader.wips)
    (hslots : ∀ i, stateAt s'.reader.slots i = some .inFlight →
      stateAt s.reader.slots i = some .inFlight ∧ (i ∈ s.reader.inHand → i ∈ s'.reader.inHand))
    (hinHand : s'.reader.inHand.Sublist s.reader.inHand)
    (htracker : ∀ i, s'.tracker.Tracked r.partition i ↔ s.tracker.Tracked r.partition i) :
    Tended r s' where
  covered i hi := by
    obtain ⟨hstate, hmem⟩ := hslots i hi
    rw [hwips]
    exact (h.covered i hstate).imp_left hmem
  tracked wip hwip htracking := by
    rw [htracker]
    rw [hwips] at hwip
    exact h.tracked wip hwip htracking
  settled wip hwip hphase hstate := by
    rw [hwips] at hwip
    exact h.settled wip hwip hphase (hslots _ hstate).1
  unique := by
    rw [hwips]
    exact h.unique
  untracked i hi := by
    rw [htracker]
    exact h.untracked i (hinHand.subset hi)
  nodup := h.nodup.sublist hinHand

/-- A step that does not change what is in the hands of the reader. -/
theorem Tended.frame_eq (hwips : s'.reader.wips = s.reader.wips)
    (hinHand : s'.reader.inHand = s.reader.inHand)
    (hslots : ∀ i, stateAt s'.reader.slots i = some .inFlight →
      stateAt s.reader.slots i = some .inFlight)
    (htracker : ∀ i, s'.tracker.Tracked r.partition i ↔ s.tracker.Tracked r.partition i) :
    Tended r s' :=
  h.frame hwips (fun i hi => ⟨hslots i hi, fun hmem => hinHand ▸ hmem⟩)
    (hinHand ▸ List.Sublist.refl _) htracker

variable {i : Nat} {wip : WipLoop}

/-- A step of a wip loop whose message is tracked.  Nothing changes for other messages. -/
theorem Tended.setPhase {phase : WipPhase} (hwip : s.reader.wips[i]? = some wip)
    (htracking : wip.tracking = true) {slots : List BufferSlot}
    (hslots : ∀ j, j ≠ wip.offset → stateAt slots j = some .inFlight →
      stateAt s.reader.slots j = some .inFlight)
    (hlive : stateAt slots wip.offset = some .inFlight →
      live { wip with phase := phase } = true) (htracker : ∀ j, j ≠ wip.offset →
      (tracker.Tracked r.partition j ↔ s.tracker.Tracked r.partition j))
    (hkept : tracking { wip with phase := phase } = true → tracker.Tracked r.partition wip.offset) :
    Tended r ⟨{ s.reader.setPhase i wip phase with slots := slots }, tracker⟩ := by
  -- the other wip loops that track a message track another one
  have hother : ∀ j w, j ≠ i → s.reader.wips[j]? = some w → w.tracking = true →
      w.offset ≠ wip.offset := fun j w hj hw htr heq =>
    hj (h.unique j i w wip hw hwip htr htracking heq)
  have hhand : ∀ j ∈ s.reader.inHand, j ≠ wip.offset := by
    rintro j hj rfl
    exact h.untracked _ hj (h.tracked wip (mem_of_getElem? hwip) htracking)
  refine ⟨fun j hj => ?_, fun w hw htr => ?_, fun w hw hphase hstate => ?_,
    fun j k w w' hw hw' htr htr' heq => ?_, fun j hj => ?_, h.nodup⟩
  · by_cases hoffset : j = wip.offset
    · subst hoffset
      exact .inr ⟨_, mem_set_self hwip, rfl, hlive hj⟩
    · refine (h.covered j (hslots j hoffset hj)).imp_right ?_
      rintro ⟨w, hw, rfl, hwlive⟩
      refine ⟨w, (eq_or_mem_set hwip hw).resolve_left fun heq => hoffset ?_, rfl, hwlive⟩
      rw [heq]
  · rcases mem_set_cases hw with rfl | ⟨j, hj, hwj⟩
    · exact hkept htr
    · rw [htracker w.offset (hother j w hj hwj htr)]
      exact h.tracked w (mem_of_getElem? hwj) htr
  · rcases mem_set_cases hw with rfl | ⟨j, hj, hwj⟩
    · have hlive' := hlive hstate
      subst hphase
      cases hlive'
    · have htr : w.tracking = true := by simp [tracking, hphase]
      exact h.settled w (mem_of_getElem? hwj) hphase
        (hslots w.offset (hother j w hj hwj htr) hstate)
  · rcases getElem?_set_cases hw with ⟨rfl, rfl⟩ | ⟨hj, hwj⟩
    · rcases getElem?_set_cases hw' with ⟨rfl, -⟩ | ⟨hk, hwk⟩
      · rfl
      · exact absurd heq.symm (hother k w' hk hwk htr')
    · rcases getElem?_set_cases hw' with ⟨rfl, rfl⟩ | ⟨-, hwk⟩
      · exact absurd heq (hother j w hj hwj htr)
      · exact h.unique j k w w' hwj hwk htr htr' heq
  · rw [htracker j (hhand j hj)]
    exact h.untracked j hj

/-- A wip loop that has deleted its message ends. -/
theorem Tended.release {permits : Nat} (hphase : wip.phase = .releasing)
    (hwip : s.reader.wips[i]? = some wip) : Tended r
      { s with reader := { s.reader.setPhase i wip .ended with permits := permits } } := by
  refine ⟨fun j hj => ?_, fun w hw htr => ?_, fun w hw hdeleting => ?_,
    fun j k w w' hw hw' htr htr' heq => ?_, h.untracked, h.nodup⟩
  · refine (h.covered j hj).imp_right ?_
    rintro ⟨w, hw, rfl, hwlive⟩
    refine ⟨w, (eq_or_mem_set hwip hw).resolve_left fun heq => ?_, rfl, hwlive⟩
    rw [heq, live, hphase] at hwlive
    cases hwlive
  · rcases mem_or_eq_of_mem_set hw with hw | rfl
    · exact h.tracked w hw htr
    · cases htr
  · rcases mem_or_eq_of_mem_set hw with hw | rfl
    · exact h.settled w hw hdeleting
    · cases hdeleting
  · rcases getElem?_set_cases hw with ⟨-, rfl⟩ | ⟨-, hwj⟩
    · cases htr
    · rcases getElem?_set_cases hw' with ⟨-, rfl⟩ | ⟨-, hwk⟩
      · cases htr'
      · exact h.unique j k w w' hwj hwk htr htr' heq

/-- The fetched messages are in the hands of the reader. -/
theorem Tended.fetch {offsets : List Nat} (hphase : s.reader.phase = .fetching)
    (hnodup : offsets.Nodup) (huntracked : ∀ i ∈ offsets, ¬ s.tracker.Tracked r.partition i) :
    Tended r
      { s with
        reader :=
          { s.reader with slots := deliver s.reader.slots offsets, phase := .fetched offsets } } := by
  have hempty : s.reader.inHand = [] := by rw [inHand, hphase]
  refine ⟨fun i hi => ?_, h.tracked, fun wip hwip hdeleting hstate => ?_, h.unique, huntracked,
    hnodup⟩
  · simp only [stateAt_deliver] at hi
    split_ifs at hi with hmem
    · exact .inl hmem
    · have hcovered := h.covered i hi
      rw [hempty] at hcovered
      exact .inr (hcovered.resolve_left not_mem_nil)
  · simp only [stateAt_deliver] at hstate
    split_ifs at hstate with hmem
    · have htr : wip.tracking = true := by simp [tracking, hdeleting]
      exact huntracked _ hmem (h.tracked wip hwip htr)
    · exact h.settled wip hwip hdeleting hstate

/-- A message passes from the hands of the reader to its wip loop. -/
theorem Tended.track {offset : Nat} (hphase : s.reader.phase = .attached offset watermark batch)
    (hinsert : s.tracker.insert r.partition ⟨offset, watermark, eventTime⟩ = some tracker) :
    Tended r ⟨{ s.reader.spawnWipLoop offset with phase := .sending offset batch }, tracker⟩ := by
  have hhand : s.reader.inHand = offset :: batch := by rw [inHand, hphase]
  have hnodup := h.nodup
  rw [hhand, nodup_cons] at hnodup
  have hnew := h.untracked offset (by rw [hhand]; exact mem_cons_self)
  have hold : ∀ wip ∈ s.reader.wips, wip.tracking = true → wip.offset ≠ offset := by
    rintro wip hwip htr rfl
    exact hnew (h.tracked wip hwip htr)
  refine ⟨fun i hi => ?_, ?_, forall_mem_concat.mpr ⟨h.settled, by simp⟩,
    fun j k wip wip' hj hk htr htr' heq => ?_, fun i hi => ?_, hnodup.2⟩
  · rcases h.covered i hi with hmem | ⟨wip, hwip, hoffset, hlive⟩
    · rw [hhand, mem_cons] at hmem
      rcases hmem with rfl | hmem
      · exact .inr ⟨⟨i, .waiting⟩, mem_append_right _ mem_cons_self, rfl, rfl⟩
      · exact .inl hmem
    · exact .inr ⟨wip, mem_append_left _ hwip, hoffset, hlive⟩
  · simp only [Tracker.tracked_insert hinsert]
    exact forall_mem_append.mpr ⟨fun wip hwip htr => .inl (h.tracked wip hwip htr),
      forall_mem_singleton.mpr fun _ => .inr ⟨trivial, rfl⟩⟩
  · rcases getElem?_append_singleton_cases hj with hj | ⟨rfl, rfl⟩
    · rcases getElem?_append_singleton_cases hk with hk | ⟨rfl, rfl⟩
      · exact h.unique j k wip wip' hj hk htr htr' heq
      · exact absurd heq (hold wip (mem_of_getElem? hj) htr)
    · rcases getElem?_append_singleton_cases hk with hk | ⟨rfl, rfl⟩
      · exact absurd heq.symm (hold wip' (mem_of_getElem? hk) htr')
      · rfl
  · rw [Tracker.tracked_insert hinsert]
    rintro (hi' | ⟨-, heq⟩)
    · exact h.untracked i (by rw [hhand]; exact mem_cons_of_mem _ hi) hi'
    · rw [Int.ofNat_inj.mp heq] at hi
      exact hnodup.1 hi

/-- A call of a wip loop: once it is not repeated, the message is not in flight. -/
theorem Tended.call (hwip : s.reader.wips[i]? = some wip)
    (hcalls : wip.Calls state) (hok : TakesEffect s i effective result) :
    Tended r (s.callBuffer i wip state effective result) := by
  have hstate : state ≠ .inFlight := by
    rcases hcalls with ⟨-, rfl⟩ | ⟨options, -, rfl⟩
    · exact nofun
    · unfold nakState
      split_ifs <;> exact nofun
  have hslots : ∀ j, stateAt (if effective then settleSlot s.reader.slots wip.offset state
      else s.reader.slots) j = some .inFlight →
        stateAt s.reader.slots j = some .inFlight ∧ (effective = true → j ≠ wip.offset) := by
    intro j hj
    rw [stateAt_call] at hj
    split_ifs at hj with hsame
    · exact absurd (Option.some.inj hj) hstate
    · exact ⟨hj, fun heffective heq => hsame ⟨heffective, heq, hj⟩⟩
  have htr := tracking_of_live hcalls.live
  unfold ReadState.callBuffer
  by_cases hends : endsRetry s.reader.cancelled result = true
  · simp only [hends, if_true]
    refine h.setPhase hwip htr (fun j _ hj => (hslots j hj).1) (fun hj => ?_) (fun j _ => Iff.rfl)
      fun _ => h.tracked wip (mem_of_getElem? hwip) htr
    rcases hok hends with heffective | hsettled
    · exact absurd rfl ((hslots _ hj).2 heffective)
    · exact absurd (hslots _ hj).1 (hsettled wip hwip)
  · simp only [hends]
    exact h.frame_eq rfl rfl (fun j hj => (hslots j hj).1) fun _ => Iff.rfl

/-- The reader acks a control message and goes on. -/
theorem Tended.wmb {offset : Nat} (hphase : s.reader.phase = .processing (offset :: batch)) :
    Tended r (s.stepWmb offset batch true .ok) := by
  have hhand : s.reader.inHand = offset :: batch := by rw [inHand, hphase]
  unfold ReadState.stepWmb
  refine h.frame (by simp) (fun i hi => ?_) (by simp [hhand]) fun _ => Iff.rfl
  simp only [if_true, slots_processMessageBatch, stateAt_settleSlot] at hi
  split_ifs at hi with hsame
  · cases hi
  · refine ⟨hi, fun hmem => ?_⟩
    rw [hhand, mem_cons] at hmem
    simpa using hmem.resolve_left fun heq => hsame ⟨heq, hi⟩

/-- One step keeps every message in flight in the hands of the reader or of a wip loop. -/
theorem Tended.step (hok : Careful r s action) : Tended r (s.step r action) := by
  have hstep := step_spec r s action
  generalize s.step r action = s' at hstep
  obtain ⟨⟨slots, readerPhase, permits, held, wips, cancelled⟩, tracker⟩ := s
  cases hstep with
  | same => exact h
  | write typ eventTime =>
    exact h.frame_eq rfl rfl (Quiet.append _ typ eventTime).inFlight fun _ => Iff.rfl
  | cancel => exact h.frame_eq rfl rfl (fun _ => id) fun _ => Iff.rfl
  | expire offset => exact h.frame_eq rfl rfl (Quiet.expire _ offset).inFlight fun _ => Iff.rfl
  | stop hphase | enter hphase | acquire hphase | attachNone _ _ _ hphase =>
    cases hphase
    exact h.frame_eq rfl rfl (fun _ => id) fun _ => Iff.rfl
  | fetch _ hphase => exact h.fetch hphase ((sorted_deliverable _ _).imp Nat.ne_of_lt) hok
  | idle _ _ _ hphase htracker =>
    cases hphase
    refine h.frame_eq (by simp) (by simp; rfl) (fun i hi => by simpa using hi) fun i => ?_
    rcases htracker with ⟨rfl, -⟩ | ⟨x, rfl, -⟩
    · exact Iff.rfl
    · exact Tracker.tracked_setIdleOffset
  | wmb _ _ _ _ hphase =>
    obtain ⟨rfl, rfl⟩ := hok
    exact h.wmb hphase
  | attach _ _ _ hphase =>
    cases hphase
    exact h.frame_eq rfl rfl (Quiet.noteWatermark _ _ _).inFlight fun _ => Iff.rfl
  | track _ _ _ _ _ hphase hinsert => exact h.track hphase hinsert
  | duplicate offset _ _ hphase htracked =>
    refine absurd htracked (h.untracked offset ?_)
    rw [inHand, hphase]
    exact mem_cons_self
  | invalid => cases hok
  | send _ batch isOpen hphase =>
    cases hphase
    have hrest : (if isOpen then batch else []) = batch := by
      rcases hok with rfl | hempty
      · rfl
      · rw [show batch = [] from hempty, ite_self]
    rw [hrest]
    exact h.frame_eq (by simp) (by simp; rfl) (fun i hi => by simpa using hi) fun _ => Iff.rfl
  | outcome i wip _ _ hwip hphase hnext =>
    have htr : wip.tracking = true := by simp [tracking, hphase]
    refine h.setPhase hwip htr (fun _ _ hj => hj) (fun _ => ?_) (fun _ _ => Iff.rfl)
      fun _ => h.tracked wip (mem_of_getElem? hwip) htr
    rcases hnext with ⟨rfl, -⟩ | ⟨options, rfl, -⟩ <;> rfl
  | call i _ _ _ _ hwip hcalls => exact h.call hwip hcalls hok
  | delete i wip hwip hphase =>
    have htr : wip.tracking = true := by simp [tracking, hphase]
    refine h.setPhase hwip htr (fun _ _ hj => hj)
      (fun hj => absurd hj (h.settled wip (mem_of_getElem? hwip) hphase)) (fun j hj => ?_)
      fun h => by cases h
    rw [Tracker.tracked_delete]
    exact and_iff_left fun heq => hj (Int.ofNat_inj.mp heq.2)
  | release i _ hwip hphase => exact h.release hphase hwip

omit h in
theorem Tended.new (r : ISBReader) : Tended r (ReadState.new r) where
  covered i hi := by simp [ReadState.new, stateAt] at hi
  tracked wip hwip := by cases hwip
  settled wip hwip := by cases hwip
  unique i j wip wip' hwip := by cases hwip
  untracked i hi := by cases hi
  nodup := nodup_nil

end

/-- As long as no tracked message is fetched, no call is given up that has to take effect and
no batch is abandoned, every message in flight that the reader is through with has an entry
in the tracker and a wip loop that will ack or nak it. -/
theorem tended_of_careful (r : ISBReader) (actions : List ReaderAction)
    (hrun : Along (Careful r) (ReadState.step r) (ReadState.new r) actions) (offset : Nat)
    (hstate : stateAt (exec (ReadState.step r) (ReadState.new r) actions).reader.slots offset =
      some .inFlight)
    (hhand : offset ∉ (exec (ReadState.step r) (ReadState.new r) actions).reader.inHand) :
    (exec (ReadState.step r) (ReadState.new r) actions).tracker.Tracked r.partition offset ∧
      ∃ wip ∈ (exec (ReadState.step r) (ReadState.new r) actions).reader.wips,
        wip.offset = offset ∧ wip.live = true := by
  have htended : Tended r (exec (ReadState.step r) (ReadState.new r) actions) :=
    exec_invariant (I := Tended r) (fun _ _ h hok => h.step hok) (Tended.new r) hrun
  obtain ⟨wip, hwip, rfl, hlive⟩ := (htended.covered offset hstate).resolve_left hhand
  exact ⟨htended.tracked wip hwip (WipLoop.tracking_of_live hlive), wip, hwip, rfl, hlive⟩

/-- A message is nak'd, and fetched again after its wip loop has deleted it. -/
theorem tended_of_careful_refetch : let r : ISBReader := { batchSize := 1, maxAckPending := 2 }
    let read := [ReaderAction.isCancelled, .acquire, .fetch 1, .handleIdleWatermarks none,
      .attach 0, .insert true, .send true]
    let actions := [.write .data 0] ++ read ++
      [.outcome 0 (.nak none), .attempt 0 true .ok, .delete 0] ++ read
    let s := exec (ReadState.step r) (ReadState.new r) actions
    s.tracker.Tracked r.partition (0 : Nat) ∧
      ∃ wip ∈ s.reader.wips, wip.offset = 0 ∧ wip.live = true :=
  tended_of_careful { batchSize := 1, maxAckPending := 2 } _ (by decide) 0 (by decide) (by decide)

/-- The nak reaches the buffer, the message is fetched again and dropped as a duplicate, and
then the wip loop ends: the message stays in flight, and nobody answers for it. -/
theorem nakThenRefetch_orphan : let r : ISBReader := { batchSize := 1, maxAckPending := 2 }
    let actions := [ReaderAction.write .data 0, .isCancelled, .acquire, .fetch 1,
      .handleIdleWatermarks none, .attach 0, .insert true, .send true, .isCancelled, .acquire,
      .outcome 0 (.nak none), .attempt 0 true .ok, .fetch 1, .handleIdleWatermarks none, .attach 0,
      .insert true, .delete 0, .release 0]
    let s := exec (ReadState.step r) (ReadState.new r) actions
    stateAt s.reader.slots 0 = some .inFlight ∧ 0 ∉ s.reader.inHand ∧
      ¬ s.tracker.Tracked r.partition (0 : Nat) ∧ ∀ wip ∈ s.reader.wips, wip.live = false := by
  decide

end Numaflow.Isb
