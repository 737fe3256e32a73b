import Numaflow.Isb.Reader

/-!
# Reading one message at a time

The controller lets an ordered vertex have one message in flight.  The permit of a message
is given back when its wip loop ends, after an ack and after a nak alike.  A message that
was nak'd without delay is the lowest one in the buffer and comes next; but while a delay
runs, or when the nak was given up, the reader goes on with the messages behind it.

Main results: `Fifo.step`, `handsInOrder_of_prompt`, `delayedNak_overtaken`.
-/

namespace Numaflow.Isb

open Lib WipLoop ReaderState List

/-- Naks carry no delay, and calls that are not repeated have taken effect. -/
def Prompt (s : ReadState) (action : ReaderAction) : Prop :=
  match action with
  | .outcome _ (.nak options) => nakState options = .pending
  | .attempt i effective result => TakesEffect s i effective result
  | .ackWmb effective result => result = .ok → effective = true
  | _ => True

instance (s : ReadState) (action : ReaderAction) : Decidable (Prompt s action) := by
  apply action.casesOn (motive := fun a => Decidable (Prompt s a))
  case outcome =>
    intro i readAck
    apply readAck.casesOn (motive := fun a => Decidable (Prompt s (.outcome i a))) <;> intros <;>
      dsimp only [Prompt] <;> infer_instance
  all_goals
    intros
    dsimp only [Prompt]
    infer_instance

/-- The message that is handed downstream comes after all messages before it were acked, and
no other message is in flight or has a wip loop. -/
def HandsInOrder (s : ReadState) (action : ReaderAction) : Prop :=
  match s.reader.phase, action with
  | .sending offset _, .send true =>
    (∀ j < offset, stateAt s.reader.slots j = some .acked) ∧
      (∀ j < s.reader.slots.length, j ≠ offset →
        stateAt s.reader.slots j ≠ some .inFlight) ∧
      ∀ wip ∈ s.reader.wips, wip.offset ≠ offset → wip.phase = .ended
  | _, _ => True

instance (s : ReadState) (action : ReaderAction) : Decidable (HandsInOrder s action) := by
  unfold HandsInOrder
  split <;> infer_instance

namespace ReaderState

section

variable (s : ReaderState)

/-- The messages of the batch that the reader has not handed downstream. -/
def current : List Nat :=
  match s.phase with
  | .sending offset batch => offset :: batch
  | _ => s.inHand

/-- A message that the reader is about to hand downstream or that has a wip loop. -/
def Busy (i : Nat) : Prop :=
  i ∈ s.current ∨ ∃ wip ∈ s.wips, wip.running = true ∧ wip.offset = i

theorem inHand_subset_current : s.inHand ⊆ s.current := by
  unfold current
  split
  · rename_i offset batch hphase
    rw [inHand, hphase]
    exact subset_cons_self _ _
  · exact Subset.refl _

theorem inHand_eq_and_current_eq {s s' : ReaderState} (h : s'.phase = s.phase) :
    s'.inHand = s.inHand ∧ s'.current = s.current := by
  simp only [current, inHand, h, and_self]

@[simp]
theorem current_processMessageBatch (batch : List Nat) :
    (s.processMessageBatch batch).current = batch := by
  unfold processMessageBatch
  split_ifs with hbatch
  · exact hbatch.symm
  · rfl

end

end ReaderState

/-- At most one message is busy, the messages before it are acked, and nothing else is in
flight. -/
structure Fifo (r : ISBReader) (s : ReadState) : Prop where
  flying : s.reader.phase ≠ .stopped → ∀ i, stateAt s.reader.slots i = some .inFlight →
    i ∈ s.reader.inHand ∨ ∃ wip ∈ s.reader.wips, wip.running = true ∧ wip.offset = i
  single : s.reader.current.length ≤ 1
  alone : ∀ i j, s.reader.Busy i → s.reader.Busy j → i = j
  first : ∀ i, s.reader.Busy i → ∀ j < i, stateAt s.reader.slots j = some .acked
  settled : ∀ wip ∈ s.reader.wips, wip.running = true → wip.live = false →
    stateAt s.reader.slots wip.offset ≠ some .inFlight
  noDelay : ∀ i, stateAt s.reader.slots i ≠ some .delayed
  prompt : ∀ wip ∈ s.reader.wips, ∀ options, wip.phase = .naking options →
    nakState options = .pending
  tracked : ∀ i : Nat, s.tracker.Tracked r.partition i →
    ∃ wip ∈ s.reader.wips, wip.tracking = true ∧ wip.offset = i

/-! ## One step -/

section

variable {r : ISBReader} {s s' : ReadState} {wip : WipLoop} {i : Nat} (h : Fifo r s)

include h

/-- A step of the reader in which no message gets in flight. -/
theorem Fifo.frame (hwips : s'.reader.wips = s.reader.wips)
    (hquiet : Quiet s.reader.slots s'.reader.slots)
    (hcurrent : s'.reader.current.Sublist s.reader.current)
    (hinHand : s'.reader.phase ≠ .stopped → s.reader.phase ≠ .stopped ∧
      ∀ i ∈ s.reader.inHand, stateAt s'.reader.slots i = some .inFlight → i ∈ s'.reader.inHand)
    (htracker : ∀ i, s'.tracker.Tracked r.partition i ↔ s.tracker.Tracked r.partition i) :
    Fifo r s' := by
  have hbusy : ∀ i, s'.reader.Busy i → s.reader.Busy i := by
    intro i hi
    unfold ReaderState.Busy at hi ⊢
    rw [hwips] at hi
    exact hi.imp_left fun hmem => hcurrent.subset hmem
  refine ⟨fun hphase i hi => ?_, hcurrent.length_le.trans h.single,
    fun i j hi hj => h.alone i j (hbusy i hi) (hbusy j hj),
    fun i hi j hj => hquiet.acked j (h.first i (hbusy i hi) j hj), fun wip hwip hrunning hlive hi => ?_,
    fun i hi => h.noDelay i (hquiet.delayed i hi), fun wip hwip => ?_, fun i hi => ?_⟩
  · obtain ⟨hold, hmem⟩ := hinHand hphase
    rw [hwips]
    exact (h.flying hold i (hquiet.inFlight i hi)).imp_left fun hi' => hmem i hi' hi
  · rw [hwips] at hwip
    exact h.settled wip hwip hrunning hlive (hquiet.inFlight _ hi)
  · rw [hwips] at hwip
    exact h.prompt wip hwip
  · rw [hwips]
    exact h.tracked i ((htracker i).mp hi)

/-- A step that changes nothing of the reader's batch. -/
theorem Fifo.frame_eq (hwips : s'.reader.wips = s.reader.wips)
    (hquiet : Quiet s.reader.slots s'.reader.slots) (hphase : s'.reader.phase = s.reader.phase)
    (htracker : ∀ i, s'.tracker.Tracked r.partition i ↔ s.tracker.Tracked r.partition i) :
    Fifo r s' := by
  obtain ⟨hhand, hcurrent⟩ := inHand_eq_and_current_eq hphase
  refine h.frame hwips hquiet (hcurrent ▸ Sublist.refl _) (fun hne => ⟨?_, fun i hi _ => ?_⟩)
    htracker
  · rwa [hphase] at hne
  · rwa [hhand]

omit h in
theorem WipLoop.running_of_live (h : wip.live = true) : wip.running = true := by
  obtain ⟨offset, phase⟩ := wip
  cases phase <;> first | rfl | cases h

/-- A step of a wip loop. -/
theorem Fifo.setPhase {phase : WipPhase} (hwip : s.reader.wips[i]? = some wip)
    (hrunning : wip.running = true)
    (hwips : s'.reader.wips = s.reader.wips.set i { wip with phase := phase })
    (hphase : s'.reader.phase = s.reader.phase) (hquiet : Quiet s.reader.slots s'.reader.slots)
    (hsettled : live { wip with phase := phase } = false →
      stateAt s'.reader.slots wip.offset ≠ some .inFlight)
    (hprompt : ∀ options, phase = .naking options → nakState options = .pending)
    (htracker : ∀ j : Nat, s'.tracker.Tracked r.partition j → s.tracker.Tracked r.partition j ∧
      (wip.tracking = true → j = wip.offset →
        tracking { wip with phase := phase } = true)) : Fifo r s' := by
  obtain ⟨hhand, hcurrent⟩ := inHand_eq_and_current_eq hphase
  have hbusy : ∀ j, s'.reader.Busy j → s.reader.Busy j := by
    rintro j (hj | ⟨w, hw, hwrunning, rfl⟩)
    · exact .inl (hcurrent ▸ hj)
    · rw [hwips] at hw
      rcases mem_or_eq_of_mem_set hw with hw | rfl
      · exact .inr ⟨w, hw, hwrunning, rfl⟩
      · exact .inr ⟨wip, mem_of_getElem? hwip, hrunning, rfl⟩
  -- a wip loop of the old state is in the new one, with the new phase if it is this one
  have hkeep : ∀ w ∈ s.reader.wips, w = wip ∨ w ∈ s'.reader.wips :=
    fun w hw => hwips ▸ eq_or_mem_set hwip hw
  have hself : { wip with phase := phase } ∈ s'.reader.wips := hwips ▸ mem_set_self hwip
  refine ⟨fun hne j hj => ?_, hcurrent ▸ h.single, fun j k hj hk => h.alone j k (hbusy j hj) (hbusy k hk),
    fun j hj k hk => hquiet.acked k (h.first j (hbusy j hj) k hk), fun w hw hwrunning hlive hj => ?_,
    fun j hj => h.noDelay j (hquiet.delayed j hj), fun w hw options hw' => ?_, fun j hj => ?_⟩
  · rw [hphase] at hne
    rw [hhand]
    refine (h.flying hne j (hquiet.inFlight j hj)).imp_right ?_
    rintro ⟨w, hw, hwrunning, rfl⟩
    rcases hkeep w hw with rfl | hw
    · cases hlive : live { w with phase := phase } with
      | true => exact ⟨_, hself, running_of_live hlive, rfl⟩
      | false => exact absurd hj (hsettled hlive)
    · exact ⟨w, hw, hwrunning, rfl⟩
  · rw [hwips] at hw
    rcases mem_or_eq_of_mem_set hw with hw | rfl
    · exact h.settled w hw hwrunning hlive (hquiet.inFlight _ hj)
    · exact hsettled hlive hj
  · rw [hwips] at hw
    rcases mem_or_eq_of_mem_set hw with hw | rfl
    · exact h.prompt w hw options hw'
    · exact hprompt options hw'
  · obtain ⟨hold, hthis⟩ := htracker j hj
    obtain ⟨w, hw, htracking, rfl⟩ := h.tracked j hold
    rcases hkeep w hw with rfl | hw
    · exact ⟨_, hself, hthis htracking rfl, rfl⟩
    · exact ⟨w, hw, htracking, rfl⟩

omit h in
/-- While the reader has a message in its hands and there is one permit, no wip loop runs. -/
theorem Permits.not_running (h : Permits r s) (hmax : r.maxAckPending = 1)
    (hheld : 0 < s.reader.held) : ∀ wip ∈ s.reader.wips, wip.running = false := by
  have haccount := h.account
  have hcount : s.reader.wips.countP running = 0 := by omega
  intro wip hwip
  exact Bool.eq_false_iff.mpr (countP_eq_zero.mp hcount wip hwip)

variable {j : Nat} {offsets batch : List Nat} {watermark : Option Int} {eventTime : Int}
  {tracker : Tracker Int} {state : MessageState} {effective : Bool} {result : CallResult}
  {action : ReaderAction}

/-- While no wip loop runs and the reader holds nothing, what lies before a pending message is
pending as well or acked. -/
theorem Fifo.acked_of_lt (hphase : s.reader.phase = .fetching)
    (hidle : ∀ wip ∈ s.reader.wips, wip.running = false)
    (hi : stateAt s.reader.slots i = some .pending) (hj : j < i)
    (hnot : stateAt s.reader.slots j ≠ some .pending) : stateAt s.reader.slots j = some .acked := by
  cases hstate : stateAt s.reader.slots j with
  | none =>
    simp only [stateAt, Option.map_eq_none_iff, getElem?_eq_none_iff,
      Option.map_eq_some_iff] at hstate hi
    obtain ⟨slot, hslot, -⟩ := hi
    have := (List.getElem?_eq_some_iff.mp hslot).1
    omega
  | some state =>
    cases state with
    | pending => exact absurd hstate hnot
    | delayed => exact absurd hstate (h.noDelay j)
    | inFlight =>
      rcases h.flying (by simp [hphase]) j hstate with hmem | ⟨wip, hwip, hrun, -⟩
      · rw [inHand, hphase] at hmem
        cases hmem
      · rw [hidle wip hwip] at hrun
        cases hrun
    | acked => rfl

/-- The fetched message is the lowest one that is not acked. -/
theorem Fifo.fetch (hpermits : Permits r s) (hmax : r.maxAckPending = 1)
    (hphase : s.reader.phase = .fetching) {max : Nat}
    (hoffsets : offsets = deliverable s.reader.slots (min max r.batch)) : Fifo r
      { s with
        reader :=
          { s.reader with slots := deliver s.reader.slots offsets, phase := .fetched offsets } } := by
  have hle := length_deliverable_le s.reader.slots (min max r.batch)
  have hheld := hpermits.fetching hphase
  have hbatch : r.batch ≤ 1 := hmax ▸ Nat.min_le_right _ _
  have hempty : s.reader.inHand = [] := by rw [inHand, hphase]
  rw [← hoffsets] at hle
  -- nothing is busy when a message is fetched
  have hidle : ∀ o ∈ offsets, ∀ wip ∈ s.reader.wips, wip.running = false := by
    intro o ho
    have hpos := length_pos_of_mem ho
    exact hpermits.not_running hmax (by omega)
  have hone : ∀ i ∈ offsets, ∀ j ∈ offsets, i = j := by
    intro i hi j hj
    rcases offsets with _ | ⟨a, _ | ⟨b, offsets⟩⟩
    · cases hi
    · rw [mem_singleton.mp hi, mem_singleton.mp hj]
    · simp only [length_cons] at hle
      omega
  have hpending : ∀ i ∈ offsets, stateAt s.reader.slots i = some .pending := fun i hi =>
    mem_deliverable (hoffsets ▸ hi)
  have hfirst : ∀ i ∈ offsets, ∀ j < i, stateAt s.reader.slots j = some .acked := by
    intro i hi j hj
    refine h.acked_of_lt hphase (hidle i hi) (hpending i hi) hj fun hstate => ?_
    have := hone i hi j (hoffsets ▸ mem_deliverable_of_lt (hoffsets ▸ hi) hj hstate)
    omega
  have hother : ∀ j, stateAt s.reader.slots j = some .acked →
      stateAt (deliver s.reader.slots offsets) j = some .acked := by
    intro j hj
    rw [stateAt_deliver, if_neg]
    · exact hj
    · intro hmem
      cases (hpending j hmem).symm.trans hj
  refine ⟨fun _ j hj => ?_, ?_, fun i j hi hj => ?_, fun i hi j hj => ?_,
    fun wip hwip hrunning hlive hj => ?_, fun i hi => ?_, h.prompt, h.tracked⟩
  · simp only [stateAt_deliver] at hj
    split_ifs at hj with hmem
    · exact .inl hmem
    · have hold := h.flying (by simp [hphase]) j hj
      rw [hempty] at hold
      exact .inr (hold.resolve_left not_mem_nil)
  · exact hle.trans ((Nat.min_le_right _ _).trans hbatch)
  · rcases hi with hi | ⟨wip, hwip, hrun, hi⟩
    · rcases hj with hj | ⟨wip', hwip', hrun', hj⟩
      · exact hone i hi j hj
      · rw [hidle i hi wip' hwip'] at hrun'
        cases hrun'
    · rcases hj with hj | hj
      · rw [hidle j hj wip hwip] at hrun
        cases hrun
      · exact h.alone i j (.inr ⟨wip, hwip, hrun, hi⟩) (.inr hj)
  · rcases hi with hi | hi
    · exact hother j (hfirst i hi j hj)
    · exact hother j (h.first i (.inr hi) j hj)
  · simp only [stateAt_deliver] at hj
    split_ifs at hj with hmem
    · rw [hidle _ hmem wip hwip] at hrunning
      cases hrunning
    · exact h.settled wip hwip hrunning hlive hj
  · simp only [stateAt_deliver] at hi
    split_ifs at hi with hmem
    · rw [hpending i hmem] at hi
      cases hi
    · exact h.noDelay i hi

/-- The message passes from the hands of the reader to its wip loop. -/
theorem Fifo.track {offset : Nat} (hphase : s.reader.phase = .attached offset watermark batch)
    (hinsert : s.tracker.insert r.partition ⟨offset, watermark, eventTime⟩ = some tracker) :
    Fifo r ⟨{ s.reader.spawnWipLoop offset with phase := .sending offset batch }, tracker⟩ := by
  have hhand : s.reader.inHand = offset :: batch := by rw [inHand, hphase]
  have hcurrent : s.reader.current = offset :: batch := by rw [current, hphase, hhand]
  have hnewWip : (⟨offset, .waiting⟩ : WipLoop) ∈ s.reader.wips ++ [⟨offset, .waiting⟩] :=
    mem_append_right _ mem_cons_self
  have hbusy : ∀ i, ({ s.reader.spawnWipLoop offset with phase := .sending offset batch }).Busy i →
      s.reader.Busy i := by
    rintro i (hi | ⟨wip, hwip, hrun, rfl⟩)
    · exact .inl (hcurrent ▸ hi)
    · rcases mem_append.mp hwip with hwip | hwip
      · exact .inr ⟨wip, hwip, hrun, rfl⟩
      · rw [mem_singleton.mp hwip]
        exact .inl (hcurrent ▸ mem_cons_self)
  have hsingle := h.single
  rw [hcurrent] at hsingle
  refine ⟨fun _ i hi => ?_, hsingle, fun i j hi hj => h.alone i j (hbusy i hi) (hbusy j hj),
    fun i hi => h.first i (hbusy i hi),
    forall_mem_concat.mpr ⟨h.settled, by simp [live]⟩, h.noDelay,
    forall_mem_concat.mpr ⟨h.prompt, by simp⟩, fun i hi => ?_⟩
  · rcases h.flying (by simp [hphase]) i hi with hmem | ⟨wip, hwip, hrun⟩
    · rw [hhand, mem_cons] at hmem
      rcases hmem with rfl | hmem
      · exact .inr ⟨_, hnewWip, rfl, rfl⟩
      · exact .inl hmem
    · exact .inr ⟨wip, mem_append_left _ hwip, hrun⟩
  · rcases (Tracker.tracked_insert hinsert).mp hi with hi | ⟨-, heq⟩
    · obtain ⟨wip, hwip, htracking⟩ := h.tracked i hi
      exact ⟨wip, mem_append_left _ hwip, htracking⟩
    · exact ⟨_, hnewWip, rfl, (Int.ofNat_inj.mp heq).symm⟩

/-- The reader goes on behind the message at the head of its batch. -/
theorem Fifo.next {slots : List BufferSlot} (hquiet : Quiet s.reader.slots slots)
    {offset : Nat} (hcurrent : s.reader.current = offset :: batch)
    (hphase : s.reader.phase ≠ .stopped)
    (hgone : offset ∈ s.reader.inHand → stateAt slots offset ≠ some .inFlight) :
    Fifo r { s with reader := ({ s.reader with slots := slots }).processMessageBatch batch } := by
  have hempty : batch = [] := by
    have hsingle := h.single
    rw [hcurrent, length_cons] at hsingle
    exact eq_nil_of_length_eq_zero (by omega)
  refine h.frame (by simp) (by simpa using hquiet) (by simp [hcurrent])
    (fun _ => ⟨hphase, fun i hi hstate => ?_⟩) fun _ => Iff.rfl
  have hmem := s.reader.inHand_subset_current hi
  rw [hcurrent, hempty, mem_singleton] at hmem
  subst hmem
  rw [slots_processMessageBatch] at hstate
  exact absurd hstate (hgone hi)

theorem Fifo.stop {slots : List BufferSlot} (hquiet : Quiet s.reader.slots slots) :
    Fifo r { s with reader := ({ s.reader with slots := slots }).leave .stopped } :=
  h.frame rfl hquiet (nil_sublist _) (absurd rfl) fun _ => Iff.rfl

/-- A call of a wip loop. -/
theorem Fifo.call (hwip : s.reader.wips[i]? = some wip) (hcalls : wip.Calls state)
    (hok : TakesEffect s i effective result) :
    Fifo r (s.callBuffer i wip state effective result) := by
  have hstate : state = .acked ∨ state = .pending := by
    rcases hcalls with ⟨-, rfl⟩ | ⟨options, hnaking, rfl⟩
    · exact .inl rfl
    · exact .inr (h.prompt wip (mem_of_getElem? hwip) options hnaking)
  have hquiet := Quiet.call effective s.reader.slots wip.offset hstate
  unfold ReadState.callBuffer
  by_cases hends : endsRetry s.reader.cancelled result = true
  · simp only [hends, if_true]
    refine h.setPhase hwip hcalls.running rfl rfl hquiet (fun _ hi => ?_) nofun
      fun j hj => ⟨hj, fun _ _ => rfl⟩
    rcases hok hends with heffective | hsettled
    · simp only [ReaderState.setPhase, stateAt_call] at hi
      split_ifs at hi with hsame
      · rcases hstate with rfl | rfl <;> cases hi
      · exact hsame ⟨heffective, trivial, hi⟩
    · exact hsettled wip hwip (hquiet.inFlight _ hi)
  · simp only [hends]
    exact h.frame_eq rfl hquiet rfl fun _ => Iff.rfl

/-- One step keeps the order. -/
theorem Fifo.step (hpermits : Permits r s) (hmax : r.maxAckPending = 1)
    (hok : Prompt s action) : Fifo r (s.step r action) := by
  have hstep := step_spec r s action
  generalize s.step r action = s' at hstep
  obtain ⟨⟨slots, readerPhase, permits, held, wips, cancelled⟩, tracker⟩ := s
  cases hstep with
  | same => exact h
  | write typ eventTime => exact h.frame_eq rfl (.append _ typ eventTime) rfl fun _ => Iff.rfl
  | cancel => exact h.frame_eq rfl (.refl _) rfl fun _ => Iff.rfl
  | expire offset => exact h.frame_eq rfl (.expire _ offset) rfl fun _ => Iff.rfl
  | stop =>
    exact h.frame rfl (.refl _) (nil_sublist _) (absurd rfl) fun _ => Iff.rfl
  | enter hphase | acquire hphase =>
    cases hphase
    exact h.frame rfl (.refl _) (nil_sublist _) (fun _ => ⟨by simp, by simp [inHand]⟩) fun _ => Iff.rfl
  | fetch _ hphase => exact h.fetch hpermits hmax hphase rfl
  | idle _ _ _ hphase htracker =>
    cases hphase
    refine h.frame (by simp) ?_ ?_ (fun _ => ⟨by simp, fun i hi _ => ?_⟩) fun i => ?_
    · rw [slots_processMessageBatch]
      exact .refl _
    · rw [current_processMessageBatch]
      exact Sublist.refl _
    · rw [inHand_processMessageBatch]
      exact hi
    · rcases htracker with ⟨rfl, -⟩ | ⟨x, rfl, -⟩
      · exact Iff.rfl
      · exact Tracker.tracked_setIdleOffset
  | wmb offset _ effective result hphase =>
    cases hphase
    have hquiet := Quiet.call effective slots offset (.inl rfl)
    unfold ReadState.stepWmb
    by_cases hresult : result = .ok
    · simp only [if_pos hresult]
      refine h.next hquiet rfl (by simp) fun _ hi => ?_
      rw [stateAt_call] at hi
      split_ifs at hi with hsame
      · cases hi
      · exact hsame ⟨hok hresult, rfl, hi⟩
    · simp only [if_neg hresult]
      exact h.stop hquiet
  | attach _ _ _ hphase =>
    cases hphase
    exact h.frame rfl (.noteWatermark _ _ _) (Sublist.refl _)
      (fun _ => ⟨by simp, fun i hi _ => hi⟩) fun _ => Iff.rfl
  | attachNone _ _ _ hphase =>
    cases hphase
    exact h.frame rfl (.refl _) (Sublist.refl _)
      (fun _ => ⟨by simp, fun i hi _ => hi⟩) fun _ => Iff.rfl
  | track _ _ _ _ _ hphase hinsert => exact h.track hphase hinsert
  | duplicate offset _ _ hphase htracked =>
    -- a tracked message has a wip loop, which holds the only permit
    obtain ⟨wip, hwip, htracking, -⟩ := h.tracked offset htracked
    have hlength := hpermits.inHand
    rw [inHand, hphase, length_cons] at hlength
    have hnot := hpermits.not_running hmax (by omega) wip hwip
    rw [running, bne_eq_false_iff_eq] at hnot
    simp [tracking, hnot] at htracking
  | invalid => exact h.stop (.refl _)
  | send _ batch _ hphase =>
    cases hphase
    obtain rfl : batch = [] := eq_nil_of_length_eq_zero (Nat.le_zero.mp (Nat.le_of_succ_le_succ h.single))
    rw [ite_self]
    exact h.next (.refl _) rfl (by simp) (by simp [inHand])
  | outcome i _ _ _ hwip hphase hnext =>
    refine h.setPhase hwip (by simp [running, hphase]) rfl rfl (.refl _) ?_ ?_
      fun j hj => ⟨hj, fun _ _ => ?_⟩
    · rcases hnext with ⟨rfl, -⟩ | ⟨options, rfl, -⟩ <;> simp [live]
    · rintro options rfl
      rcases hnext with ⟨heq, -⟩ | ⟨options', heq, rfl⟩
      · cases heq
      · rw [WipPhase.naking.inj heq]
        exact hok
    · rcases hnext with ⟨rfl, -⟩ | ⟨options, rfl, -⟩ <;> rfl
  | call i _ _ _ _ hwip hcalls => exact h.call hwip hcalls hok
  | delete i wip hwip hphase =>
    have hsettled := h.settled wip (mem_of_getElem? hwip) (by simp [running, hphase])
      (by simp [live, hphase])
    refine h.setPhase hwip (by simp [running, hphase]) rfl rfl (.refl _)
      (fun _ => hsettled) (by simp) fun j hj => ?_
    obtain ⟨hold, hne⟩ := Tracker.tracked_delete.mp hj
    exact ⟨hold, fun _ heq => absurd ⟨rfl, congrArg Nat.cast heq⟩ hne⟩
  | release i wip hwip hphase =>
    have hsettled := h.settled wip (mem_of_getElem? hwip) (by simp [running, hphase])
      (by simp [live, hphase])
    refine h.setPhase hwip (by simp [running, hphase]) rfl rfl (.refl _)
      (fun _ => hsettled) (by simp) fun j hj => ⟨hj, fun htracking => ?_⟩
    simp [tracking, hphase] at htracking

omit h in
theorem Fifo.new (r : ISBReader) : Fifo r (ReadState.new r) := by
  have hidle : ∀ i, ¬ (ReadState.new r).reader.Busy i := by
    rintro i (hi | ⟨wip, hwip, -⟩)
    · cases hi
    · cases hwip
  have hempty : ∀ i state, stateAt (ReadState.new r).reader.slots i ≠ some state := by
    simp [ReadState.new, stateAt]
  exact ⟨fun _ i hi => absurd hi (hempty i _), Nat.zero_le 1, fun i _ hi => absurd hi (hidle i),
    fun i hi => absurd hi (hidle i), by simp [ReadState.new], fun i => hempty i _,
    by simp [ReadState.new],
    fun i hi => absurd hi (Tracker.not_tracked_new _ _)⟩

/-- What the order means for a message that is handed downstream. -/
theorem Fifo.handsInOrder (action : ReaderAction) : HandsInOrder s action := by
  unfold HandsInOrder
  split
  · rename_i offset batch hphase
    have hcurrent : s.reader.current = offset :: batch := by rw [current, hphase]
    have hbusy : s.reader.Busy offset := .inl (by rw [hcurrent]; exact mem_cons_self)
    refine ⟨h.first offset hbusy, fun j _ hj hstate => ?_, fun wip hwip hne => ?_⟩
    · have hflying := h.flying (by simp [hphase]) j hstate
      exact hj (h.alone j offset (hflying.imp_left fun hi => s.reader.inHand_subset_current hi) hbusy)
    · by_contra hended
      exact hne (h.alone wip.offset offset (.inr ⟨wip, hwip, bne_iff_ne.mpr hended, rfl⟩) hbusy)
  · trivial

end

/-- With one message in flight, naks without delay and calls that take effect before they are
given up, a message is handed downstream only after all messages before it were acked, and
while no other message is in flight. -/
theorem handsInOrder_of_prompt (r : ISBReader) (hmax : r.maxAckPending = 1)
    (actions : List ReaderAction)
    (hrun : Along Prompt (ReadState.step r) (ReadState.new r) actions) :
    Along HandsInOrder (ReadState.step r) (ReadState.new r) actions := by
  refine Along.of_invariant (I := fun s => Permits r s ∧ Fifo r s) ?_ ?_
    ⟨Permits.new r, Fifo.new r⟩ hrun
  · rintro s action ⟨hpermits, hfifo⟩ hok
    exact ⟨hpermits.step action, hfifo.step hpermits hmax hok⟩
  · rintro s action ⟨-, hfifo⟩
    exact hfifo.handsInOrder action

/-- The first message is nak'd, delivered again and acked before the second one. -/
theorem handsInOrder_of_prompt_redelivered :
    let r : ISBReader := { batchSize := 500, maxAckPending := 1 }
    let read := [ReaderAction.isCancelled, .acquire, .fetch 500, .handleIdleWatermarks none,
      .attach 0, .insert true, .send true]
    let actions := [ReaderAction.write .data 0, .write .data 0] ++ read ++
      [.outcome 0 (.nak none), .attempt 0 false .failed, .attempt 0 true .ok, .delete 0, .release 0]
      ++ read ++ [.outcome 1 .ack, .attempt 1 true .ok, .delete 1, .release 1] ++ read
    Along HandsInOrder (ReadState.step r) (ReadState.new r) actions :=
  handsInOrder_of_prompt { batchSize := 500, maxAckPending := 1 } rfl _ (by decide)

/-- While the delay of the first message runs, the second one is handed downstream. -/
theorem delayedNak_overtaken : let r : ISBReader := { batchSize := 500, maxAckPending := 1 }
    let read := [ReaderAction.isCancelled, .acquire, .fetch 500, .handleIdleWatermarks none,
      .attach 0, .insert true]
    let actions := [ReaderAction.write .data 0, .write .data 0] ++ read ++ [.send true,
      .outcome 0 (.nak (some { delay := some 1000 })), .attempt 0 true .ok, .delete 0, .release 0]
      ++ read
    let s := exec (ReadState.step r) (ReadState.new r) actions
    s.reader.phase = .sending 1 [] ∧ stateAt s.reader.slots 0 = some .delayed ∧
      ¬ HandsInOrder s (.send true) := by
  decide

end Numaflow.Isb
