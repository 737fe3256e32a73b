import Numaflow.Sink.Writer

/-!
# The bypass router of a MonoVertex

The source and the mapper of a MonoVertex send messages past the later stages, each to one of
the three sinks.  The router takes them in batches.  It writes the messages of a batch to the
sinks they are routed to and marks all handles of the batch together.

Main results: `bypass_marked_success`, `bypass_acks_nacked`.
-/

namespace Numaflow.Sink

open Lib Logged List SinkEvent

/-- A message with the sink that it is routed to. -/
inductive MessageToSink where
  | primary (msg : UdfMessage)
  | fallback (msg : UdfMessage)
  | onSuccess (msg : UdfMessage)
deriving DecidableEq

namespace MessageToSink

def inner : MessageToSink → UdfMessage
  | .primary msg => msg
  | .fallback msg => msg
  | .onSuccess msg => msg

def sink : MessageToSink → SinkKind
  | .primary _ => .primary
  | .fallback _ => .fallback
  | .onSuccess _ => .onSuccess

end MessageToSink

/-- The messages that are routed to a sink. -/
def routed (batch : List MessageToSink) (sink : SinkKind) : List UdfMessage :=
  (batch.filter fun msg => msg.sink = sink).map MessageToSink.inner

/-- What the sinks answer while a batch is written: to the primary messages and what is
forwarded of them, and then to the fallback and the on-success messages. -/
structure BypassAnswers where
  sink : BatchAnswers
  fallback : Nat → SinkAnswer
  onSuccess : Nat → SinkAnswer

/-- Write the three lists of a batch.  What the sinks nacked is not looked at. -/
def performWrite (w : SinkWriter) (answers : BypassAnswers)
    (primary fallback onSuccess : List UdfMessage) : SinkM Unit := do
  let _ ← writeToSink w answers.sink primary
  let _ ← writeToFallback w answers.fallback fallback
  let _ ← writeToOnSuccess w answers.onSuccess onSuccess
  pure ()

/-- What became of a batch. -/
structure BypassOutcome where
  batch : List MessageToSink
  log : List SinkEvent := []
  marks : List (UdfMessage × Mark) := []

def markSuccessBatch (batch : List UdfMessage) : List (UdfMessage × Mark) :=
  batch.map fun msg => (msg, .success)

/-- One turn of the loop; after an error the router drains. -/
def bypassBatch (w : SinkWriter) (finalResult : Except SinkError Unit)
    (batch : List MessageToSink) (answers : BypassAnswers) :
    Except SinkError Unit × BypassOutcome :=
  match finalResult with
  | .error e =>
    (.error e,
      { batch := batch, marks := markFailedBatch (batch.map MessageToSink.inner) e })
  | .ok () =>
    let toDrop := batch.filter fun msg => msg.inner.dropped
    let rest := batch.filter fun msg => !msg.inner.dropped
    let dropped := markSuccessBatch (toDrop.map MessageToSink.inner)
    if rest = [] then (.ok (), { batch := batch, marks := dropped })
    else
      let written := performWrite w answers (routed rest .primary) (routed rest .fallback)
        (routed rest .onSuccess)
      let handles := rest.map MessageToSink.inner
      match written.result with
      | .ok () =>
        (.ok (),
          { batch := batch, log := written.log, marks := dropped ++ markSuccessBatch handles })
      | .error e =>
        (.error e,
          { batch := batch, log := written.log, marks := dropped ++ markFailedBatch handles e })

/-- The batches that are received. -/
def streamingBypassWrite (w : SinkWriter) :
    Except SinkError Unit → List (List MessageToSink × BypassAnswers) → List BypassOutcome
  | _, [] => []
  | finalResult, (batch, answers) :: batches =>
    let (finalResult, outcome) := bypassBatch w finalResult batch answers
    outcome :: streamingBypassWrite w finalResult batches

/-! ## Sinks that nack nothing -/

/-- The sink never answers with a nack. -/
def NeverNacks (answers : Nat → SinkAnswer) : Prop :=
  ∀ n responses, (answers n).responses = .ok responses →
    ∀ resp ∈ responses, ∀ options, resp.status ≠ .nack options

/-- The entry asks for no nack, drops nothing, and is about messages with known identities. -/
def SinkEvent.Plain (known : String → Prop) : SinkEvent → Prop
  | .answered _ messages responses => (∀ msg ∈ messages, known msg.id.text) ∧
      ∀ resp ∈ responses, ∀ options, resp.status ≠ .nack options
  | .dropped _ _ => False
  | .stored _ _ => True

variable {configured : Bool} {errors : SecondaryErrors} {nacked messages : List UdfMessage}
  {log : List SinkEvent} {known : String → Prop}

section

variable {sink : SinkKind} {answers : Nat → SinkAnswer} {r r' : SinkActorResponse} {c : RetryConfig}
  {attempt : Nat}

/-- A sink that never nacks leaves nothing to nack. -/
theorem nacked_callSink (hnever : NeverNacks answers)
    (h : (callSink sink (answers attempt) attempt r).Yields log r') (hr : r.nacked = []) :
    r'.nacked = [] := by
  unfold callSink at h
  cases hresponses : (answers attempt).responses with
  | error => simp [hresponses] at h
  | ok responses =>
    simp only [hresponses] at h
    split at h
    · cases h.2
    · rename_i hsort
      obtain ⟨rfl, hr'⟩ := h
      cases hr'
      refine eq_nil_iff_forall_not_mem.mpr fun m hm => ?_
      rcases (sortResponses_spec hsort).origin .nacked m hm with hold | ⟨_, _, _, status, hmem, hc⟩
      · rw [hr] at hold
        cases hold
      · cases status with
        | nack options => exact hnever attempt responses hresponses _ hmem options rfl
        | _ => cases hc

theorem nacked_exhausted (h : (exhausted c sink r).Yields log r') (hr : r.nacked = []) :
    r'.nacked = [] := by
  unfold exhausted at h
  cases hstrategy : c.onFailStrategy with
  | drop =>
    simp only [hstrategy, yields_bind, yields_tell, yields_pure] at h
    obtain ⟨_, _, _, rfl, ⟨rfl, rfl⟩, rfl⟩ := h
    exact hr
  | _ =>
    simp only [hstrategy, yields_pure] at h
    obtain ⟨rfl, rfl⟩ := h
    exact hr

variable {left : Nat}

theorem nacked_retryLoop (hnever : NeverNacks answers)
    (h : (retryLoop c sink answers left attempt r).Yields log r') (hr : r.nacked = []) :
    r'.nacked = [] :=
  retryLoop_induction (P := fun _ r => r.nacked = [])
    (fun _ _ hr _ _ _ hcall => nacked_callSink hnever hcall hr)
    (fun _ _ hr _ _ hexhausted => nacked_exhausted hexhausted hr) [] hr h

theorem nacked_writeMessagesWithRetry (hnever : NeverNacks answers)
    (h : (writeMessagesWithRetry c sink answers messages).Yields log r) : r.nacked = [] := by
  rcases yields_ite.mp h with ⟨-, hpure⟩ | ⟨-, hloop⟩
  · obtain ⟨-, rfl⟩ := yields_pure.mp hpure
    rfl
  · exact nacked_retryLoop hnever hloop rfl

/-! ### The log -/

theorem logs_callSink (hnever : NeverNacks answers) (hknown : ∀ m ∈ r.failed, known m.id.text) :
    (callSink sink (answers attempt) attempt r).Logs (SinkEvent.Plain known) := by
  unfold callSink
  cases hresponses : (answers attempt).responses with
  | error e => exact logs_fail e
  | ok responses =>
    have hplain : Plain known (.answered sink
        (r.failed.map fun msg => setSinkRetryCount msg attempt) responses) :=
      ⟨forall_mem_map.mpr hknown, hnever attempt responses hresponses⟩
    dsimp only
    split <;> exact forall_mem_singleton.mpr hplain

variable (hc : c.onFailStrategy ≠ .drop)

include hc

theorem logs_exhausted : (exhausted c sink r).Logs (SinkEvent.Plain known) := by
  unfold exhausted
  cases hstrategy : c.onFailStrategy with
  | drop => exact absurd hstrategy hc
  | _ => exact logs_pure _

omit hc in
/-- A message that is tried again has the identity of one that was tried before. -/
theorem Outcome.known_failed (h : Outcome sink answers log r r')
    (hknown : ∀ m ∈ r.failed, known m.id.text) : ∀ m ∈ r'.failed, known m.id.text := by
  intro m hm
  rcases h.origin .failed m hm with ⟨hne, -⟩ | ⟨msg, hmsg, hid⟩
  · exact absurd rfl hne
  · rw [hid]
    exact hknown msg hmsg

theorem logs_retryLoop (hnever : NeverNacks answers) (hknown : ∀ m ∈ r.failed, known m.id.text) :
    (retryLoop c sink answers left attempt r).Logs (SinkEvent.Plain known) := by
  induction left generalizing attempt r with
  | zero =>
    refine logs_bind (logs_callSink hnever hknown) fun called _ => ?_
    exact logs_ite (fun _ => logs_pure _) fun _ => logs_exhausted hc
  | succ _ ih =>
    refine logs_bind (logs_callSink hnever hknown) fun called hcall => ?_
    exact logs_ite (fun _ => logs_pure _) fun _ => ih ((outcome_callSink hcall).known_failed hknown)

theorem logs_writeMessagesWithRetry (hnever : NeverNacks answers)
    (hknown : ∀ m ∈ messages, known m.id.text) :
    (writeMessagesWithRetry c sink answers messages).Logs (SinkEvent.Plain known) :=
  logs_ite (fun _ => logs_pure _) fun _ => logs_retryLoop hc hnever hknown

/-- A sink that the router writes to. -/
theorem logs_writeToSecondary (hnever : NeverNacks answers)
    (hknown : ∀ m ∈ messages, known m.id.text) :
    (writeToSecondary c sink configured errors answers messages).Logs (SinkEvent.Plain known) := by
  have hthrow : ∀ (p : Prop) [Decidable p] (e : SinkError),
      (throwIf p e).Logs (Plain known) := fun p _ e =>
    logs_ite (fun _ => logs_fail e) fun _ => logs_pure ()
  refine logs_ite (fun _ => logs_pure _) fun _ => ?_
  refine logs_bind (hthrow _ _) fun _ _ => ?_
  refine logs_bind (logs_writeMessagesWithRetry hc hnever hknown) fun _ _ => ?_
  refine logs_bind (hthrow _ _) fun _ _ => ?_
  refine logs_bind (hthrow _ _) fun _ _ => ?_
  exact logs_bind (hthrow _ _) fun _ _ => logs_pure _

omit hc in
theorem nacked_writeToSecondary (hnever : NeverNacks answers)
    (h : (writeToSecondary c sink configured errors answers messages).Yields log nacked) :
    nacked = [] := by
  rcases yields_ite.mp h with ⟨-, hpure⟩ | ⟨-, hwrite⟩
  · exact (yields_pure.mp hpure).2
  · simp only [yields_bind, yields_throwIf, yields_pure] at hwrite
    obtain ⟨_, _, _, -, ⟨_, r, _, hcall, ⟨_, _, _, -, ⟨_, _, _, -, ⟨_, _, _, -, ⟨-, rfl⟩, -⟩, -⟩, -⟩,
      -⟩, -⟩ := hwrite
    exact nacked_writeMessagesWithRetry hnever hcall

end

/-! ## A batch -/

/-- None of the sinks ever answers with a nack. -/
structure BypassAnswers.NeverNacks (answers : BypassAnswers) : Prop where
  primary : Sink.NeverNacks answers.sink.primary
  forwardedFallback : Sink.NeverNacks answers.sink.fallback
  forwardedOnSuccess : Sink.NeverNacks answers.sink.onSuccess
  fallback : Sink.NeverNacks answers.fallback
  onSuccess : Sink.NeverNacks answers.onSuccess

/-- The fallback and the on-success sink never ask for the on-success sink. -/
structure BypassAnswers.Quiet (answers : BypassAnswers) : Prop where
  sink : answers.sink.Quiet
  fallback : Sink.Quiet answers.fallback
  onSuccess : Sink.Quiet answers.onSuccess

variable {w : SinkWriter}

section

variable {answers : BypassAnswers} {store : Except SinkError Unit}

theorem logs_writeToServingStore :
    (writeToServingStore w store messages).Logs (SinkEvent.Plain known) := by
  refine logs_ite (fun _ => logs_fail _) fun _ => ?_
  split
  · exact logs_fail _
  · split
    · exact logs_fail _
    · exact logs_bind (logs_tell trivial) fun _ _ => logs_pure _

theorem logs_writeToSink (hstrategy : w.retryConfig.onFailStrategy ≠ .drop)
    (hnever : answers.NeverNacks) (hknown : ∀ m ∈ messages, known m.id.text) :
    (writeToSink w answers.sink messages).Logs (SinkEvent.Plain known) := by
  refine logs_ite (fun _ => logs_pure _) fun _ => ?_
  refine logs_bind (logs_writeMessagesWithRetry hstrategy hnever.primary hknown)
    fun r hprimary => ?_
  -- what is forwarded has the identity of a message of the batch
  have hlist : ∀ category, ∀ m ∈ r.get category, known m.id.text := by
    intro category m hm
    obtain ⟨msg, hmsg, hid⟩ := (writeMessagesWithRetry_spec hprimary).mem_batch hm
    rw [hid]
    exact hknown msg hmsg
  refine logs_bind (logs_ite (fun _ => logs_fail _) fun _ => logs_pure ()) fun _ _ => ?_
  refine logs_bind (logs_writeToSecondary hstrategy hnever.forwardedFallback
    (hlist .fallback)) fun _ _ => ?_
  refine logs_bind (logs_writeToSecondary hstrategy hnever.forwardedOnSuccess
    (hlist .onSuccess)) fun _ _ => ?_
  exact logs_bind (logs_ite (fun _ => logs_pure _)
    fun _ => logs_writeToServingStore) fun _ _ => logs_pure _

theorem nacked_writeToSink (hnever : answers.NeverNacks)
    (h : (writeToSink w answers.sink messages).Yields log nacked) : nacked = [] := by
  rcases yields_ite.mp h with ⟨-, hpure⟩ | ⟨-, hwrite⟩
  · exact (yields_pure.mp hpure).2
  · obtain ⟨_, r, _, hprimary, hcheck, -⟩ := yields_bind.mp hwrite
    obtain ⟨_, _, _, -, hforward, -⟩ := yields_bind.mp hcheck
    obtain ⟨_, _, _, hfallback, hafter, -⟩ := yields_bind.mp hforward
    obtain ⟨_, _, _, honSuccess, hlast, -⟩ := yields_bind.mp hafter
    obtain ⟨_, _, _, hserving, hpure, -⟩ := yields_bind.mp hlast
    rw [(yields_pure.mp hpure).2, nacked_writeMessagesWithRetry hnever.primary hprimary,
      nacked_writeToSecondary hnever.forwardedFallback hfallback, nacked_writeToSecondary
      hnever.forwardedOnSuccess honSuccess, (storedAll_of_yields hserving).1]
    rfl

end

/-- A message that was routed to a sink was taken: by that sink or, when it was routed to the
primary sink, by a sink that it was forwarded to; and all that the sinks asked for was done. -/
def Taken (log : List SinkEvent) (id : String) : SinkKind → Prop
  | .primary => Accepted log id ∧ CarriedOut log id
  | .fallback => Answered log .fallback id .success ∧ CarriedOut log id
  | .onSuccess => Answered log .onSuccess id .success ∧ CarriedOut log id

section

variable {log' : List SinkEvent} {id : String} {sink : SinkKind}

/-- Only what the log says about the message matters. -/
theorem Taken.congr (h : Taken log id sink)
    (hanswered : ∀ sink status, Answered log' sink id status ↔ Answered log sink id status)
    (hstored : Stored log id → Stored log' id) : Taken log' id sink := by
  have hcarried : CarriedOut log id → CarriedOut log' id := by
    intro hcarried
    constructor
    · intro sink hasked
      exact (hanswered _ _).mpr (hcarried.fallback sink ((hanswered _ _).mp hasked))
    · intro sink payload hasked
      exact (hanswered _ _).mpr (hcarried.onSuccess sink payload ((hanswered _ _).mp hasked))
    · intro sink response hasked
      exact hstored (hcarried.serving sink response ((hanswered _ _).mp hasked))
  cases sink with
  | primary =>
    refine ⟨h.1.imp ?_ hstored, hcarried h.2⟩
    rintro ⟨sink, haccepted⟩
    exact ⟨sink, (hanswered _ _).mpr haccepted⟩
  | fallback | onSuccess => exact ⟨(hanswered _ _).mpr h.1, hcarried h.2⟩

theorem Served.carriedOut (h : Served sink log messages []) : CarriedOut log id := by
  have hno : ∀ sink' status c, status.category = some c → c ≠ .failed →
      ¬ Answered log sink' id status := by
    intro sink' status c hc hfailed hanswered
    rcases h.requested sink' id status c hanswered hc with heq | ⟨-, m, hm, -⟩
    · exact hfailed heq
    · cases hm
  constructor
  · intro sink' hasked
    exact absurd hasked (hno sink' .fallback .fallback rfl nofun)
  · intro sink' payload hasked
    exact absurd hasked (hno sink' (.onSuccess payload) .onSuccess rfl nofun)
  · intro sink' response hasked
    exact absurd hasked (hno sink' (.serve response) .serving rfl nofun)

theorem not_strategyDropped_of_plain (h : ∀ e ∈ log, SinkEvent.Plain known e) :
    ¬ StrategyDropped log id := by
  rintro ⟨sink, messages, hmem, -⟩
  exact h _ hmem

variable {status : ResponseStatus} {options : Option NackOptions}

theorem known_of_plain (h : ∀ e ∈ log, SinkEvent.Plain known e)
    (hanswered : Answered log sink id status) : known id := by
  obtain ⟨messages, responses, hmem, ⟨msg, hmsg, rfl⟩, -⟩ := hanswered
  exact (h _ hmem).1 msg hmsg

theorem not_answered_nack_of_plain (h : ∀ e ∈ log, SinkEvent.Plain known e) :
    ¬ Answered log sink id (.nack options) := by
  rintro ⟨messages, responses, hmem, -, hresponse⟩
  exact (h _ hmem).2 _ hresponse options rfl

theorem stored_append_left (h : Stored log id) : Stored (log ++ log') id := by
  obtain ⟨messages, entries, hmem, hid⟩ := h
  exact ⟨messages, entries, mem_append_left _ hmem, hid⟩

theorem stored_append_right (h : Stored log' id) : Stored (log ++ log') id := by
  obtain ⟨messages, entries, hmem, hid⟩ := h
  exact ⟨messages, entries, mem_append_right _ hmem, hid⟩

end

section

variable {answers : BypassAnswers} {lists : SinkKind → List UdfMessage}

/-- The identities of the messages that are routed to a sink. -/
def routedIds (lists : SinkKind → List UdfMessage) (sink : SinkKind) (id : String) : Prop :=
  ∃ msg ∈ lists sink, msg.id.text = id

variable (hstrategy : w.retryConfig.onFailStrategy ≠ .drop)

include hstrategy

/-- The first of the three writes: its log is about the messages that are routed to its sink,
and they are taken. -/
theorem part_primary (hnever : answers.NeverNacks) (hquiet : answers.Quiet)
    (h : (writeToSink w answers.sink (lists .primary)).Yields log nacked) :
    (∀ e ∈ log, SinkEvent.Plain (routedIds lists .primary) e) ∧
      ∀ msg ∈ lists .primary, Taken log msg.id.text .primary := by
  have hplain : ∀ e ∈ log, Plain (routedIds lists .primary) e := by
    rw [← h.1]
    exact logs_writeToSink hstrategy hnever fun m hm => ⟨m, hm, rfl⟩
  refine ⟨hplain, fun msg hmsg => ?_⟩
  rw [nacked_writeToSink hnever h] at h
  rcases (writeToSink_spec hquiet.sink h).settled msg hmsg with ⟨_, hm, -⟩ | hdropped | htaken
  · cases hm
  · exact absurd hdropped (not_strategyDropped_of_plain hplain)
  · exact htaken

variable {secondary : Nat → SinkAnswer} {sink : SinkKind}

/-- The two other writes, which differ in their sinks and in the errors. -/
theorem part_secondary (hnever : NeverNacks secondary) (hquiet : Quiet secondary)
    (h : (writeToSecondary w.retryConfig sink configured errors secondary (lists sink)).Yields
      log nacked) : (∀ e ∈ log, SinkEvent.Plain (routedIds lists sink) e) ∧
      ∀ msg ∈ lists sink, Answered log sink msg.id.text .success ∧ CarriedOut log msg.id.text := by
  have hplain : ∀ e ∈ log, Plain (routedIds lists sink) e := by
    rw [← h.1]
    exact logs_writeToSecondary hstrategy hnever fun m hm => ⟨m, hm, rfl⟩
  refine ⟨hplain, fun msg hmsg => ?_⟩
  rw [nacked_writeToSecondary hnever h] at h
  have hserved := writeToSecondary_spec hquiet h
  exact ⟨hserved.accepted hmsg (forall_mem_nil _)
    (not_strategyDropped_of_plain hplain), hserved.carriedOut⟩

/-- Identities tell the messages of the three lists apart. -/
def ToldApart (lists : SinkKind → List UdfMessage) : Prop :=
  ∀ sink sink' id, routedIds lists sink id → routedIds lists sink' id → sink = sink'

/-- When the three writes succeed, every message was taken. -/
theorem taken_of_performWrite {msg : UdfMessage}
    (hnever : answers.NeverNacks) (hquiet : answers.Quiet) (hlists : ToldApart lists)
    (h : (performWrite w answers (lists .primary) (lists .fallback) (lists .onSuccess)).Yields
      log ()) (hmsg : msg ∈ lists sink) : Taken log msg.id.text sink := by
  obtain ⟨primary, _, _, hprimary, hrest, rfl⟩ := yields_bind.mp h
  obtain ⟨fallback, _, _, hfallback, hlast, rfl⟩ := yields_bind.mp hrest
  obtain ⟨onSuccess, _, _, honSuccess, hpure, rfl⟩ := yields_bind.mp hlast
  obtain ⟨rfl, -⟩ := yields_pure.mp hpure
  have hpart₁ := part_primary hstrategy hnever hquiet hprimary
  have hpart₂ := part_secondary hstrategy hnever.fallback hquiet.fallback hfallback
  have hpart₃ := part_secondary hstrategy hnever.onSuccess hquiet.onSuccess honSuccess
  -- the log of another write says nothing about the message
  have hsilent : ∀ {part sink'}, (∀ e ∈ part, Plain (routedIds lists sink') e) →
      sink' ≠ sink → ∀ by' status, ¬ Answered part by' msg.id.text status :=
    fun hplain hne _ _ hanswered =>
      hne (hlists _ _ _ (known_of_plain hplain hanswered) ⟨msg, hmsg, rfl⟩)
  cases sink with
  | primary =>
    refine (hpart₁.2 msg hmsg).congr (fun by' status => ?_) stored_append_left
    simp only [answered_append, hsilent hpart₂.1 nofun, hsilent hpart₃.1 nofun, or_false,
      not_answered_nil]
  | fallback =>
    have htaken : Taken fallback msg.id.text .fallback := hpart₂.2 msg hmsg
    refine htaken.congr (fun by' status => ?_)
      fun hstored => stored_append_right (stored_append_left hstored)
    simp only [answered_append, hsilent hpart₁.1 nofun, hsilent hpart₃.1 nofun, or_false,
      false_or, not_answered_nil]
  | onSuccess =>
    have htaken : Taken onSuccess msg.id.text .onSuccess := hpart₃.2 msg hmsg
    refine htaken.congr (fun by' status => ?_)
      fun hstored => stored_append_right (stored_append_right (stored_append_left hstored))
    simp only [answered_append, hsilent hpart₁.1 nofun, hsilent hpart₂.1 nofun, or_false,
      false_or, not_answered_nil]

/-- No sink asked for a nack, also when a write failed. -/
theorem logs_performWrite (hnever : answers.NeverNacks) (lists : SinkKind → List UdfMessage) :
    (performWrite w answers (lists .primary) (lists .fallback) (lists .onSuccess)).Logs
      (SinkEvent.Plain fun _ => True) := by
  refine logs_bind (logs_writeToSink hstrategy hnever fun _ _ => trivial) fun _ _ => ?_
  refine logs_bind (logs_writeToSecondary hstrategy hnever.fallback fun _ _ => trivial)
    fun _ _ => ?_
  exact logs_bind (logs_writeToSecondary hstrategy hnever.onSuccess fun _ _ => trivial)
    fun _ _ => logs_pure _

end

/-! ## Batch after batch -/

/-- The messages of a batch are marked as their tags and their sinks ask for. -/
structure BypassSettled (o : BypassOutcome) : Prop where
  success : ∀ msg ∈ o.batch, .success ∈ marksOf o.marks msg.inner.id →
    msg.inner.dropped = true ∨ Taken o.log msg.inner.id.text msg.sink
  nacked : ∀ msg ∈ o.batch, msg.inner.nacked = false ∧
    ∀ sink options, ¬ Answered o.log sink msg.inner.id.text (.nack options)

section

variable {answers : BypassAnswers} {batch rest : List MessageToSink}
  {marks : List (UdfMessage × Mark)} {handle : UdfMessage} {mark : Mark} {msg : MessageToSink}
  {finalResult : Except SinkError Unit}

theorem mem_markSuccessBatch (h : (handle, mark) ∈ markSuccessBatch messages) :
    handle ∈ messages := by
  obtain ⟨msg, hmsg, heq⟩ := mem_map.mp h
  cases heq
  exact hmsg

/-- A message with the identity of one that is dropped is that message. -/
theorem dropped_of_mem (hids : (batch.map fun msg => msg.inner.id.text).Nodup) (hmsg : msg ∈ batch)
    (hhandle : handle ∈ (batch.filter fun msg => msg.inner.dropped).map MessageToSink.inner)
    (hid : handle.id = msg.inner.id) : msg.inner.dropped = true := by
  obtain ⟨msg', hmsg', rfl⟩ := mem_map.mp hhandle
  obtain ⟨hmem, hdropped⟩ := mem_filter.mp hmsg'
  have hsame := inj_on_of_nodup_map hids hmem hmsg (by rw [hid])
  rwa [hsame] at hdropped

theorem toldApart_routed (hids : (batch.map fun msg => msg.inner.id.text).Nodup)
    (hrest : rest ⊆ batch) : ToldApart (routed rest) := by
  rintro sink sink' id ⟨m, hm, hid⟩ ⟨m', hm', hid'⟩
  obtain ⟨msg, hmsg, rfl⟩ := mem_map.mp hm
  obtain ⟨msg', hmsg', rfl⟩ := mem_map.mp hm'
  obtain ⟨hmem, hsink⟩ := mem_filter.mp hmsg
  obtain ⟨hmem', hsink'⟩ := mem_filter.mp hmsg'
  have hsame := inj_on_of_nodup_map hids (hrest hmem) (hrest hmem') (hid.trans hid'.symm)
  rw [← of_decide_eq_true hsink, ← of_decide_eq_true hsink', hsame]

/-- Every message of a bypassed batch is settled. -/
theorem settled_bypassBatch (hstrategy : w.retryConfig.onFailStrategy ≠ .drop)
    (hids : (batch.map fun msg => msg.inner.id.text).Nodup) (hquiet : answers.Quiet)
    (htags : ∀ msg ∈ batch, msg.inner.nacked = false) (hnever : answers.NeverNacks) :
    BypassSettled (bypassBatch w finalResult batch answers).2 := by
  cases finalResult with
  | error =>
    refine ⟨fun msg _ hsuccess => ?_, fun msg hmsg => ⟨htags msg hmsg, ?_⟩⟩
    · obtain ⟨handle, hmem, -⟩ := mem_marksOf_success hsuccess
      exact absurd rfl (ne_success_of_mem_markFailedBatch _ hmem)
    · exact fun _ _ => not_answered_nil
  | ok =>
    simp only [bypassBatch]
    split_ifs with hrest
    · refine ⟨fun msg hmsg hsuccess => ?_, fun msg hmsg => ⟨htags msg hmsg, ?_⟩⟩
      · obtain ⟨handle, hmem, hid⟩ := mem_marksOf_success hsuccess
        exact .inl (dropped_of_mem hids hmsg (mem_markSuccessBatch hmem) hid)
      · exact fun _ _ => not_answered_nil
    · have hplain := logs_performWrite hstrategy hnever
        (routed (batch.filter fun msg => !msg.inner.dropped))
      split
      · rename_i hresult
        refine ⟨fun msg hmsg hsuccess => ?_, fun msg hmsg => ⟨htags msg hmsg, ?_⟩⟩
        · by_cases hdropped : msg.inner.dropped = true
          · exact .inl hdropped
          refine .inr (taken_of_performWrite hstrategy hnever hquiet
            (toldApart_routed hids (filter_subset_self _)) (yields_self hresult) ?_)
          refine mem_map_of_mem (mem_filter.mpr ⟨?_, decide_eq_true rfl⟩)
          exact mem_filter.mpr ⟨hmsg, by simpa using hdropped⟩
        · exact fun _ _ => not_answered_nack_of_plain hplain
      · refine ⟨fun msg hmsg hsuccess => ?_, fun msg hmsg => ⟨htags msg hmsg, ?_⟩⟩
        · obtain ⟨handle, hmem, hid⟩ := mem_marksOf_success hsuccess
          rcases mem_append.mp hmem with hmem | hmem
          · exact .inl (dropped_of_mem hids hmsg (mem_markSuccessBatch hmem) hid)
          · exact absurd rfl (ne_success_of_mem_markFailedBatch _ hmem)
        · exact fun _ _ => not_answered_nack_of_plain hplain

end

@[simp]
theorem batch_bypassBatch (w : SinkWriter) (finalResult : Except SinkError Unit)
    (batch : List MessageToSink) (answers : BypassAnswers) :
    (bypassBatch w finalResult batch answers).2.batch = batch := by
  unfold bypassBatch
  split
  · rfl
  · dsimp only
    split_ifs
    · rfl
    · split <;> rfl

theorem batch_streamingBypassWrite (w : SinkWriter) (finalResult : Except SinkError Unit)
    (batches : List (List MessageToSink × BypassAnswers)) :
    (streamingBypassWrite w finalResult batches).map (·.batch) = batches.map Prod.fst := by
  induction batches generalizing finalResult with
  | nil => rfl
  | cons b _ ih => simp [streamingBypassWrite, ih]

variable {batches : List (List MessageToSink × BypassAnswers)} {responses : List ResponseFromSink}

theorem settled_streamingBypassWrite (hstrategy : w.retryConfig.onFailStrategy ≠ .drop)
    (hids : ∀ b ∈ batches, (b.1.map fun msg => msg.inner.id.text).Nodup)
    (hquiet : ∀ b ∈ batches, b.2.Quiet)
    (htags : ∀ b ∈ batches, ∀ msg ∈ b.1, msg.inner.nacked = false)
    (hnever : ∀ b ∈ batches, b.2.NeverNacks) (finalResult : Except SinkError Unit) :
    ∀ o ∈ streamingBypassWrite w finalResult batches, BypassSettled o := by
  induction batches generalizing finalResult with
  | nil => simp [streamingBypassWrite]
  | cons b _ ih =>
    rw [forall_mem_cons] at hids hquiet htags hnever
    exact forall_mem_cons.mpr ⟨settled_bypassBatch hstrategy hids.1 hquiet.1 htags.1 hnever.1,
        ih hids.2 hquiet.2 htags.2 hnever.2 _⟩

/-- When no message carries the nack tag, no sink answers with a nack, the fallback and the
on-success sink do not ask for the on-success sink and the strategy drops nothing, a message is
acked only when it is to be dropped or its sinks took it. -/
theorem bypass_marked_success (w : SinkWriter) (hstrategy : w.retryConfig.onFailStrategy ≠ .drop)
    (batches : List (List MessageToSink × BypassAnswers))
    (hids : ∀ b ∈ batches, (b.1.map fun msg => msg.inner.id.text).Nodup)
    (hquiet : ∀ b ∈ batches, b.2.Quiet)
    (htags : ∀ b ∈ batches, ∀ msg ∈ b.1, msg.inner.nacked = false)
    (hnever : ∀ b ∈ batches, b.2.NeverNacks) :
    (streamingBypassWrite w (.ok ()) batches).map (·.batch) = batches.map Prod.fst ∧
      ∀ o ∈ streamingBypassWrite w (.ok ()) batches, ∀ msg ∈ o.batch,
        (.success ∈ marksOf o.marks msg.inner.id →
          msg.inner.dropped = true ∨ Taken o.log msg.inner.id.text msg.sink) ∧
        (msg.inner.nacked = true ∨
            (∃ sink options, Answered o.log sink msg.inner.id.text (.nack options)) →
          ∃ options, settle (marksOf o.marks msg.inner.id) = .nak options) := by
  refine ⟨batch_streamingBypassWrite w _ batches, fun o ho msg hmsg => ?_⟩
  have hsettled := settled_streamingBypassWrite hstrategy hids hquiet htags hnever _ o ho
  obtain ⟨htag, hnone⟩ := hsettled.nacked msg hmsg
  refine ⟨hsettled.success msg hmsg, ?_⟩
  rintro (hnacked | ⟨sink, options, hanswered⟩)
  · rw [htag] at hnacked
    cases hnacked
  · exact absurd hanswered (hnone sink options)

theorem neverNacks_answering (h : ∀ resp ∈ responses, resp.status.category ≠ some .nacked) :
    NeverNacks (answering responses) := by
  rintro n _ ⟨⟩ resp hresp options hstatus
  exact h resp hresp (by rw [hstatus]; rfl)

/-- A message for each sink, and one that the primary sink forwards to the fallback sink. -/
def mixedBatch : List MessageToSink :=
  [.primary (readMessage 0), .fallback (readMessage 1), .onSuccess (readMessage 2),
    .primary (readMessage 3)]

def mixedAnswers : BypassAnswers where
  sink := {
    primary := answering [⟨"in-0-0", .success⟩, ⟨"in-3-0", .fallback⟩]
    fallback := answering [⟨"in-3-0", .success⟩]
    onSuccess := answering [] }
  fallback := answering [⟨"in-1-0", .success⟩]
  onSuccess := answering [⟨"in-2-0", .success⟩]

theorem bypass_marked_success_mixed :
    (streamingBypassWrite allSinks (.ok ()) [(mixedBatch, mixedAnswers)]).map (fun o =>
        o.batch.map fun msg => settle (marksOf o.marks msg.inner.id)) =
      [[.ack, .ack, .ack, .ack]] ∧
    ∀ o ∈ streamingBypassWrite allSinks (.ok ()) [(mixedBatch, mixedAnswers)],
      ∀ msg ∈ o.batch, .success ∈ marksOf o.marks msg.inner.id →
        msg.inner.dropped = true ∨ Taken o.log msg.inner.id.text msg.sink := by
  refine ⟨by decide, fun o ho msg hmsg => ?_⟩
  refine ((bypass_marked_success allSinks (by decide) _ ?_ ?_ ?_ ?_).2 o ho msg hmsg).1
  · simp only [List.forall_mem_singleton]
    decide
  · simp only [List.forall_mem_singleton]
    exact ⟨⟨quiet_answering (by decide), quiet_answering (by decide)⟩,
      quiet_answering (by decide), quiet_answering (by decide)⟩
  · simp only [List.forall_mem_singleton]
    decide
  · simp only [List.forall_mem_singleton]
    exact ⟨neverNacks_answering (by decide), neverNacks_answering (by decide),
      neverNacks_answering (by decide), neverNacks_answering (by decide),
      neverNacks_answering (by decide)⟩

/-- The primary sink answers its message with a nack. -/
def nackingAnswers : BypassAnswers where
  sink := {
    primary := answering [⟨"in-0-0", .nack none⟩]
    fallback := answering []
    onSuccess := answering [] }
  fallback := answering []
  onSuccess := answering []

/-- What the sinks nack is not looked at: the message is acked although no sink took it. -/
theorem bypass_acks_nacked :
    ∃ o, streamingBypassWrite allSinks (.ok ()) [([.primary (readMessage 0)], nackingAnswers)] = [o] ∧
      (readMessage 0).dropped = false ∧
      Answered o.log .primary (readMessage 0).id.text (.nack none) ∧
      ¬ Accepted o.log (readMessage 0).id.text ∧
      .success ∈ marksOf o.marks (readMessage 0).id ∧
      settle (marksOf o.marks (readMessage 0).id) = .ack := by
  refine ⟨_, rfl, by decide, by decide, ?_, by decide, by decide⟩
  rintro (⟨sink, haccepted⟩ | hstored)
  · revert haccepted
    cases sink <;> decide
  · revert hstored
    decide

end Numaflow.Sink
