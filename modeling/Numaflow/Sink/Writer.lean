import Numaflow.Sink.Actor

/-!
# The sink writer

The writer takes the messages of a sink vertex in batches.  It writes a batch to the primary
sink and then what the primary sink asks to forward to the fallback sink, the on-success sink
and the serving store.  At the end it finds the handles of the messages that are to be nacked
and marks all others as successful.

Main results: `marked_success_of_quiet`, `fallbackOnSuccess_ignored`.
-/

namespace Numaflow.Sink

open Lib Logged List

/-- The sinks of a vertex.  All of them have the same retry configuration. -/
structure SinkWriter where
  retryConfig : RetryConfig
  hasFallback : Bool := false
  hasOnSuccess : Bool := false
  hasServingStore : Bool := false
  bypassSink : Bool := false

/-- What the sinks and the store answer while a batch is written. -/
structure BatchAnswers where
  primary : Nat → SinkAnswer
  fallback : Nat → SinkAnswer
  onSuccess : Nat → SinkAnswer
  store : Except SinkError Unit := .ok ()

/-- The errors of a sink that the primary sink forwards to. -/
structure SecondaryErrors where
  notConfigured : SinkError
  fallback : SinkError
  serving : SinkError
  failed : SinkError

def throwIf (p : Prop) [Decidable p] (e : SinkError) : SinkM Unit :=
  if p then .fail e else pure ()

/-- Write to a sink that the primary sink forwards to; the result is what it nacked. -/
def writeToSecondary (c : RetryConfig) (sink : SinkKind) (configured : Bool)
    (errors : SecondaryErrors) (answers : Nat → SinkAnswer) (messages : List UdfMessage) :
    SinkM (List UdfMessage) := do
  if messages = [] then pure []
  else
    throwIf (configured = false) errors.notConfigured
    let response ← writeMessagesWithRetry c sink answers messages
    throwIf (response.fallback ≠ []) errors.fallback
    throwIf (response.serving ≠ []) errors.serving
    throwIf (response.failed ≠ []) errors.failed
    pure response.nacked

def fallbackErrors : SecondaryErrors where
  notConfigured := .fbSink ("Response contains fallback messages but no fallback sink is " ++
    "configured. Please update the spec to configure fallback sink " ++
    "https://numaflow.numaproj.io/user-guide/sinks/fallback/ ")
  fallback := .fbSink ("Response in fallback sink contains fallback messages. " ++
    "Specifying fallback status in fallback sink is not allowed.")
  serving := .fbSink ("Response in fallback sink contains serving messages. " ++
    "Specifying serving status in fallback response is not allowed.")
  failed := .fbSink "Failed to write messages to fallback sink after retries"

def onSuccessErrors : SecondaryErrors where
  notConfigured := .osSink ("Response contains OnSuccess messages but no OnSuccess sink is " ++
    "configured. Please update the spec to configure on-success sink " ++
    "https://numaflow.numaproj.io/user-guide/sinks/on-success/ ")
  fallback := .fbSink ("OnSuccess response contains fallback messages. " ++
    "Specifying fallback status in OnSuccess response is not allowed.")
  serving := .fbSink ("OnSuccess response contains serving messages. " ++
    "Specifying serving status in OnSuccess response is not allowed.")
  failed := .osSink "Failed to write messages to on_success sink after retries"

def writeToFallback (w : SinkWriter) (answers : Nat → SinkAnswer) (messages : List UdfMessage) :
    SinkM (List UdfMessage) :=
  writeToSecondary w.retryConfig .fallback w.hasFallback fallbackErrors answers messages

def writeToOnSuccess (w : SinkWriter) (answers : Nat → SinkAnswer) (messages : List UdfMessage) :
    SinkM (List UdfMessage) :=
  writeToSecondary w.retryConfig .onSuccess w.hasOnSuccess onSuccessErrors answers messages

def defaultIdHeader : String := "X-Numaflow-Id"

def defaultPodHashKey : String := "X-Numaflow-Pod-Hash"

/-- The entry for a message, from its headers. -/
def storeEntry (msg : UdfMessage) : Except SinkError StoreEntry :=
  match msg.headers.lookup defaultIdHeader with
  | none => .error (.sink "Missing numaflow id header")
  | some id =>
    match msg.headers.lookup defaultPodHashKey with
    | none => .error (.sink "Missing pod replica header")
    | some podHash => .ok ⟨podHash, id, msg.value⟩

/-- Write to the serving store, which nacks nothing. -/
def writeToServingStore (w : SinkWriter) (store : Except SinkError Unit)
    (messages : List UdfMessage) : SinkM (List UdfMessage) :=
  if w.hasServingStore = false then
    .fail (.sink ("Response contains serving messages but no serving store is configured. " ++
      "Please consider updating spec to configure serving store."))
  else
    match messages.mapM storeEntry with
    | .error e => .fail e
    | .ok entries =>
      match store with
      | .error e => .fail e
      | .ok () => do
          .tell (.stored messages entries)
          pure []

/-- Write a batch to the sinks; the result is what they nacked. -/
def writeToSink (w : SinkWriter) (answers : BatchAnswers) (messages : List UdfMessage) :
    SinkM (List UdfMessage) := do
  if messages = [] then pure []
  else
    let response ← writeMessagesWithRetry w.retryConfig .primary answers.primary messages
    throwIf (response.failed ≠ []) (.sink "Failed to write messages after retries")
    let fallback ← writeToFallback w answers.fallback response.fallback
    let onSuccess ← writeToOnSuccess w answers.onSuccess response.onSuccess
    let serving ← (if response.serving = [] then pure []
      else writeToServingStore w answers.store response.serving)
    pure (response.nacked ++ fallback ++ onSuccess ++ serving)

/-- Process a batch; the result is what is to be nacked. -/
def processBatch (w : SinkWriter) (answers : BatchAnswers) (messages : List UdfMessage) :
    SinkM (List UdfMessage) :=
  let nacked := messages.filter fun msg => msg.nacked
  let toProcess := messages.filter fun msg => !msg.nacked
  if w.bypassSink = true then pure nacked
  else
    let toProcess := toProcess.filter fun msg => !msg.dropped
    if toProcess = [] then pure nacked
    else do
      let written ← writeToSink w answers toProcess
      pure (written ++ nacked)

/-- Take the handles of the nacked messages out of the map; a message without a handle makes the
writer panic. -/
def takeNacked : List UdfMessage → HashMap MessageID UdfMessage →
    Option (HashMap MessageID UdfMessage × List UdfMessage)
  | [], handles => some (handles, [])
  | msg :: nacked, handles =>
    match handles.lookup msg.id with
    | none => none
    | some handle =>
      (takeNacked nacked (handles.erase msg.id)).map fun (rest, taken) =>
        (rest, { handle with nackOptions := msg.nackOptions } :: taken)

/-- The handles that are acked and those that are nacked.  A handle stands for the message it
belongs to. -/
def splitBatchHandles (batch nacked : List UdfMessage) :
    Option (List UdfMessage × List UdfMessage) :=
  (takeNacked nacked (HashMap.insertAll ∅ (batch.map fun msg => ⟨msg.id, msg⟩))).map
    fun (rest, taken) => (HashMap.values rest, taken)

/-! ## Batch after batch -/

/-- The writer writes; or it drains after an error; or it has panicked. -/
inductive WriterStatus where
  | running
  | draining (error : SinkError)
  | dead

/-- What became of a batch: the log of the sinks, and the marks in the order they were made. -/
structure BatchOutcome where
  messages : List UdfMessage
  log : List SinkEvent := []
  marks : List (UdfMessage × Mark) := []

def markFailedBatch (batch : List UdfMessage) (e : SinkError) : List (UdfMessage × Mark) :=
  batch.map fun msg => (msg, .failed e.display none)

/-- The marks of a batch that was written. -/
def markProcessed (acked nacked : List UdfMessage) : List (UdfMessage × Mark) :=
  nacked.map (fun msg => (msg, .failed "message nacked" msg.nackOptions)) ++
    acked.map fun msg => (msg, .success)

/-- One turn of the loop. -/
def writeBatch (w : SinkWriter) (status : WriterStatus) (batch : List UdfMessage)
    (answers : BatchAnswers) : WriterStatus × BatchOutcome :=
  match status with
  | .dead => (.dead, { messages := batch })
  | .draining e => (.draining e, { messages := batch, marks := markFailedBatch batch e })
  | .running =>
    let written := processBatch w answers batch
    match written.result with
    | .error e =>
      (.draining e,
        { messages := batch, log := written.log, marks := markFailedBatch batch e })
    | .ok nacked =>
      match splitBatchHandles batch nacked with
      | none => (.dead, { messages := batch, log := written.log })
      | some (acked, nacked) =>
        (.running,
          { messages := batch, log := written.log, marks := markProcessed acked nacked })

/-- The batches of a stream. -/
def streamingWrite (w : SinkWriter) :
    WriterStatus → List (List UdfMessage × BatchAnswers) → List BatchOutcome
  | _, [] => []
  | status, (batch, answers) :: batches =>
    let (status, outcome) := writeBatch w status batch answers
    outcome :: streamingWrite w status batches

/-! ## What the log says about a message -/

/-- The message was put into the serving store. -/
def Stored (log : List SinkEvent) (id : String) : Prop :=
  ∃ messages entries, SinkEvent.stored messages entries ∈ log ∧ ∃ msg ∈ messages, msg.id.text = id

/-- A sink or the serving store took the message. -/
def Accepted (log : List SinkEvent) (id : String) : Prop :=
  (∃ sink, Answered log sink id .success) ∨ Stored log id

def SinkEvent.stores (id : String) : SinkEvent → Bool
  | .stored messages _ => messages.any fun msg => msg.id.text = id
  | _ => false

instance (log : List SinkEvent) (id : String) : Decidable (Stored log id) :=
  decidable_of_iff (log.any (SinkEvent.stores id) = true) <| by
    rw [List.any_eq_true]
    constructor
    · rintro ⟨e, he, h⟩
      cases e with
      | stored messages entries =>
        simp only [SinkEvent.stores, decide_eq_true_eq, List.any_eq_true] at h
        exact ⟨messages, entries, he, h⟩
      | _ => cases h
    · rintro ⟨messages, entries, he, h⟩
      refine ⟨_, he, ?_⟩
      simpa only [SinkEvent.stores, decide_eq_true_eq, List.any_eq_true] using h

/-- What the sinks asked for was done by the sink they asked for. -/
structure CarriedOut (log : List SinkEvent) (id : String) : Prop where
  fallback : ∀ sink, Answered log sink id .fallback → Answered log .fallback id .success
  onSuccess : ∀ sink payload, Answered log sink id (.onSuccess payload) →
    Answered log .onSuccess id .success
  serving : ∀ sink response, Answered log sink id (.serve response) → Stored log id

/-- The sink never asks for the on-success sink. -/
def Quiet (answers : Nat → SinkAnswer) : Prop :=
  ∀ n responses, (answers n).responses = .ok responses →
    ∀ resp ∈ responses, ∀ payload, resp.status ≠ .onSuccess payload

variable {log : List SinkEvent} {answers : Nat → SinkAnswer} {messages nacked : List UdfMessage}
  {store : Except SinkError Unit} {e : SinkError} {p : Prop} {u : Unit}

@[simp]
theorem yields_throwIf [Decidable p] : (throwIf p e).Yields log u ↔ ¬ p ∧ log = [] := by
  unfold throwIf
  split_ifs with hp <;> simp [hp]

/-! ## The sinks that the primary sink forwards to -/

/-- A sink that nothing is forwarded from took what was forwarded to it. -/
structure Served (sink : SinkKind) (log : List SinkEvent) (messages nacked : List UdfMessage) :
    Prop where
  settled : ∀ msg ∈ messages, Answered log sink msg.id.text .success ∨
    StrategyDropped log msg.id.text ∨ ∃ m ∈ nacked, m.id = msg.id
  requested : ∀ sink' id status c, Answered log sink' id status → status.category = some c →
    c = .failed ∨ c = .nacked ∧ ∃ m ∈ nacked, m.id.text = id
  origin : ∀ m ∈ nacked, ∃ msg ∈ messages, m.id = msg.id

variable {sink : SinkKind} {r : SinkActorResponse} {configured : Bool} {errors : SecondaryErrors}
  {w : SinkWriter}

theorem Outcome.served (h : Outcome sink answers log { failed := messages } r)
    (hquiet : Quiet answers) (hfallback : r.fallback = []) (hserving : r.serving = [])
    (hfailed : r.failed = []) : Served sink log messages r.nacked where
  settled msg hmsg := by
    rcases h.settled msg hmsg with haccepted | ⟨c, m, hm, hid⟩
    · exact .inl haccepted
    · rw [← hid]
      cases c with
      | failed => simp [SinkActorResponse.get, hfailed] at hm
      | fallback => simp [SinkActorResponse.get, hfallback] at hm
      | serving => simp [SinkActorResponse.get, hserving] at hm
      | dropped => exact .inr (.inl ((h.dropped m hm).resolve_left not_mem_nil))
      | onSuccess =>
        obtain ⟨payload, hanswered⟩ := (h.onSuccess m hm).resolve_left not_mem_nil
        obtain ⟨-, n, responses, hresponses, hmem⟩ := h.answered _ _ _ hanswered
        exact absurd rfl (hquiet n responses hresponses _ hmem payload)
      | nacked => exact .inr (.inr ⟨m, hm, rfl⟩)
  requested sink' id status c hanswered hc := by
    obtain ⟨rfl, n, responses, hresponses, hmem⟩ := h.answered _ _ _ hanswered
    have hrequested := h.requested id status c hanswered hc
    cases c with
    | failed => exact .inl rfl
    | fallback => simp [SinkActorResponse.get, hfallback] at hrequested
    | serving => simp [SinkActorResponse.get, hserving] at hrequested
    | dropped => cases status <;> cases hc
    | onSuccess =>
      cases status with
      | onSuccess payload => exact absurd rfl (hquiet n responses hresponses _ hmem payload)
      | _ => cases hc
    | nacked => exact .inr ⟨rfl, hrequested (by simp)⟩
  origin m hm := by
    rcases h.origin .nacked m hm with ⟨-, hm⟩ | hmsg
    · cases hm
    · exact hmsg

theorem served_nil (sink : SinkKind) : Served sink [] [] [] where
  settled _ h := by cases h
  requested _ _ _ _ h := absurd h not_answered_nil
  origin _ h := by cases h

theorem writeToSecondary_spec {c : RetryConfig} (hquiet : Quiet answers)
    (h : (writeToSecondary c sink configured errors answers messages).Yields log nacked) :
    Served sink log messages nacked := by
  rcases yields_ite.mp h with ⟨rfl, hpure⟩ | ⟨-, hwrite⟩
  · obtain ⟨rfl, rfl⟩ := yields_pure.mp hpure
    exact served_nil sink
  · simp only [yields_bind, yields_throwIf, yields_pure, not_not] at hwrite
    obtain ⟨_, _, _, ⟨-, rfl⟩, ⟨called, r, _, hcall, ⟨_, _, _, ⟨hfallback, rfl⟩, ⟨_, _, _,
      ⟨hserving, rfl⟩, ⟨_, _, _, ⟨hfailed, rfl⟩, ⟨rfl, rfl⟩, rfl⟩, rfl⟩, rfl⟩, rfl⟩, rfl⟩ := hwrite
    simp only [nil_append, append_nil]
    exact (writeMessagesWithRetry_spec hcall).served hquiet hfallback hserving hfailed

theorem writeToServingStore_spec (h : (writeToServingStore w store messages).Yields log nacked) :
    nacked = [] ∧ ∃ entries, log = [.stored messages entries] := by
  rcases yields_ite.mp h with ⟨-, hfail⟩ | ⟨-, hwrite⟩
  · exact absurd hfail not_yields_fail
  · cases hentries : messages.mapM storeEntry with
    | error => simp [hentries] at hwrite
    | ok entries =>
      cases store with
      | error => simp [hentries] at hwrite
      | ok =>
        simp only [hentries, yields_bind, yields_tell, yields_pure] at hwrite
        obtain ⟨_, _, _, rfl, ⟨rfl, rfl⟩, rfl⟩ := hwrite
        exact ⟨rfl, entries, rfl⟩

/-! ## A batch -/

/-- The serving store took what was forwarded to it. -/
structure StoredAll (log : List SinkEvent) (messages : List UdfMessage) : Prop where
  settled : ∀ msg ∈ messages, Stored log msg.id.text
  silent : ∀ sink id status, ¬ Answered log sink id status

theorem storedAll_of_yields
    (h : (if messages = [] then pure [] else writeToServingStore w store messages :
      SinkM (List UdfMessage)).Yields log nacked) : nacked = [] ∧ StoredAll log messages := by
  rcases yields_ite.mp h with ⟨rfl, hpure⟩ | ⟨-, hstore⟩
  · obtain ⟨rfl, rfl⟩ := yields_pure.mp hpure
    exact ⟨rfl, by simp, fun _ _ _ => not_answered_nil⟩
  · obtain ⟨rfl, entries, rfl⟩ := writeToServingStore_spec hstore
    refine ⟨rfl, fun msg hmsg => ⟨messages, entries, mem_singleton_self _, msg, hmsg, rfl⟩, ?_⟩
    rintro sink id status ⟨messages', responses, hmem, -⟩
    cases mem_singleton.mp hmem

/-- Every message of a batch is taken, dropped or nacked, and what a sink nacked is nacked. -/
structure Written (log : List SinkEvent) (messages nacked : List UdfMessage) : Prop where
  settled : ∀ msg ∈ messages, (∃ m ∈ nacked, m.id.text = msg.id.text) ∨
    StrategyDropped log msg.id.text ∨ Accepted log msg.id.text ∧ CarriedOut log msg.id.text
  nacks : ∀ sink id options, Answered log sink id (.nack options) → ∃ m ∈ nacked, m.id.text = id
  origin : ∀ m ∈ nacked, ∃ msg ∈ messages, m.id = msg.id

section

variable {primary fallback onSuccess serving : List SinkEvent}
  {fallbackNacked onSuccessNacked : List UdfMessage} {m : UdfMessage} {c : Category} {id : String}
  {status : ResponseStatus}

/-- The lists of a response hold messages of the batch. -/
theorem Outcome.mem_batch (h : Outcome sink answers primary { failed := messages } r)
    (hm : m ∈ r.get c) : ∃ msg ∈ messages, m.id = msg.id := by
  rcases h.origin c m hm with ⟨hc, hm⟩ | hmsg
  · cases c with
    | failed => exact absurd rfl hc
    | _ => cases hm
  · exact hmsg

theorem Served.accepted (h : Served sink log messages nacked) (hm : m ∈ messages)
    (hnacked : ∀ m' ∈ nacked, m'.id.text ≠ m.id.text) (hdropped : ¬ StrategyDropped log m.id.text) :
    Answered log sink m.id.text .success := by
  rcases h.settled m hm with haccepted | hdrop | ⟨m', hm', hid⟩
  · exact haccepted
  · exact absurd hdrop hdropped
  · exact absurd (by rw [hid]) (hnacked m' hm')

/-- A request for another sink comes from the primary sink. -/
theorem answered_primary (h : Outcome .primary answers primary { failed := messages } r)
    (hfallback : Served .fallback fallback r.fallback fallbackNacked)
    (honSuccess : Served .onSuccess onSuccess r.onSuccess onSuccessNacked)
    (hserving : StoredAll serving r.serving) {sink : SinkKind} {id : String}
    {status : ResponseStatus} {c : Category} (hc : status.category = some c) (hfailed : c ≠ .failed)
    (hnacked : c ≠ .nacked)
    (hanswered : Answered (primary ++ fallback ++ onSuccess ++ serving) sink id status) :
    ∃ m ∈ r.get c, m.id.text = id := by
  simp only [answered_append] at hanswered
  rcases hanswered with ((hanswered | hanswered) | hanswered) | hanswered
  · obtain ⟨rfl, -⟩ := h.answered _ _ _ hanswered
    exact h.requested id status c hanswered hc hfailed
  · rcases hfallback.requested _ _ _ _ hanswered hc with heq | ⟨heq, -⟩
    · exact absurd heq hfailed
    · exact absurd heq hnacked
  · rcases honSuccess.requested _ _ _ _ hanswered hc with heq | ⟨heq, -⟩
    · exact absurd heq hfailed
    · exact absurd heq hnacked
  · exact absurd hanswered (hserving.silent _ _ _)

/-- A message that is neither nacked nor dropped was taken by the sinks it was forwarded to. -/
structure Forwarded (log : List SinkEvent) (r : SinkActorResponse) (id : String) : Prop where
  fallback : ∀ m ∈ r.fallback, m.id.text = id → Answered log .fallback id .success
  onSuccess : ∀ m ∈ r.onSuccess, m.id.text = id → Answered log .onSuccess id .success
  serving : ∀ m ∈ r.serving, m.id.text = id → Stored log id

theorem forwarded (hfallback : Served .fallback fallback r.fallback fallbackNacked)
    (honSuccess : Served .onSuccess onSuccess r.onSuccess onSuccessNacked)
    (hserving : StoredAll serving r.serving)
    (hfallbackNacked : ∀ m ∈ fallbackNacked, m.id.text ≠ id)
    (honSuccessNacked : ∀ m ∈ onSuccessNacked, m.id.text ≠ id)
    (hdropped : ¬ StrategyDropped (primary ++ fallback ++ onSuccess ++ serving) id) :
    Forwarded (primary ++ fallback ++ onSuccess ++ serving) r id := by
  simp only [strategyDropped_append, not_or] at hdropped
  constructor
  · rintro m hm rfl
    have haccepted := hfallback.accepted hm hfallbackNacked hdropped.1.1.2
    simp only [answered_append, haccepted, or_true, true_or]
  · rintro m hm rfl
    have haccepted := honSuccess.accepted hm honSuccessNacked hdropped.1.2
    simp only [answered_append, haccepted, or_true, true_or]
  · rintro m hm rfl
    obtain ⟨stored, entries, hmem, hstored⟩ := hserving.settled m hm
    exact ⟨stored, entries, mem_append_right _ hmem, hstored⟩

/-- The four sinks together. -/
theorem Outcome.written
    (h : Outcome .primary answers primary { failed := messages } r) (hfailed : r.failed = [])
    (hfallback : Served .fallback fallback r.fallback fallbackNacked)
    (honSuccess : Served .onSuccess onSuccess r.onSuccess onSuccessNacked)
    (hserving : StoredAll serving r.serving) :
    Written (primary ++ fallback ++ onSuccess ++ serving) messages
      (r.nacked ++ fallbackNacked ++ onSuccessNacked) where
  settled msg hmsg := by
    by_cases hnacked : ∃ m ∈ r.nacked ++ fallbackNacked ++ onSuccessNacked, m.id.text = msg.id.text
    · exact .inl hnacked
    by_cases hdropped : StrategyDropped (primary ++ fallback ++ onSuccess ++ serving) msg.id.text
    · exact .inr (.inl hdropped)
    simp only [mem_append, not_exists, not_and, or_imp, forall_and] at hnacked
    have hforwarded := forwarded hfallback honSuccess hserving hnacked.1.2 hnacked.2 hdropped
    have hrequested := @answered_primary _ _ _ _ _ _ _ _ _ h hfallback honSuccess hserving
    refine .inr (.inr ⟨?_, ?_, ?_, ?_⟩)
    · rcases h.settled msg hmsg with haccepted | ⟨c, m, hm, hid⟩
      · refine .inl ⟨.primary, ?_⟩
        simp only [answered_append, haccepted, true_or]
      · have htext : m.id.text = msg.id.text := by rw [hid]
        cases c with
        | failed => simp [SinkActorResponse.get, hfailed] at hm
        | fallback => exact .inl ⟨_, hforwarded.fallback m hm htext⟩
        | serving => exact .inr (hforwarded.serving m hm htext)
        | dropped =>
          have hdrop := (h.dropped m hm).resolve_left not_mem_nil
          rw [htext] at hdrop
          simp only [strategyDropped_append, hdrop, true_or, not_true_eq_false] at hdropped
        | onSuccess => exact .inl ⟨_, hforwarded.onSuccess m hm htext⟩
        | nacked => exact absurd htext (hnacked.1.1 m hm)
    · intro sink hanswered
      obtain ⟨m, hm, hid⟩ := hrequested (c := .fallback) rfl (by simp) (by simp) hanswered
      exact hforwarded.fallback m hm hid
    · intro sink payload hanswered
      obtain ⟨m, hm, hid⟩ := hrequested (c := .onSuccess) rfl (by simp) (by simp) hanswered
      exact hforwarded.onSuccess m hm hid
    · intro sink response hanswered
      obtain ⟨m, hm, hid⟩ := hrequested (c := .serving) rfl (by simp) (by simp) hanswered
      exact hforwarded.serving m hm hid
  nacks sink id options hanswered := by
    simp only [answered_append] at hanswered
    simp only [mem_append, or_and_right, exists_or]
    rcases hanswered with ((hanswered | hanswered) | hanswered) | hanswered
    · obtain ⟨rfl, -⟩ := h.answered _ _ _ hanswered
      exact .inl (.inl (h.requested id _ .nacked hanswered rfl (by simp)))
    · rcases hfallback.requested _ _ _ .nacked hanswered rfl with heq | ⟨-, hm⟩
      · cases heq
      · exact .inl (.inr hm)
    · rcases honSuccess.requested _ _ _ .nacked hanswered rfl with heq | ⟨-, hm⟩
      · cases heq
      · exact .inr hm
    · exact absurd hanswered (hserving.silent _ _ _)
  origin m hm := by
    simp only [mem_append] at hm
    rcases hm with (hm | hm) | hm
    · exact h.mem_batch (c := .nacked) hm
    · obtain ⟨m', hm', hid⟩ := hfallback.origin m hm
      obtain ⟨msg, hmsg, hid'⟩ := h.mem_batch (c := .fallback) hm'
      exact ⟨msg, hmsg, hid.trans hid'⟩
    · obtain ⟨m', hm', hid⟩ := honSuccess.origin m hm
      obtain ⟨msg, hmsg, hid'⟩ := h.mem_batch (c := .onSuccess) hm'
      exact ⟨msg, hmsg, hid.trans hid'⟩

end

/-- The sinks behind the primary sink never ask for the on-success sink. -/
def BatchAnswers.Quiet (answers : BatchAnswers) : Prop :=
  Sink.Quiet answers.fallback ∧ Sink.Quiet answers.onSuccess

variable {answers : BatchAnswers} {taken batch : List UdfMessage} {id : MessageID}
  {marks : List (UdfMessage × Mark)}

theorem writeToSink_spec (hquiet : answers.Quiet)
    (h : (writeToSink w answers messages).Yields log nacked) : Written log messages nacked := by
  rcases yields_ite.mp h with ⟨rfl, hpure⟩ | ⟨-, hwrite⟩
  · obtain ⟨rfl, rfl⟩ := yields_pure.mp hpure
    exact ⟨by simp, fun _ _ _ h => absurd h not_answered_nil, by simp⟩
  · obtain ⟨primary, r, _, hprimary, hcheck, rfl⟩ := yields_bind.mp hwrite
    obtain ⟨_, _, _, hthrow, hforward, rfl⟩ := yields_bind.mp hcheck
    obtain ⟨hfailed, rfl⟩ := yields_throwIf.mp hthrow
    obtain ⟨fallback, _, _, hfallback, hafter, rfl⟩ := yields_bind.mp hforward
    obtain ⟨onSuccess, _, _, honSuccess, hlast, rfl⟩ := yields_bind.mp hafter
    obtain ⟨serving, _, _, hserving, hpure, rfl⟩ := yields_bind.mp hlast
    obtain ⟨rfl, rfl⟩ := yields_pure.mp hpure
    obtain ⟨rfl, hstored⟩ := storedAll_of_yields hserving
    have hwritten := (writeMessagesWithRetry_spec hprimary).written (not_not.mp hfailed)
      (writeToSecondary_spec hquiet.1 hfallback) (writeToSecondary_spec hquiet.2 honSuccess) hstored
    simpa only [nil_append, append_nil, append_assoc] using hwritten

/-- What the sinks, the tags and the strategy ask for comes out of a batch. -/
structure Processed (log : List SinkEvent) (messages nacked : List UdfMessage) : Prop where
  settled : ∀ msg ∈ messages, (∃ m ∈ nacked, m.id.text = msg.id.text) ∨ msg.dropped = true ∨
    StrategyDropped log msg.id.text ∨ Accepted log msg.id.text ∧ CarriedOut log msg.id.text
  tagged : ∀ msg ∈ messages, msg.nacked = true → ∃ m ∈ nacked, m.id.text = msg.id.text
  nacks : ∀ sink id options, Answered log sink id (.nack options) → ∃ m ∈ nacked, m.id.text = id
  origin : ∀ m ∈ nacked, ∃ msg ∈ messages, m.id = msg.id

/-- Where the messages of a batch end up. -/
theorem processBatch_spec (hbypass : w.bypassSink = false) (hquiet : answers.Quiet)
    (h : (processBatch w answers messages).Yields log nacked) : Processed log messages nacked := by
  have htagged : ∀ msg ∈ messages, msg.nacked = true →
      msg ∈ messages.filter fun msg => msg.nacked := by
    intro msg hmsg hnacked
    exact mem_filter.mpr ⟨hmsg, hnacked⟩
  have hown : ∀ m ∈ messages.filter fun msg => msg.nacked, ∃ msg ∈ messages, m.id = msg.id :=
    fun m hm => ⟨m, mem_of_mem_filter hm, rfl⟩
  have hrest : ∀ msg ∈ messages, msg.nacked = false → msg.dropped = false →
      msg ∈ (messages.filter fun msg => !msg.nacked).filter fun msg => !msg.dropped := by
    intro msg hmsg hnacked hdropped
    simp [hmsg, hnacked, hdropped]
  unfold processBatch at h
  simp only [hbypass, Bool.false_eq_true, if_false] at h
  rcases yields_ite.mp h with ⟨hempty, hpure⟩ | ⟨-, hwrite⟩
  · obtain ⟨rfl, rfl⟩ := yields_pure.mp hpure
    refine ⟨fun msg hmsg => ?_, fun msg hmsg hnacked => ⟨msg, htagged msg hmsg hnacked, rfl⟩,
      fun _ _ _ h => absurd h not_answered_nil, hown⟩
    by_cases hnacked : msg.nacked = true
    · exact .inl ⟨msg, htagged msg hmsg hnacked, rfl⟩
    · refine .inr (.inl (by_contra fun hdropped => ?_))
      have hmem := hrest msg hmsg (Bool.not_eq_true _ ▸ hnacked) (Bool.not_eq_true _ ▸ hdropped)
      rw [hempty] at hmem
      cases hmem
  · obtain ⟨_, written, _, hsink, hpure, rfl⟩ := yields_bind.mp hwrite
    obtain ⟨rfl, rfl⟩ := yields_pure.mp hpure
    rw [append_nil]
    have hwritten := writeToSink_spec hquiet hsink
    have hleft : ∀ id, (∃ m ∈ written, m.id.text = id) →
        ∃ m ∈ written ++ messages.filter fun msg => msg.nacked, m.id.text = id :=
      fun id ⟨m, hm, hid⟩ => ⟨m, mem_append_left _ hm, hid⟩
    have hright : ∀ msg ∈ messages, msg.nacked = true →
        ∃ m ∈ written ++ messages.filter fun msg => msg.nacked, m.id.text = msg.id.text :=
      fun msg hmsg hnacked => ⟨msg, mem_append_right _ (htagged msg hmsg hnacked), rfl⟩
    refine ⟨fun msg hmsg => ?_, hright,
      fun sink id options hanswered => hleft id (hwritten.nacks sink id options hanswered),
      fun m hm => ?_⟩
    · by_cases hnacked : msg.nacked = true
      · exact .inl (hright msg hmsg hnacked)
      by_cases hdropped : msg.dropped = true
      · exact .inr (.inl hdropped)
      have hmem := hrest msg hmsg (Bool.not_eq_true _ ▸ hnacked) (Bool.not_eq_true _ ▸ hdropped)
      rcases hwritten.settled msg hmem with hnack | hdrop | htaken
      · exact .inl (hleft _ hnack)
      · exact .inr (.inr (.inl hdrop))
      · exact .inr (.inr (.inr htaken))
    · rcases mem_append.mp hm with hm | hm
      · obtain ⟨msg, hmsg, hid⟩ := hwritten.origin m hm
        exact ⟨msg, mem_of_mem_filter (mem_of_mem_filter hmsg), hid⟩
      · exact hown m hm

/-! ## The handles -/

variable {handles rest : HashMap MessageID UdfMessage} {handle : UdfMessage}
  {acked : List UdfMessage}

theorem lookup_takeNacked (h : takeNacked nacked handles = some (rest, taken))
    (hlookup : rest.lookup id = some handle) :
    handles.lookup id = some handle ∧ ∀ m ∈ nacked, m.id ≠ id := by
  induction nacked generalizing handles taken with
  | nil =>
    cases h
    exact ⟨hlookup, by simp⟩
  | cons msg _ ih =>
    unfold takeNacked at h
    split at h
    · cases h
    · obtain ⟨⟨rest', taken'⟩, htake, heq⟩ := Option.map_eq_some_iff.mp h
      cases heq
      obtain ⟨hkept, hne⟩ := ih htake
      have hid : msg.id ≠ id := by
        rintro rfl
        rw [AList.lookup_erase] at hkept
        cases hkept
      rw [AList.lookup_erase_ne hid.symm] at hkept
      exact ⟨hkept, forall_mem_cons.mpr ⟨hid, hne⟩⟩

/-- An acked handle belongs to a message of the batch that is not nacked. -/
theorem mem_splitBatchHandles (h : splitBatchHandles batch nacked = some (acked, taken))
    (hmem : handle ∈ acked) : ∀ m ∈ nacked, m.id ≠ handle.id := by
  obtain ⟨⟨rest, taken'⟩, htake, heq⟩ := Option.map_eq_some_iff.mp h
  cases heq
  obtain ⟨id, hlookup⟩ := HashMap.mem_values.mp hmem
  obtain ⟨hbatch, hne⟩ := lookup_takeNacked htake hlookup
  have hid : handle.id = id := by
    rcases HashMap.mem_of_lookup_insertAll hbatch with hempty | hentry
    · cases hempty
    · obtain ⟨msg, -, heq⟩ := mem_map.mp hentry
      cases heq
      rfl
  rwa [hid]

/-- The marks that were made on the handle of a message; a handle without a mark was dropped. -/
def marksOf (marks : List (UdfMessage × Mark)) (id : MessageID) : List Mark :=
  match marks.filter fun (handle, _) => handle.id = id with
  | [] => [.dropped]
  | made => made.map Prod.snd

theorem mem_marksOf_success (h : .success ∈ marksOf marks id) :
    ∃ handle, (handle, .success) ∈ marks ∧ handle.id = id := by
  unfold marksOf at h
  split at h
  · simp at h
  · obtain ⟨⟨handle, mark⟩, hmem, heq⟩ := mem_map.mp h
    cases heq
    obtain ⟨hmem, hid⟩ := mem_filter.mp hmem
    exact ⟨handle, hmem, of_decide_eq_true hid⟩

theorem marksOf_ne_nil (marks : List (UdfMessage × Mark)) (id : MessageID) :
    marksOf marks id ≠ [] := by
  unfold marksOf
  split
  · simp
  · rename_i hne
    simpa using hne

/-- A handle without a mark of success makes the reader nak the message. -/
theorem settle_marksOf (h : .success ∉ marksOf marks id) :
    ∃ options, settle (marksOf marks id) = .nak options := by
  obtain ⟨mark, hmark⟩ := exists_mem_of_ne_nil _ (marksOf_ne_nil marks id)
  exact settle_nak hmark fun heq => h (heq ▸ hmark)

/-- A message is acked only when its sinks took it, and nacked when one of them asked for it. -/
structure Settled (o : BatchOutcome) : Prop where
  success : ∀ msg ∈ o.messages, .success ∈ marksOf o.marks msg.id →
    msg.dropped = true ∨ StrategyDropped o.log msg.id.text ∨
      Accepted o.log msg.id.text ∧ CarriedOut o.log msg.id.text
  nacked : ∀ msg ∈ o.messages,
    (msg.nacked = true ∨ ∃ sink options, Answered o.log sink msg.id.text (.nack options)) →
      .success ∉ marksOf o.marks msg.id

variable {o : BatchOutcome} {batches : List (List UdfMessage × BatchAnswers)}
  {responses : List ResponseFromSink}

/-- Without a mark of success there is nothing to show. -/
theorem settled_of_no_success (h : ∀ entry ∈ o.marks, entry.2 ≠ .success) : Settled o := by
  have hno : ∀ id, .success ∉ marksOf o.marks id := by
    intro id hsuccess
    obtain ⟨handle, hmem, -⟩ := mem_marksOf_success hsuccess
    exact h _ hmem rfl
  exact ⟨fun msg _ hsuccess => absurd hsuccess (hno _), fun msg _ _ => hno _⟩

theorem ne_success_of_mem_markFailedBatch :
    ∀ entry ∈ markFailedBatch batch e, entry.2 ≠ .success := by
  intro entry hentry
  obtain ⟨msg, -, rfl⟩ := mem_map.mp hentry
  exact nofun

/-- The handles of a batch are marked as its processing asks for. -/
theorem Processed.marked (h : Processed log batch nacked)
    (hids : (batch.map fun msg => msg.id.text).Nodup)
    (hsplit : splitBatchHandles batch nacked = some (acked, taken)) :
    Settled ⟨batch, log, markProcessed acked taken⟩ := by
  -- a message that is to be nacked has no acked handle
  have hno : ∀ msg ∈ batch, (∃ m ∈ nacked, m.id.text = msg.id.text) →
      .success ∉ marksOf (markProcessed acked taken) msg.id := by
    rintro msg hmsg ⟨m, hm, htext⟩ hsuccess
    obtain ⟨msg', hmsg', hid⟩ := h.origin m hm
    have hsame := inj_on_of_nodup_map hids hmsg' hmsg (by rw [← hid, htext])
    obtain ⟨handle, hmem, hhandle⟩ := mem_marksOf_success hsuccess
    rcases mem_append.mp hmem with hmem | hmem
    · obtain ⟨_, -, heq⟩ := mem_map.mp hmem
      cases heq
    · obtain ⟨_, hacked, heq⟩ := mem_map.mp hmem
      cases heq
      exact mem_splitBatchHandles hsplit hacked m hm (by rw [hid, hsame, hhandle])
  constructor
  · intro msg hmsg hsuccess
    rcases h.settled msg hmsg with hnacked | hrest
    · exact absurd hsuccess (hno msg hmsg hnacked)
    · exact hrest
  · rintro msg hmsg (htag | ⟨sink, options, hanswered⟩)
    · exact hno msg hmsg (h.tagged msg hmsg htag)
    · exact hno msg hmsg (h.nacks sink _ options hanswered)

theorem settled_writeBatch {status : WriterStatus} (hbypass : w.bypassSink = false)
    (hids : (batch.map fun msg => msg.id.text).Nodup) (hquiet : answers.Quiet) :
    Settled (writeBatch w status batch answers).2 := by
  cases status with
  | dead => exact settled_of_no_success (by simp [writeBatch])
  | draining => exact settled_of_no_success ne_success_of_mem_markFailedBatch
  | running =>
    cases hresult : (processBatch w answers batch).result with
    | error =>
      simp only [writeBatch, hresult]
      exact settled_of_no_success ne_success_of_mem_markFailedBatch
    | ok nacked =>
      have hprocessed := processBatch_spec hbypass hquiet (yields_self hresult)
      cases hsplit : splitBatchHandles batch nacked with
      | none =>
        simp only [writeBatch, hresult, hsplit]
        exact settled_of_no_success (by simp)
      | some =>
        simp only [writeBatch, hresult, hsplit]
        exact hprocessed.marked hids hsplit

@[simp]
theorem messages_writeBatch (w : SinkWriter) (status : WriterStatus) (batch : List UdfMessage)
    (answers : BatchAnswers) : (writeBatch w status batch answers).2.messages = batch := by
  unfold writeBatch
  split
  · rfl
  · rfl
  · dsimp only
    split
    · rfl
    · split <;> rfl

theorem settled_streamingWrite (hbypass : w.bypassSink = false)
    (hids : ∀ b ∈ batches, (b.1.map fun msg => msg.id.text).Nodup)
    (hquiet : ∀ b ∈ batches, b.2.Quiet) (status : WriterStatus) :
    ∀ o ∈ streamingWrite w status batches, Settled o := by
  induction batches generalizing status with
  | nil => simp [streamingWrite]
  | cons b _ ih =>
    obtain ⟨hid, hids⟩ := forall_mem_cons.mp hids
    obtain ⟨hq, hquiet⟩ := forall_mem_cons.mp hquiet
    exact forall_mem_cons.mpr ⟨settled_writeBatch hbypass hid hq, ih hids hquiet _⟩

theorem messages_streamingWrite (w : SinkWriter) (status : WriterStatus)
    (batches : List (List UdfMessage × BatchAnswers)) :
    (streamingWrite w status batches).map (fun o => o.messages) = batches.map Prod.fst := by
  induction batches generalizing status with
  | nil => rfl
  | cons b _ ih => simp [streamingWrite, ih]

/-- When the fallback and the on-success sink do not ask for the on-success sink, a message is
marked as successful only when it was dropped or its sinks took it, and it is nacked when it
has the tag or one of the sinks asked for it. -/
theorem marked_success_of_quiet (w : SinkWriter) (hbypass : w.bypassSink = false)
    (batches : List (List UdfMessage × BatchAnswers))
    (hids : ∀ b ∈ batches, (b.1.map fun msg => msg.id.text).Nodup)
    (hquiet : ∀ b ∈ batches, b.2.Quiet) :
    (streamingWrite w .running batches).map (fun o => o.messages) = batches.map Prod.fst ∧
      ∀ o ∈ streamingWrite w .running batches, ∀ msg ∈ o.messages,
        (.success ∈ marksOf o.marks msg.id →
          msg.dropped = true ∨ StrategyDropped o.log msg.id.text ∨
            Accepted o.log msg.id.text ∧ CarriedOut o.log msg.id.text) ∧
        (msg.nacked = true ∨ (∃ sink options, Answered o.log sink msg.id.text (.nack options)) →
          ∃ options, settle (marksOf o.marks msg.id) = .nak options) := by
  refine ⟨messages_streamingWrite w .running batches, fun o ho msg hmsg => ?_⟩
  have hsettled := settled_streamingWrite hbypass hids hquiet .running o ho
  exact ⟨hsettled.success msg hmsg, fun hnack => settle_marksOf (hsettled.nacked msg hmsg hnack)⟩

/-- A message that was read. -/
def readMessage (offset : Nat) : UdfMessage :=
  { id := ⟨"in", toString offset, 0⟩, eventTime := 0 }

/-- A vertex with all sinks, which tries a batch twice. -/
def allSinks : SinkWriter where
  retryConfig := ⟨1, .retry⟩
  hasFallback := true
  hasOnSuccess := true

def answering (responses : List ResponseFromSink) : Nat → SinkAnswer :=
  fun _ => ⟨.ok responses, false⟩

/-- The first message fails once; the others go to the fallback sink, which nacks the last. -/
def forwarding : BatchAnswers where
  primary n :=
    ⟨.ok (if n = 0 then [⟨"in-0-0", .failed "full"⟩, ⟨"in-1-0", .fallback⟩, ⟨"in-2-0", .fallback⟩]
      else [⟨"in-0-0", .success⟩]), false⟩
  fallback := answering [⟨"in-1-0", .success⟩, ⟨"in-2-0", .nack none⟩]
  onSuccess := answering []

theorem quiet_answering (h : ∀ resp ∈ responses, resp.status.category ≠ some .onSuccess) :
    Quiet (answering responses) := by
  rintro n _ ⟨⟩ resp hresp payload hstatus
  exact h resp hresp (by rw [hstatus]; rfl)

theorem marked_success_of_quiet_forwarding :
    let batches := [([readMessage 0, readMessage 1, readMessage 2], forwarding)]
    (streamingWrite allSinks .running batches).map (fun o =>
        o.messages.map fun msg => settle (marksOf o.marks msg.id)) = [[.ack, .ack, .nak none]] ∧
      ∀ o ∈ streamingWrite allSinks .running batches, ∀ msg ∈ o.messages,
        .success ∈ marksOf o.marks msg.id → msg.dropped = true ∨ StrategyDropped o.log msg.id.text ∨
            Accepted o.log msg.id.text ∧ CarriedOut o.log msg.id.text := by
  refine ⟨by decide, fun o ho msg hmsg => ?_⟩
  refine ((marked_success_of_quiet allSinks rfl _ ?_ ?_).2 o ho msg hmsg).1
  · simp only [List.forall_mem_singleton]
    decide
  · simp only [List.forall_mem_singleton]
    exact ⟨quiet_answering (by decide), quiet_answering (by decide)⟩

/-- The primary sink asks for the fallback sink, and that for the on-success sink. -/
def forwardingTwice : BatchAnswers where
  primary := answering [⟨"in-0-0", .fallback⟩]
  fallback := answering [⟨"in-0-0", .onSuccess none⟩]
  onSuccess := answering []

/-- A request of the fallback sink for the on-success sink is ignored: no sink takes the message
and it is acked. -/
theorem fallbackOnSuccess_ignored :
    ∃ o, streamingWrite allSinks .running [([readMessage 0], forwardingTwice)] = [o] ∧
      .success ∈ marksOf o.marks (readMessage 0).id ∧ (readMessage 0).dropped = false ∧
      ¬ StrategyDropped o.log (readMessage 0).id.text ∧
      Answered o.log .fallback (readMessage 0).id.text (.onSuccess none) ∧
      ¬ Answered o.log .onSuccess (readMessage 0).id.text .success ∧
      ¬ Accepted o.log (readMessage 0).id.text := by
  refine ⟨_, rfl, by decide, by decide, by decide, by decide, by decide, ?_⟩
  rintro (⟨sink, haccepted⟩ | hstored)
  · revert haccepted
    cases sink <;> decide
  · revert hstored
    decide

end Numaflow.Sink
