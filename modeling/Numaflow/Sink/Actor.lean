import Numaflow.Lib.Logged
import Numaflow.Handle

/-!
# Writing a batch to one sink

A sink answers every message of a batch with a status.  The actor of the sink sorts the
messages by their statuses and calls the sink again with those that failed, until none is
left, the vertex is shut down or the attempts are used up; then the configured strategy
decides what happens to the rest.

The answers of the sink are an argument, one for every attempt.  The calls are logged.

Main results: `classify_spec`, `writeMessagesWithRetry_spec`.
-/

namespace Numaflow.Sink

open Lib Logged List

/-! ## Messages and answers -/

/-- Tell the sink how often the message has been tried. -/
def setSinkRetryCount (msg : UdfMessage) (count : Nat) : UdfMessage :=
  let metadata := msg.metadata.getD {}
  let group := (metadata.sysMetadata.lookup "sink").getD ∅
  { msg with
    metadata := some { metadata with
      sysMetadata := metadata.sysMetadata.insert "sink"
        (group.insert "retry_count" (toString count).toUTF8.toList) } }

/-- The payload for the on-success sink. -/
structure OnSuccessMessage where
  value : List UInt8
  keys : List String
  userMetadata : Option KeyValueGroups := none
deriving DecidableEq

/-- The answer of a sink for one message. -/
inductive ResponseStatus where
  | success
  | failed (error : String)
  | fallback
  | serve (response : Option (List UInt8))
  | onSuccess (message : Option OnSuccessMessage)
  | nack (options : Option NackOptions)
deriving DecidableEq

structure ResponseFromSink where
  id : String
  status : ResponseStatus
deriving DecidableEq

/-- The errors of the sink writer. -/
inductive SinkError where
  | sink (text : String)
  | fbSink (text : String)
  | osSink (text : String)
  | other (text : String)
deriving DecidableEq, Repr

/-- The text that a message is marked with. -/
def SinkError.display : SinkError → String
  | .sink text => "Sink Error - " ++ text
  | .fbSink text => "Fallback Sink Error - " ++ text
  | .osSink text => "OnSuccess Sink Error - " ++ text
  | .other text => text

/-- What a call of the sink comes back with, and whether the vertex is shutting down then. -/
structure SinkAnswer where
  responses : Except SinkError (List ResponseFromSink)
  cancelled : Bool := false

inductive SinkKind where
  | primary
  | fallback
  | onSuccess
deriving DecidableEq, Repr

/-- What is put into the serving store. -/
structure StoreEntry where
  podHash : String
  id : String
  value : List UInt8
deriving DecidableEq, Repr

/-- What is logged: the answers of a sink to a call, the messages that were dropped after the
last attempt, and the messages that were put into the serving store with their entries. -/
inductive SinkEvent where
  | answered (sink : SinkKind) (messages : List UdfMessage) (responses : List ResponseFromSink)
  | dropped (sink : SinkKind) (messages : List UdfMessage)
  | stored (messages : List UdfMessage) (entries : List StoreEntry)

abbrev SinkM := Logged SinkEvent SinkError

/-! ## The actor -/

/-- The lists that the messages of a batch are sorted into; between two attempts the failed
messages are those that are tried again. -/
structure SinkActorResponse where
  failed : List UdfMessage := []
  fallback : List UdfMessage := []
  serving : List UdfMessage := []
  dropped : List UdfMessage := []
  onSuccess : List UdfMessage := []
  nacked : List UdfMessage := []

/-- The message for the on-success sink: the message itself, or a new payload in it. -/
def onSuccessMessage (msg : UdfMessage) (payload : Option OnSuccessMessage) : UdfMessage :=
  match payload with
  | none => msg
  | some payload =>
    let metadata : Metadata :=
      match msg.metadata with
      | some previous =>
        { previous with userMetadata := payload.userMetadata.getD previous.userMetadata }
      | none => { userMetadata := payload.userMetadata.getD ∅ }
    { msg with value := payload.value, keys := payload.keys, metadata := some metadata }

/-- Sort a message by the status that the sink gave it. -/
def SinkActorResponse.push (r : SinkActorResponse) (msg : UdfMessage) :
    ResponseStatus → SinkActorResponse
  | .success => r
  | .failed _ => { r with failed := r.failed ++ [msg] }
  | .fallback => { r with fallback := r.fallback ++ [msg] }
  | .serve response =>
    { r with serving := r.serving ++ [{ msg with value := response.getD msg.value }] }
  | .onSuccess payload => { r with onSuccess := r.onSuccess ++ [onSuccessMessage msg payload] }
  | .nack options => { r with nacked := r.nacked ++ [{ msg with nackOptions := options }] }

/-- The statuses by identity; an identity may occur once. -/
def resultMap : List ResponseFromSink → HashMap String ResponseStatus →
    Except SinkError (HashMap String ResponseStatus)
  | [], results => .ok results
  | resp :: responses, results =>
    if (results.lookup resp.id).isSome then
      .error (.sink ("duplicate response id from sink: " ++ resp.id))
    else resultMap responses (results.insert resp.id resp.status)

/-- Sort the messages by their statuses; every message must have one. -/
def classify : List UdfMessage → HashMap String ResponseStatus → SinkActorResponse →
    Except SinkError (HashMap String ResponseStatus × SinkActorResponse)
  | [], results, r => .ok (results, r)
  | msg :: messages, results, r =>
    match results.lookup msg.id.text with
    | some status => classify messages (results.erase msg.id.text) (r.push msg status)
    | none => .error (.sink ("missing response from sink for message id: " ++ msg.id.text))

/-- Sort the messages by the responses; every response must belong to a message. -/
def sortResponses (messages : List UdfMessage) (responses : List ResponseFromSink)
    (r : SinkActorResponse) : Except SinkError SinkActorResponse := do
  let results ← resultMap responses ∅
  let (rest, r) ← classify messages results r
  if rest.keys = [] then pure r
  else
    throw (.sink ("received responses for unknown message ids from sink: " ++
      ", ".intercalate (rest.keys.mergeSort)))

/-- One call of the sink with the failed messages of the attempt before. -/
def callSink (sink : SinkKind) (answer : SinkAnswer) (attempt : Nat) (r : SinkActorResponse) :
    SinkM SinkActorResponse :=
  let messages := r.failed.map fun msg => setSinkRetryCount msg attempt
  match answer.responses with
  | .error e => .fail e
  | .ok responses =>
    match sortResponses messages responses { r with failed := [] } with
    | .error e => ⟨[.answered sink messages responses], .error e⟩
    | .ok r => ⟨[.answered sink messages responses], .ok r⟩

/-- The attempts are used up. -/
def exhausted (c : RetryConfig) (sink : SinkKind) (r : SinkActorResponse) :
    SinkM SinkActorResponse :=
  match c.onFailStrategy with
  | .fallback => pure { r with fallback := r.fallback ++ r.failed, failed := [] }
  | .drop => do
      .tell (.dropped sink r.failed)
      pure { r with dropped := r.dropped ++ r.failed, failed := [] }
  | .retry => pure r

/-- The attempts from one on, with the number of retries that are left. -/
def retryLoop (c : RetryConfig) (sink : SinkKind) (answers : Nat → SinkAnswer) :
    Nat → Nat → SinkActorResponse → SinkM SinkActorResponse
  | left, attempt, r => do
      let r ← callSink sink (answers attempt) attempt r
      if r.failed = [] ∨ (answers attempt).cancelled = true then pure r
      else
        match left with
        | 0 => exhausted c sink r
        | left + 1 => retryLoop c sink answers left (attempt + 1) r

/-- Write a batch to a sink. -/
def writeMessagesWithRetry (c : RetryConfig) (sink : SinkKind) (answers : Nat → SinkAnswer)
    (messages : List UdfMessage) : SinkM SinkActorResponse :=
  if messages = [] then pure {}
  else retryLoop c sink answers c.maxRetryAttempts 0 { failed := messages }

/-! ## What the log says about a message -/

/-- The sink gave a message of a call a status. -/
def Answered (log : List SinkEvent) (sink : SinkKind) (id : String) (status : ResponseStatus) :
    Prop :=
  ∃ messages responses, SinkEvent.answered sink messages responses ∈ log ∧
    (∃ msg ∈ messages, msg.id.text = id) ∧ ⟨id, status⟩ ∈ responses

/-- The message was dropped after the last attempt. -/
def StrategyDropped (log : List SinkEvent) (id : String) : Prop :=
  ∃ sink messages, SinkEvent.dropped sink messages ∈ log ∧ ∃ msg ∈ messages, msg.id.text = id

def SinkEvent.gives (sink : SinkKind) (id : String) (status : ResponseStatus) : SinkEvent → Bool
  | .answered sink' messages responses =>
    sink' = sink && messages.any (fun msg => msg.id.text = id) &&
      responses.any fun resp => resp = ⟨id, status⟩
  | _ => false

instance (log : List SinkEvent) (sink : SinkKind) (id : String) (status : ResponseStatus) :
    Decidable (Answered log sink id status) :=
  decidable_of_iff (log.any (SinkEvent.gives sink id status) = true) <| by
    rw [List.any_eq_true]
    constructor
    · rintro ⟨e, he, h⟩
      cases e with
      | answered sink' messages responses =>
        simp only [SinkEvent.gives, Bool.and_eq_true, decide_eq_true_eq, List.any_eq_true] at h
        obtain ⟨⟨rfl, hmsg⟩, resp, hresp, rfl⟩ := h
        exact ⟨messages, responses, he, hmsg, hresp⟩
      | _ => cases h
    · rintro ⟨messages, responses, he, hmsg, hresp⟩
      refine ⟨_, he, ?_⟩
      simp only [SinkEvent.gives, Bool.and_eq_true, decide_eq_true_eq, List.any_eq_true]
      exact ⟨⟨trivial, hmsg⟩, _, hresp, rfl⟩

def SinkEvent.drops (id : String) : SinkEvent → Bool
  | .dropped _ messages => messages.any fun msg => msg.id.text = id
  | _ => false

instance (log : List SinkEvent) (id : String) : Decidable (StrategyDropped log id) :=
  decidable_of_iff (log.any (SinkEvent.drops id) = true) <| by
    rw [List.any_eq_true]
    constructor
    · rintro ⟨e, he, h⟩
      cases e with
      | dropped sink messages =>
        simp only [SinkEvent.drops, decide_eq_true_eq, List.any_eq_true] at h
        exact ⟨sink, messages, he, h⟩
      | _ => cases h
    · rintro ⟨sink, messages, he, h⟩
      refine ⟨_, he, ?_⟩
      simpa only [SinkEvent.drops, decide_eq_true_eq, List.any_eq_true] using h

variable {log log' : List SinkEvent} {sink : SinkKind} {status : ResponseStatus}

section

variable {id : String}

theorem answered_append : Answered (log ++ log') sink id status ↔
      Answered log sink id status ∨ Answered log' sink id status := by
  simp only [Answered, mem_append, or_and_right, exists_or]

theorem strategyDropped_append :
    StrategyDropped (log ++ log') id ↔ StrategyDropped log id ∨ StrategyDropped log' id := by
  simp only [StrategyDropped, mem_append, or_and_right, exists_or]

end

/-! ## Sorting by status -/

/-- The lists of a response. -/
inductive Category where
  | failed
  | fallback
  | serving
  | dropped
  | onSuccess
  | nacked
deriving DecidableEq

def SinkActorResponse.get (r : SinkActorResponse) : Category → List UdfMessage
  | .failed => r.failed
  | .fallback => r.fallback
  | .serving => r.serving
  | .dropped => r.dropped
  | .onSuccess => r.onSuccess
  | .nacked => r.nacked

/-- The list for a status. -/
def ResponseStatus.category : ResponseStatus → Option Category
  | .success => none
  | .failed _ => some .failed
  | .fallback => some .fallback
  | .serve _ => some .serving
  | .onSuccess _ => some .onSuccess
  | .nack _ => some .nacked

@[simp]
theorem id_onSuccessMessage (msg : UdfMessage) (payload : Option OnSuccessMessage) :
    (onSuccessMessage msg payload).id = msg.id := by
  cases payload <;> rfl

/-- What a status adds to a list. -/
def ResponseStatus.filed (status : ResponseStatus) (msg : UdfMessage) (c : Category) :
    List UdfMessage :=
  (({} : SinkActorResponse).push msg status).get c

open ResponseStatus

theorem get_push (r : SinkActorResponse) (msg : UdfMessage) (status : ResponseStatus)
    (c : Category) : (r.push msg status).get c = r.get c ++ status.filed msg c := by
  cases status <;> cases c <;> simp [filed, SinkActorResponse.push, SinkActorResponse.get]

variable {responses : List ResponseFromSink} {results results' rest : HashMap String ResponseStatus}
  {messages : List UdfMessage} {msg m : UdfMessage} {c : Category} {r r' : SinkActorResponse}

/-- A message is filed under its identity. -/
theorem mem_filed (h : m ∈ status.filed msg c) : m.id = msg.id ∧ status.category = some c := by
  cases status <;> cases c <;> simp_all [filed, category, SinkActorResponse.push,
      SinkActorResponse.get]

theorem exists_filed (h : status.category = some c) (msg : UdfMessage) :
    ∃ m ∈ status.filed msg c, m.id = msg.id := by
  cases status <;> cases c <;> simp_all [filed, category, SinkActorResponse.push,
      SinkActorResponse.get]

/-- The map holds the statuses of the responses. -/
theorem lookup_resultMap (h : resultMap responses results = .ok results') (id : String)
    (status : ResponseStatus) : results'.lookup id = some status ↔
      results.lookup id = some status ∨ ⟨id, status⟩ ∈ responses := by
  induction responses generalizing results with
  | nil =>
    cases h
    simp
  | cons resp _ ih =>
    unfold resultMap at h
    split_ifs at h with hnew
    rw [Bool.not_eq_true, Option.isSome_eq_false_iff, Option.isNone_iff_eq_none] at hnew
    rw [ih h, mem_cons]
    by_cases hid : id = resp.id
    · subst hid
      rw [AList.lookup_insert, hnew]
      constructor
      · rintro (hstatus | hmem)
        · exact .inr (.inl (by rw [← Option.some.inj hstatus]))
        · exact .inr (.inr hmem)
      · rintro (hstatus | heq | hmem)
        · cases hstatus
        · exact .inl (by rw [← heq])
        · exact .inr hmem
    · rw [AList.lookup_insert_ne hid]
      refine or_congr_right ⟨.inr, fun h => h.resolve_left fun heq => hid ?_⟩
      rw [← heq]

/-- Every message has a status in the map, and is filed under it. -/
theorem classify_spec (h : classify messages results r = .ok (rest, r')) :
    (∀ msg ∈ messages, ∃ status, results.lookup msg.id.text = some status ∧
        ∀ c, status.category = some c → ∃ m ∈ r'.get c, m.id = msg.id) ∧
      ∀ c, r.get c ⊆ r'.get c ∧ ∀ m ∈ r'.get c, m ∈ r.get c ∨
        ∃ msg ∈ messages, m.id = msg.id ∧ ∃ status, results.lookup msg.id.text = some status ∧
          status.category = some c := by
  induction messages generalizing results r with
  | nil =>
    cases h
    exact ⟨by simp, fun c => ⟨List.Subset.refl _, fun m hm => .inl hm⟩⟩
  | cons msg _ ih =>
    unfold classify at h
    split at h
    · rename_i status hstatus
      obtain ⟨hfiled, hlists⟩ := ih h
      -- the map that is left agrees with the map where it is defined
      have hold : ∀ id status', (results.erase msg.id.text).lookup id = some status' →
          results.lookup id = some status' := by
        intro id status' hid
        by_cases heq : id = msg.id.text
        · rw [heq, AList.lookup_erase] at hid
          cases hid
        · rwa [AList.lookup_erase_ne heq] at hid
      refine ⟨?_, fun c => ?_⟩
      · rintro m (_ | ⟨_, hm⟩)
        · refine ⟨status, hstatus, fun c hc => ?_⟩
          obtain ⟨m', hm', hid⟩ := exists_filed hc msg
          refine ⟨m', (hlists c).1 ?_, hid⟩
          rw [get_push]
          exact mem_append_right _ hm'
        · obtain ⟨status', hstatus', hc⟩ := hfiled m hm
          exact ⟨status', hold _ _ hstatus', hc⟩
      · obtain ⟨hsub, hmem⟩ := hlists c
        rw [get_push] at hsub
        refine ⟨fun m hm => hsub (mem_append_left _ hm), fun m hm => ?_⟩
        rcases hmem m hm with hm | ⟨msg', hmsg', hid, status', hstatus', hc⟩
        · rw [get_push] at hm
          rcases mem_append.mp hm with hm | hm
          · exact .inl hm
          · obtain ⟨hid, hc⟩ := mem_filed hm
            exact .inr ⟨msg, mem_cons_self, hid, status, hstatus, hc⟩
        · exact .inr ⟨msg', mem_cons_of_mem _ hmsg', hid, status', hold _ _ hstatus', hc⟩
    · cases h

/-! ## The attempts -/

theorem get_clear (r : SinkActorResponse) (c : Category) :
    SinkActorResponse.get { r with failed := [] } c = if c = .failed then [] else r.get c := by
  cases c <;> rfl

theorem category_eq_none (h : status.category = none) : status = .success := by
  cases status <;> first | rfl | cases h

/-- Messages were sorted by the responses to them. -/
structure Sorted (messages : List UdfMessage) (responses : List ResponseFromSink)
    (r r' : SinkActorResponse) : Prop where
  answered : ∀ msg ∈ messages, ∃ status, ⟨msg.id.text, status⟩ ∈ responses
  filed : ∀ msg ∈ messages, ∀ status, ⟨msg.id.text, status⟩ ∈ responses → ∀ c,
    status.category = some c → ∃ m ∈ r'.get c, m.id = msg.id
  kept : ∀ c, r.get c ⊆ r'.get c
  origin : ∀ c, ∀ m ∈ r'.get c, m ∈ r.get c ∨ ∃ msg ∈ messages, m.id = msg.id ∧
    ∃ status : ResponseStatus, ⟨msg.id.text, status⟩ ∈ responses ∧ status.category = some c

/-- How the responses of a sink are sorted. -/
theorem sortResponses_spec (h : sortResponses messages responses r = .ok r') :
    Sorted messages responses r r' := by
  unfold sortResponses at h
  cases hresults : resultMap responses ∅ with
  | error =>
    rw [hresults] at h
    cases h
  | ok results =>
    cases hclassify : classify messages results r with
    | error =>
      simp only [bind, Except.bind, hresults, hclassify] at h
      cases h
    | ok =>
      simp only [bind, Except.bind, hresults, hclassify] at h
      split_ifs at h
      cases h
      have hlookup : ∀ id status, results.lookup id = some status ↔ ⟨id, status⟩ ∈ responses := by
        intro id status
        rw [lookup_resultMap hresults]
        simp
      obtain ⟨hfiled, hlists⟩ := classify_spec hclassify
      refine ⟨fun msg hmsg => ?_, fun msg hmsg status hstatus => ?_, fun c => (hlists c).1,
        fun c m hm => ?_⟩
      · obtain ⟨status, hstatus, -⟩ := hfiled msg hmsg
        exact ⟨status, (hlookup _ _).mp hstatus⟩
      · obtain ⟨status', hstatus', hcategory⟩ := hfiled msg hmsg
        cases hstatus'.symm.trans ((hlookup _ _).mpr hstatus)
        exact hcategory
      · refine ((hlists c).2 m hm).imp_right ?_
        rintro ⟨msg, hmsg, hid, status, hstatus, hc⟩
        exact ⟨msg, hmsg, hid, status, (hlookup _ _).mp hstatus, hc⟩

/-- What is known after some attempts.  Every message that was tried has been accepted or is
in a list, a request of the sink is in its list, and a list holds what it held before and
messages for which there is a reason. -/
structure Outcome (sink : SinkKind) (answers : Nat → SinkAnswer) (log : List SinkEvent)
    (r r' : SinkActorResponse) : Prop where
  settled : ∀ msg ∈ r.failed, Answered log sink msg.id.text .success ∨
    ∃ c, ∃ m ∈ r'.get c, m.id = msg.id
  requested : ∀ id status c, Answered log sink id status → status.category = some c →
    c ≠ .failed → ∃ m ∈ r'.get c, m.id.text = id
  kept : ∀ c, c ≠ .failed → r.get c ⊆ r'.get c
  origin : ∀ c, ∀ m ∈ r'.get c, (c ≠ .failed ∧ m ∈ r.get c) ∨ ∃ msg ∈ r.failed, m.id = msg.id
  onSuccess : ∀ m ∈ r'.onSuccess, m ∈ r.onSuccess ∨
    ∃ payload, Answered log sink m.id.text (.onSuccess payload)
  dropped : ∀ m ∈ r'.dropped, m ∈ r.dropped ∨ StrategyDropped log m.id.text
  answered : ∀ sink' id status, Answered log sink' id status → sink' = sink ∧
    ∃ n responses, (answers n).responses = .ok responses ∧ ⟨id, status⟩ ∈ responses

section

variable {answers : Nat → SinkAnswer} {r'' : SinkActorResponse}

theorem not_answered_nil {id : String} : ¬ Answered [] sink id status := by
  rintro ⟨messages, responses, hmem, -⟩
  cases hmem

variable {attempt left : Nat} {c : RetryConfig} {sink' : SinkKind}

theorem not_answered_dropped {id : String} :
    ¬ Answered [.dropped sink' messages] sink id status := by
  rintro ⟨messages', responses, hmem, -⟩
  cases mem_singleton.mp hmem

theorem Outcome.refl (sink : SinkKind) (answers : Nat → SinkAnswer) (r : SinkActorResponse) :
    Outcome sink answers [] r r where
  settled msg hmsg := .inr ⟨.failed, msg, hmsg, rfl⟩
  requested _ _ _ h := absurd h not_answered_nil
  kept _ _ := List.Subset.refl _
  origin c m hm := by
    by_cases hc : c = .failed
    · subst hc
      exact .inr ⟨m, hm, rfl⟩
    · exact .inl ⟨hc, hm⟩
  onSuccess _ hm := .inl hm
  dropped _ hm := .inl hm
  answered _ _ _ h := absurd h not_answered_nil

theorem Outcome.trans (h : Outcome sink answers log r r') (h' : Outcome sink answers log' r' r'') :
    Outcome sink answers (log ++ log') r r'' where
  settled msg hmsg := by
    rw [answered_append]
    rcases h.settled msg hmsg with haccepted | ⟨c, m, hm, hid⟩
    · exact .inl (.inl haccepted)
    · by_cases hc : c = .failed
      · subst hc
        rcases h'.settled m hm with haccepted | ⟨c', m', hm', hid'⟩
        · rw [hid] at haccepted
          exact .inl (.inr haccepted)
        · exact .inr ⟨c', m', hm', hid'.trans hid⟩
      · exact .inr ⟨c, m, h'.kept c hc hm, hid⟩
  requested id status c hanswered hstatus hc := by
    rcases answered_append.mp hanswered with hanswered | hanswered
    · obtain ⟨m, hm, hid⟩ := h.requested id status c hanswered hstatus hc
      exact ⟨m, h'.kept c hc hm, hid⟩
    · exact h'.requested id status c hanswered hstatus hc
  kept c hc := List.Subset.trans (h.kept c hc) (h'.kept c hc)
  origin c m hm := by
    rcases h'.origin c m hm with ⟨hc, hm⟩ | ⟨msg, hmsg, hid⟩
    · exact h.origin c m hm
    · rcases h.origin .failed msg hmsg with ⟨hc, -⟩ | ⟨msg', hmsg', hid'⟩
      · exact absurd rfl hc
      · exact .inr ⟨msg', hmsg', hid.trans hid'⟩
  onSuccess m hm := by
    simp only [answered_append]
    rcases h'.onSuccess m hm with hm | ⟨payload, hanswered⟩
    · exact (h.onSuccess m hm).imp_right fun ⟨payload, hanswered⟩ => ⟨payload, .inl hanswered⟩
    · exact .inr ⟨payload, .inr hanswered⟩
  dropped m hm := by
    rw [strategyDropped_append]
    rcases h'.dropped m hm with hm | hdropped
    · exact (h.dropped m hm).imp_right .inl
    · exact .inr (.inr hdropped)
  answered sink' id status hanswered :=
    (answered_append.mp hanswered).elim (h.answered sink' id status) (h'.answered sink' id status)

/-- The failed messages are stamped and sent, and what comes back is sorted. -/
theorem Sorted.outcome (h : Sorted (r.failed.map fun msg => setSinkRetryCount msg attempt) responses
      { r with failed := [] } r') (hresponses : (answers attempt).responses = .ok responses) :
    Outcome sink answers [.answered sink (r.failed.map fun msg => setSinkRetryCount msg attempt)
      responses] r r' where
  settled msg hmsg := by
    have hsent := mem_map_of_mem (f := fun msg => setSinkRetryCount msg attempt) hmsg
    obtain ⟨status, hstatus⟩ := h.answered _ hsent
    cases hc : status.category with
    | none =>
      rw [category_eq_none hc] at hstatus
      exact .inl ⟨_, _, mem_singleton_self _, ⟨_, hsent, rfl⟩, hstatus⟩
    | some c => exact .inr ⟨c, h.filed _ hsent status hstatus c hc⟩
  requested := by
    rintro id status c ⟨messages, responses', hmem, ⟨msg, hmsg, rfl⟩, hresponse⟩ hc -
    cases mem_singleton.mp hmem
    obtain ⟨m, hm, hid⟩ := h.filed msg hmsg status hresponse c hc
    exact ⟨m, hm, by rw [hid]⟩
  kept c hc := by
    have hkept := h.kept c
    rwa [get_clear, if_neg hc] at hkept
  origin c m hm := by
    rcases h.origin c m hm with hold | ⟨msg, hmsg, hid, -⟩
    · rw [get_clear] at hold
      split_ifs at hold with hc
      · cases hold
      · exact .inl ⟨hc, hold⟩
    · obtain ⟨msg', hmsg', rfl⟩ := mem_map.mp hmsg
      exact .inr ⟨msg', hmsg', hid⟩
  onSuccess m hm := by
    rcases h.origin .onSuccess m hm with hold | ⟨msg, hmsg, hid, status, hresponse, hc⟩
    · exact .inl hold
    · cases status with
      | onSuccess payload =>
        rw [hid]
        exact .inr ⟨payload, _, _, mem_singleton_self _, ⟨msg, hmsg, rfl⟩, hresponse⟩
      | _ => cases hc
  dropped m hm := by
    rcases h.origin .dropped m hm with hold | ⟨_, _, _, status, _, hc⟩
    · exact .inl hold
    · cases status <;> cases hc
  answered := by
    rintro sink' id status ⟨messages, responses', hmem, -, hresponse⟩
    cases mem_singleton.mp hmem
    exact ⟨rfl, attempt, responses, hresponses, hresponse⟩

/-- One call of the sink. -/
theorem outcome_callSink (h : (callSink sink (answers attempt) attempt r).Yields log r') :
    Outcome sink answers log r r' := by
  unfold callSink at h
  cases hresponses : (answers attempt).responses with
  | error => simp [hresponses] at h
  | ok =>
    simp only [hresponses] at h
    split at h
    · cases h.2
    · rename_i hsort
      obtain ⟨rfl, hr⟩ := h
      cases hr
      exact (sortResponses_spec hsort).outcome hresponses

/-- The failed messages move to another list. -/
theorem outcome_move {c : Category} (hc : c ≠ .failed) (honSuccess : c ≠ .onSuccess)
    (hget : ∀ c', r'.get c' =
      if c' = .failed then [] else if c' = c then r.get c' ++ r.failed else r.get c')
    (hlog : ∀ sink id status, ¬ Answered log sink id status)
    (hdropped : c = .dropped → ∀ m ∈ r.failed, StrategyDropped log m.id.text) :
    Outcome sink answers log r r' where
  settled msg hmsg := by
    refine .inr ⟨c, msg, ?_, rfl⟩
    rw [hget, if_neg hc, if_pos rfl]
    exact mem_append_right _ hmsg
  requested _ _ _ h := absurd h (hlog _ _ _)
  kept c' hc' := by
    rw [hget, if_neg hc']
    split_ifs
    · exact subset_append_left _ _
    · exact List.Subset.refl _
  origin c' m hm := by
    rw [hget] at hm
    split_ifs at hm with hfailed
    · cases hm
    · exact (mem_append.mp hm).imp (fun h => ⟨hfailed, h⟩) fun h => ⟨m, h, rfl⟩
    · exact .inl ⟨hfailed, hm⟩
  onSuccess m hm := by
    have hold := hget .onSuccess
    rw [if_neg honSuccess.symm] at hold
    change r'.onSuccess = r.onSuccess at hold
    exact .inl (hold ▸ hm)
  dropped m hm := by
    have hold := hget .dropped
    rw [if_neg nofun] at hold
    change m ∈ r'.get .dropped at hm
    rw [hold] at hm
    split_ifs at hm with heq
    · exact (mem_append.mp hm).imp_right (hdropped heq.symm m)
    · exact .inl hm
  answered _ _ _ h := absurd h (hlog _ _ _)

/-- The strategy moves the failed messages to another list, or leaves them. -/
theorem outcome_exhausted (h : (exhausted c sink r).Yields log r') :
    Outcome sink answers log r r' := by
  unfold exhausted at h
  cases hstrategy : c.onFailStrategy with
  | retry =>
    simp only [hstrategy, yields_pure] at h
    obtain ⟨rfl, rfl⟩ := h
    exact Outcome.refl sink answers _
  | fallback =>
    simp only [hstrategy, yields_pure] at h
    obtain ⟨rfl, rfl⟩ := h
    exact outcome_move (c := .fallback) (by simp) (by simp) (fun c' => by cases c' <;> rfl)
      (fun _ _ _ => not_answered_nil) (by simp)
  | drop =>
    simp only [hstrategy, yields_bind, yields_tell, yields_pure] at h
    obtain ⟨_, _, _, rfl, ⟨rfl, rfl⟩, rfl⟩ := h
    exact outcome_move (c := .dropped) (by simp) (by simp) (fun c' => by cases c' <;> rfl)
      (fun _ _ _ => not_answered_dropped)
      fun _ m hm => ⟨sink, r.failed, mem_singleton_self _, m, hm, rfl⟩

/-- What each attempt keeps, and what the strategy keeps in the end, the whole loop keeps. -/
theorem retryLoop_induction {P : List SinkEvent → SinkActorResponse → Prop}
    (hcall : ∀ log r, P log r → ∀ attempt log' r',
      (callSink sink (answers attempt) attempt r).Yields log' r' → P (log ++ log') r')
    (hexhausted : ∀ log r, P log r → ∀ log' r',
      (exhausted c sink r).Yields log' r' → P (log ++ log') r')
    (log : List SinkEvent) (hr : P log r)
    (h : (retryLoop c sink answers left attempt r).Yields log' r') : P (log ++ log') r' := by
  induction left generalizing attempt r log log' with
  | zero | succ _ ih =>
    obtain ⟨first, called, second, hfirst, hrest, rfl⟩ := yields_bind.mp h
    have hcalled := hcall log r hr attempt first called hfirst
    rw [← append_assoc]
    rcases yields_ite.mp hrest with ⟨-, hpure⟩ | ⟨-, hnext⟩
    · obtain ⟨rfl, rfl⟩ := yields_pure.mp hpure
      rwa [append_nil]
    · first
      | exact ih _ hcalled hnext
      | exact hexhausted _ _ hcalled _ _ hnext

theorem outcome_retryLoop (h : (retryLoop c sink answers left attempt r).Yields log r') :
    Outcome sink answers log r r' :=
  retryLoop_induction (P := fun log => Outcome sink answers log r)
    (fun _ _ h _ _ _ hcall => h.trans (outcome_callSink hcall))
    (fun _ _ h _ _ hexhausted => h.trans (outcome_exhausted hexhausted)) []
    (Outcome.refl sink answers r) h

/-- Every message was accepted or is in one of the lists of the response, and every request of
the sink is in its list. -/
theorem writeMessagesWithRetry_spec
    (h : (writeMessagesWithRetry c sink answers messages).Yields log r) :
    Outcome sink answers log { failed := messages } r := by
  rcases yields_ite.mp h with ⟨rfl, hpure⟩ | ⟨-, hloop⟩
  · obtain ⟨rfl, rfl⟩ := yields_pure.mp hpure
    exact Outcome.refl sink answers _
  · exact outcome_retryLoop hloop

end

end Numaflow.Sink
