import Numaflow.Map.Stream
import Numaflow.Serving.CallbackInfo

/-!
# What a map vertex reports to serving

The tracker holds the responses of a message for its serving callback.  They are preset when the
message is read.  A unary or a batch task replaces them by the tags of the messages that it hands
downstream; a stream task empties them before every call of the user-defined function and adds
the tags of every message that it hands on.

The answers of the function are arguments, one for every attempt.  When they run out the task is
still waiting for the next one.  A task touches the entries of its own messages only, so the tasks
of other messages make no difference.

Main results: `dropped_executeUnary_iff`, `dropped_executeBatch_iff`,
`handed_executeStream`, `responses_eq_handed_iff`.
-/

namespace Numaflow.Map

open Lib Serving List

/-! ## The tasks -/

/-- How a task is done with a message. -/
inductive Ending where
  | forwarded
  | dropped
  | failed (reason : String)
  | panicked
deriving DecidableEq, Repr

/-- The mark on the handle of the message. -/
def Ending.mark : Ending → Mark
  | .forwarded | .dropped => .success
  | .failed reason => .failed reason none
  | .panicked => .dropped

/-- The tracker, the messages that were handed downstream, or to the bypass router, and the
messages that a task is done with. -/
structure MapOutcome where
  tracker : ServingTracker
  sent : List UdfMessage := []
  endings : List (UdfMessage × Ending) := []

namespace MapOutcome

variable (o : MapOutcome)

def finish (msg : UdfMessage) (ending : Ending) : MapOutcome :=
  { o with endings := o.endings ++ [(msg, ending)] }

def finishAll (msgs : List UdfMessage) (ending : Ending) : MapOutcome :=
  { o with endings := o.endings ++ msgs.map fun msg => (msg, ending) }

/-- Report the messages for a message and hand them downstream. -/
def forward (msg : UdfMessage) (mapped : List UdfMessage) : MapOutcome :=
  MapOutcome.finish
    { o with
      tracker := o.tracker.servingUpdate msg.offset (mapped.map fun m => m.tags)
      sent := o.sent ++ mapped }
    msg .forwarded

/-- Report one message and hand it downstream. -/
def append (mapped : UdfMessage) : MapOutcome :=
  { o with
    tracker := o.tracker.servingAppend mapped.offset mapped.tags
    sent := o.sent ++ [mapped] }

def refresh (msg : UdfMessage) : MapOutcome :=
  { o with tracker := o.tracker.servingRefresh msg.offset }

end MapOutcome

/-- The messages for the results of a message. -/
def mappedMessages (vertexName : String) (msg : UdfMessage) (results : List MapResult) :
    List UdfMessage :=
  results.mapIdx fun i result => userDefinedMessage vertexName result (parentInfo msg) (.ofNat i)

/-- How a failed attempt ends the work on a message, if it does. -/
def endingOf : RetryStep → Option Ending
  | .again => none
  | .cancelled => some (.failed "map UDF retry wait cancelled")
  | .drop => some .dropped
  | .nack => some (.failed (MapError.mapper "Retries exhausted").display)
  | .panic => some .panicked

/-- The answer to a call, and whether the wait after it is cut short by the shutdown. -/
structure UnaryAttempt where
  answer : Except MapError (List MapResult)
  cancelled : Bool := false

def executeUnary (vertexName : String) (msg : UdfMessage) :
    RetryController → List UnaryAttempt → MapOutcome → MapOutcome
  | _, [], o => o
  | retry, attempt :: attempts, o =>
    match attempt.answer with
    | .error e => o.finish msg (.failed e.display)
    | .ok results =>
      let mapped := mappedMessages vertexName msg results
      if mapped.any (fun m => m.failed) = true then
        let (retry, next) := retry.nextStep attempt.cancelled
        match endingOf next with
        | none => executeUnary vertexName msg retry attempts o
        | some ending => o.finish msg ending
      else o.forward msg mapped

/-- The answers to a call with several messages. -/
structure BatchAttempt where
  answers : List (Except MapError (List MapResult))
  cancelled : Bool := false

/-- Go through the answers.  The result says which messages have failed, and whether the task
goes on. -/
def batchRound (vertexName : String) :
    List (UdfMessage × Except MapError (List MapResult)) → MapOutcome →
      MapOutcome × List UdfMessage × Bool
  | [], o => (o, [], true)
  | (msg, .error e) :: _, o => (o.finish msg (.failed e.display), [], false)
  | (msg, .ok results) :: rest, o =>
    let mapped := mappedMessages vertexName msg results
    if mapped.any (fun m => m.failed) = true then
      let (o, next, ok) := batchRound vertexName rest o
      (o, msg :: next, ok)
    else batchRound vertexName rest (o.forward msg mapped)

/-- Handles without a mark are dropped when the task returns with an error. -/
def executeBatch (vertexName : String) :
    RetryController → List BatchAttempt → List UdfMessage → MapOutcome → MapOutcome
  | _, [], _, o => o
  | retry, attempt :: attempts, handles, o =>
    match batchRound vertexName (handles.zip attempt.answers) o with
    | (o, _, false) => o
    | (o, [], true) => o
    | (o, next, true) =>
      let (retry, step) := retry.nextStep attempt.cancelled
      match endingOf step with
      | none => executeBatch vertexName retry attempts next o
      | some ending => o.finishAll next ending

/-- The results that arrive in an attempt, and how the channel ends. -/
structure StreamAttempt where
  results : List MapResult
  closing : Except MapError Unit := .ok ()
  cancelled : Bool := false

/-- Hand the results on until one of them has failed; say whether one has. -/
def emitResults (vertexName : String) :
    ParentMessageInfo → List MapResult → MapOutcome → MapOutcome × Bool
  | _, [], o => (o, false)
  | parent, result :: results, o =>
    let mapped := userDefinedMessage vertexName result parent parent.currentIndex
    if mapped.failed = true then (o, true)
    else
      emitResults vertexName { parent with currentIndex := parent.currentIndex + 1 } results
        (o.append mapped)

def executeStream (vertexName : String) (msg : UdfMessage) :
    RetryController → List StreamAttempt → MapOutcome → MapOutcome
  | _, [], o => o
  | retry, attempt :: attempts, o =>
    match emitResults vertexName (parentInfo msg) attempt.results (o.refresh msg) with
    | (o, true) =>
      let (retry, next) := retry.nextStep attempt.cancelled
      match endingOf next with
      | none => executeStream vertexName msg retry attempts o
      | some ending => o.finish msg ending
    | (o, false) =>
      match attempt.closing with
      | .error e => o.finish msg (.failed e.display)
      | .ok () => o.finish msg .forwarded

/-- A task of a map vertex, with the answers that it gets. -/
inductive MapTask where
  | unary (msg : UdfMessage) (attempts : List UnaryAttempt)
  | batch (msgs : List UdfMessage) (attempts : List BatchAttempt)
  | stream (msg : UdfMessage) (attempts : List StreamAttempt)

namespace MapTask

def messages : MapTask → List UdfMessage
  | .unary msg _ | .stream msg _ => [msg]
  | .batch msgs _ => msgs

def execute (vertexName : String) (config : Option RetryConfig) (tracker : ServingTracker) :
    MapTask → MapOutcome
  | .unary msg attempts => executeUnary vertexName msg (.new config) attempts { tracker := tracker }
  | .batch msgs attempts => executeBatch vertexName (.new config) attempts msgs { tracker := tracker }
  | .stream msg attempts =>
    executeStream vertexName msg (.new config) attempts { tracker := tracker }

end MapTask

/-! ## Responses -/

/-- The responses that a callback for the offset would report. -/
def responsesOf (t : ServingTracker) (offset : Offset) : Option (List (Option (List String))) :=
  ((t.entries.lookup offset).bind id).map fun info => info.responses

variable {t : ServingTracker}

theorem responsesOf_modifyResponses (hhandler : t.handler = true) (offset other : Offset)
    (f : List (Option (List String)) → List (Option (List String))) :
    responsesOf (t.modifyResponses offset f) other =
      if other = offset then (responsesOf t other).map f else responsesOf t other := by
  unfold responsesOf
  rw [ServingTracker.lookup_modifyResponses f hhandler]
  split_ifs
  · rcases t.entries.lookup other with _ | _ | info <;> rfl
  · rfl

/-- What was handed downstream for an offset. -/
def MapOutcome.handed (o : MapOutcome) (offset : Offset) : List UdfMessage :=
  o.sent.filter fun m => m.offset = offset

/-- The tags of what was handed downstream for an offset. -/
def MapOutcome.handedTags (o : MapOutcome) (offset : Offset) : List (Option (List String)) :=
  (o.handed offset).map fun m => m.tags

/-- What all three kinds of tasks do: change the responses of an offset and hand messages on. -/
def MapOutcome.report (o : MapOutcome) (offset : Offset)
    (f : List (Option (List String)) → List (Option (List String))) (mapped : List UdfMessage) :
    MapOutcome :=
  { o with tracker := o.tracker.modifyResponses offset f, sent := o.sent ++ mapped }

section

variable {o : MapOutcome} {mapped : List UdfMessage} {offset : Offset}
  {f : List (Option (List String)) → List (Option (List String))}

theorem append_eq_report (m : UdfMessage) :
    o.append m = o.report m.offset (fun responses => responses ++ [m.tags]) [m] :=
  rfl

theorem refresh_eq_report (msg : UdfMessage) :
    o.refresh msg = o.report msg.offset (fun _ => []) [] := by
  rw [MapOutcome.report, append_nil]
  rfl

theorem handler_report : (o.report offset f mapped).tracker.handler = o.tracker.handler :=
  ServingTracker.handler_modifyResponses f

theorem responsesOf_report (h : o.tracker.handler = true) (other : Offset) :
    responsesOf (o.report offset f mapped).tracker other =
      if other = offset then (responsesOf o.tracker other).map f
      else responsesOf o.tracker other :=
  responsesOf_modifyResponses h offset other f

theorem handedTags_report (h : ∀ m ∈ mapped, m.offset = offset) (other : Offset) :
    (o.report offset f mapped).handedTags other =
      o.handedTags other ++ if other = offset then mapped.map fun m => m.tags else [] := by
  change ((o.sent ++ mapped).filter _).map _ = _
  rw [filter_append, map_append]
  congr 1
  split_ifs with heq
  · rw [filter_eq_self.mpr fun m hm => decide_eq_true ((h m hm).trans heq.symm)]
  · rw [filter_eq_nil_iff.mpr, map_nil]
    intro m hm hother
    exact heq ((of_decide_eq_true hother).symm.trans (h m hm))

theorem offset_mappedMessages (vertexName : String) (msg : UdfMessage) (results : List MapResult) :
    ∀ m ∈ mappedMessages vertexName msg results, m.offset = msg.offset := by
  intro m hm
  obtain ⟨i, -, rfl⟩ := mem_mapIdx.mp hm
  rfl

end

/-! ## Failed attempts -/

/-- A result has failed. -/
def hasFailed (results : List MapResult) : Bool :=
  results.any fun result => result.tags.contains failTag

/-- The answer has a failed result; an error is not a failed result. -/
def answerFails : Except MapError (List MapResult) → Bool
  | .ok results => hasFailed results
  | .error _ => false

def UnaryAttempt.fails (attempt : UnaryAttempt) : Bool :=
  answerFails attempt.answer

/-- The messages whose answers have a failed result. -/
def BatchAttempt.failing (attempt : BatchAttempt) (handles : List UdfMessage) : List UdfMessage :=
  ((handles.zip attempt.answers).filter fun x => answerFails x.2).map Prod.fst

/-- The messages that fail in all of the attempts. -/
def failingAfter (handles : List UdfMessage) (attempts : List BatchAttempt) : List UdfMessage :=
  attempts.foldl (fun handles attempt => attempt.failing handles) handles

def StreamAttempt.fails (attempt : StreamAttempt) : Bool :=
  hasFailed attempt.results

/-- The results before the first failed one. -/
def StreamAttempt.emitted (attempt : StreamAttempt) : List MapResult :=
  attempt.results.takeWhile fun result => !result.tags.contains failTag

/-- The attempts that are followed by another one: those that fail, as many as the
configuration allows. -/
def repeated (backoff : Option Nat) (attempts : List StreamAttempt) : List StreamAttempt :=
  match backoff with
  | none => attempts.takeWhile StreamAttempt.fails
  | some n => (attempts.takeWhile StreamAttempt.fails).take n

theorem any_failed_mappedMessages (vertexName : String) (msg : UdfMessage)
    (results : List MapResult) :
    (mappedMessages vertexName msg results).any (fun m => m.failed) = hasFailed results := by
  have hmap : (mappedMessages vertexName msg results).map (fun m => m.failed) =
      results.map fun result => result.tags.contains failTag := by
    refine ext_getElem (by simp [mappedMessages]) fun i _ _ => ?_
    simp [mappedMessages, failed_userDefinedMessage]
  have hany := congrArg (fun l : List Bool => l.any id) hmap
  simpa only [any_map, Function.id_comp, hasFailed] using hany

/-- After a failed attempt the task goes on with one retry less, or it is done with the message;
it drops the message only when no retry is left. -/
theorem nextStep_cases (retry : RetryController) (cancelled : Bool) :
    (endingOf (retry.nextStep cancelled).2 = none ∧
        (retry.backoff = none ∧ (retry.nextStep cancelled).1.backoff = none ∨
          ∃ n, retry.backoff = some (n + 1) ∧ (retry.nextStep cancelled).1.backoff = some n)) ∨
      ∃ ending, endingOf (retry.nextStep cancelled).2 = some ending ∧
        (ending.mark = .success → ending = .dropped ∧ retry.backoff = some 0) := by
  obtain ⟨strategy, backoff⟩ := retry
  cases backoff with
  | none => exact .inl ⟨rfl, .inl ⟨rfl, rfl⟩⟩
  | some n =>
    cases n with
    | succ n =>
      cases cancelled with
      | false => exact .inl ⟨rfl, .inr ⟨n, rfl, rfl⟩⟩
      | true => exact .inr ⟨_, rfl, by simp [Ending.mark]⟩
    | zero =>
      rcases strategy with _ | _ | _ | _
      · exact .inr ⟨_, rfl, by simp [Ending.mark]⟩
      · exact .inr ⟨_, rfl, by simp [Ending.mark]⟩
      · exact .inr ⟨_, rfl, by simp [Ending.mark]⟩
      · exact .inr ⟨_, rfl, fun _ => ⟨rfl, rfl⟩⟩

/-- The end of the work on a message after a failed attempt is not that it was forwarded. -/
theorem endingOf_ne_forwarded {step : RetryStep} {ending : Ending}
    (h : endingOf step = some ending) : ending ≠ .forwarded := by
  rintro rfl
  cases step <;> cases h

/-! ## Unary and batch tasks

What the tracker holds when a task is done with a message, and when a task drops a message. -/

/-- The responses are still those that were preset, and nothing was handed downstream. -/
structure Fresh (o : MapOutcome) (offset : Offset) : Prop where
  handler : o.tracker.handler = true
  tracked : responsesOf o.tracker offset = some [none]
  handed : o.handedTags offset = []

/-- The tracker reports what was handed downstream for a message that was forwarded, and the
preset responses for one that was dropped. -/
def Settled (o : MapOutcome) (offset : Offset) : Ending → Prop
  | .forwarded => o.tracker.handler = true ∧
      responsesOf o.tracker offset = some (o.handedTags offset)
  | .dropped => Fresh o offset
  | _ => True

/-- For the message the two outcomes are the same, apart from its end. -/
def SameAt (o o' : MapOutcome) (offset : Offset) : Prop :=
  o'.tracker.handler = o.tracker.handler ∧
    responsesOf o'.tracker offset = responsesOf o.tracker offset ∧
    o'.handedTags offset = o.handedTags offset

/-- Nothing was handed downstream for the messages that the task still works on, and the others
are settled. -/
structure Pending (o : MapOutcome) (handles : List UdfMessage) : Prop where
  distinct : (handles.map fun msg => msg.offset).Nodup
  fresh : ∀ msg ∈ handles, Fresh o msg.offset
  ended : ∀ msg ending, (msg, ending) ∈ o.endings → Settled o msg.offset ending ∧
    (ending.mark = .success → ∀ handle ∈ handles, handle.offset ≠ msg.offset)

section

variable {o o' : MapOutcome} {handles kept rest : List UdfMessage} {msg : UdfMessage}
  {ending : Ending} {vertexName : String} {offset other : Offset}

theorem Fresh.of_same (h : Fresh o offset) (hsame : SameAt o o' offset) : Fresh o' offset :=
  ⟨hsame.1.trans h.handler, hsame.2.1.trans h.tracked, hsame.2.2.trans h.handed⟩

theorem Settled.of_same (h : Settled o offset ending) (hsame : SameAt o o' offset) :
    Settled o' offset ending := by
  cases ending with
  | forwarded => exact ⟨hsame.1.trans h.1, by rw [hsame.2.1, hsame.2.2, h.2]⟩
  | dropped => exact Fresh.of_same h hsame
  | failed | panicked => trivial

/-- Other messages are not concerned. -/
theorem sameAt_report (h : o.tracker.handler = true) (hne : other ≠ offset)
    {mapped : List UdfMessage} (hmapped : ∀ m ∈ mapped, m.offset = offset)
    (f : List (Option (List String)) → List (Option (List String))) :
    SameAt o (o.report offset f mapped) other := by
  refine ⟨handler_report, ?_, ?_⟩
  · rw [responsesOf_report h, if_neg hne]
  · rw [handedTags_report hmapped, if_neg hne, append_nil]

/-- When the responses of a message that is marked as successful are right. -/
theorem Settled.responses_iff (h : Settled o offset ending) (hmark : ending.mark = .success) :
    responsesOf o.tracker offset = some (o.handedTags offset) ↔ ending ≠ .dropped := by
  cases ending with
  | forwarded => exact ⟨fun _ => by simp, fun _ => h.2⟩
  | dropped =>
    rw [Fresh.tracked h, Fresh.handed h]
    simp
  | failed | panicked => cases hmark

theorem Pending.sublist (h : Pending o handles) (hsub : rest.Sublist handles) :
    Pending o rest where
  distinct := h.distinct.sublist (hsub.map _)
  fresh msg hmsg := h.fresh msg (hsub.subset hmsg)
  ended msg ending hmsg :=
    ⟨(h.ended msg ending hmsg).1, fun hmark handle hhandle =>
      (h.ended msg ending hmsg).2 hmark handle (hsub.subset hhandle)⟩

/-- The task is done with all messages that it still works on. -/
theorem Pending.finishAll (h : Pending o handles) (hending : ending ≠ .forwarded) :
    Pending (o.finishAll handles ending) [] where
  distinct := nodup_nil
  fresh := forall_mem_nil _
  ended msg e hmsg := by
    refine ⟨?_, fun _ => forall_mem_nil _⟩
    rcases mem_append.mp hmsg with hold | hnew
    · exact (h.ended msg e hold).1.of_same ⟨rfl, rfl, rfl⟩
    · obtain ⟨_, hmem, heq⟩ := mem_map.mp hnew
      cases heq
      cases ending with
      | forwarded => exact absurd rfl hending
      | dropped => exact (h.fresh msg hmem).of_same ⟨rfl, rfl, rfl⟩
      | failed | panicked => trivial

/-- An error ends the work on a message. -/
theorem Pending.fail (h : Pending o handles) (msg : UdfMessage) (reason : String) :
    Pending (o.finish msg (.failed reason)) handles where
  distinct := h.distinct
  fresh m hm := (h.fresh m hm).of_same ⟨rfl, rfl, rfl⟩
  ended m e hm := by
    rcases mem_append.mp hm with hold | hnew
    · exact ⟨(h.ended m e hold).1.of_same ⟨rfl, rfl, rfl⟩, (h.ended m e hold).2⟩
    · cases mem_singleton.mp hnew
      exact ⟨trivial, fun hmark => by cases hmark⟩

/-- A message is forwarded, and its responses become the tags of what is handed on. -/
theorem Pending.forward (h : Pending o (kept ++ msg :: rest)) (vertexName : String)
    (results : List MapResult) : Pending (o.forward msg (mappedMessages vertexName msg results))
      (kept ++ rest) := by
  have hmapped := offset_mappedMessages vertexName msg results
  let tags := (mappedMessages vertexName msg results).map fun m => m.tags
  have hsub := (List.Sublist.refl kept).append (sublist_cons_self msg rest)
  have hne : ∀ handle ∈ kept ++ rest, handle.offset ≠ msg.offset := by
    intro handle hhandle heq
    have hdistinct := h.distinct
    rw [map_append, map_cons] at hdistinct
    have hmem := (nodup_cons.mp (nodup_middle.mp hdistinct)).1
    rw [← map_append] at hmem
    exact hmem (heq ▸ mem_map_of_mem (f := fun m : UdfMessage => m.offset) hhandle)
  have hfresh := h.fresh msg (mem_append_right _ mem_cons_self)
  have hforwarded : Settled (o.report msg.offset (fun _ => tags)
      (mappedMessages vertexName msg results)) msg.offset .forwarded := by
    refine ⟨handler_report.trans hfresh.handler, ?_⟩
    rw [responsesOf_report hfresh.handler, handedTags_report hmapped, hfresh.tracked,
      hfresh.handed, if_pos rfl, if_pos rfl, nil_append]
    rfl
  have hsame : ∀ other ≠ msg.offset,
      SameAt o (o.forward msg (mappedMessages vertexName msg results)) other :=
    fun other hother => sameAt_report hfresh.handler hother hmapped fun _ => tags
  refine ⟨(h.sublist hsub).distinct, fun handle hhandle => ?_, fun m e hm => ?_⟩
  · exact (h.fresh handle (hsub.subset hhandle)).of_same (hsame _ (hne handle hhandle))
  · rcases mem_append.mp hm with hold | hnew
    · obtain ⟨hsettled, hother⟩ := h.ended m e hold
      refine ⟨?_, fun hmark handle hhandle => hother hmark handle (hsub.subset hhandle)⟩
      cases e with
      | forwarded | dropped =>
        exact hsettled.of_same
          (hsame _ (hother rfl msg (mem_append_right _ mem_cons_self)).symm)
      | failed | panicked => trivial
    · cases mem_singleton.mp hnew
      exact ⟨hforwarded, fun _ => hne⟩

/-- A unary task settles its message. -/
theorem pending_executeUnary (h : Pending o [msg]) (retry : RetryController)
    (attempts : List UnaryAttempt) :
    Pending (executeUnary vertexName msg retry attempts o) [] := by
  induction attempts generalizing retry with
  | nil => exact h.sublist (nil_sublist _)
  | cons _ _ ih =>
    unfold executeUnary
    split
    · exact (h.sublist (nil_sublist _)).fail msg _
    · dsimp only
      split_ifs
      · split
        · exact ih _
        · rename_i hending
          exact h.finishAll (endingOf_ne_forwarded hending)
      · have hforward : Pending o ([] ++ msg :: []) := h
        exact hforward.forward vertexName _

/-- One round: the messages that have failed are kept. -/
theorem pending_batchRound (vertexName : String) (kept : List UdfMessage)
    (answered : List (UdfMessage × Except MapError (List MapResult)))
    (h : Pending o (kept ++ answered.map Prod.fst)) :
    Pending (batchRound vertexName answered o).1
      (kept ++ (batchRound vertexName answered o).2.1) := by
  induction answered generalizing kept o with
  | nil => exact h
  | cons head _ ih =>
    obtain ⟨msg, answer⟩ := head
    cases answer with
    | error =>
      exact (h.sublist ((List.Sublist.refl kept).append (nil_sublist _))).fail msg _
    | ok results =>
      simp only [batchRound]
      split_ifs
      · rw [map_cons, append_cons] at h
        rw [append_cons]
        exact ih _ h
      · exact ih _ (Pending.forward h vertexName results)

/-- The messages that were answered are among the handles, in their order. -/
theorem fst_zip_sublist (handles : List UdfMessage)
    (answers : List (Except MapError (List MapResult))) :
    ((handles.zip answers).map Prod.fst).Sublist handles := by
  rw [zip_eq_zip_take_min, map_fst_zip (by simp only [length_take]; omega)]
  exact take_sublist ..

/-- A batch task settles its messages. -/
theorem pending_executeBatch (h : Pending o handles) (retry : RetryController)
    (attempts : List BatchAttempt) :
    Pending (executeBatch vertexName retry attempts handles o) [] := by
  induction attempts generalizing handles o retry with
  | nil => exact h.sublist (nil_sublist _)
  | cons attempt _ ih =>
    have hround := pending_batchRound vertexName [] _
      (h.sublist (fst_zip_sublist handles attempt.answers))
    unfold executeBatch
    split
    · rename_i heq
      rw [heq] at hround
      exact hround.sublist (nil_sublist _)
    · rename_i heq
      rw [heq] at hround
      exact hround
    · rename_i heq
      rw [heq] at hround
      dsimp only
      split
      · exact ih hround _
      · rename_i hending
        exact hround.finishAll (endingOf_ne_forwarded hending)

/-- A unary task drops a message that it marks as successful exactly when the attempts fail more
often than there are retries. -/
theorem dropped_executeUnary_iff (ho : o.endings = []) (retry : RetryController)
    (attempts : List UnaryAttempt) :
    ∀ e ∈ (executeUnary vertexName msg retry attempts o).endings, e.2.mark = .success →
      (e.2 = .dropped ↔ ∃ n ∈ retry.backoff, n < (attempts.takeWhile UnaryAttempt.fails).length) := by
  have hfinish : ∀ ending, ∀ e ∈ (o.finish msg ending).endings, e = (msg, ending) := by
    intro ending e he
    rw [MapOutcome.finish, ho] at he
    exact mem_singleton.mp he
  induction attempts generalizing retry with
  | nil =>
    intro e he
    rw [executeUnary, ho] at he
    cases he
  | cons attempt attempts ih =>
    obtain ⟨answer, cancelled⟩ := attempt
    intro e he hmark
    cases answer with
    | error =>
      rw [executeUnary] at he
      rw [hfinish _ e he] at hmark
      cases hmark
    | ok results =>
      simp only [executeUnary, any_failed_mappedMessages] at he
      cases hfails : hasFailed results with
      | true =>
        have htake : (⟨.ok results, cancelled⟩ :: attempts).takeWhile UnaryAttempt.fails =
            ⟨.ok results, cancelled⟩ :: attempts.takeWhile UnaryAttempt.fails :=
          takeWhile_cons_of_pos hfails
        rw [hfails, if_pos rfl] at he
        rw [htake, length_cons]
        rcases nextStep_cases retry cancelled with ⟨hagain, hleft⟩ | ⟨ending, hend, hdrop⟩
        · rw [hagain] at he
          rw [ih _ e he hmark]
          rcases hleft with ⟨hnone, hnone'⟩ | ⟨n, hsome, hsome'⟩
          · simp [hnone, hnone']
          · simp [hsome, hsome']
        · rw [hend] at he
          rw [hfinish _ e he] at hmark ⊢
          obtain ⟨rfl, hzero⟩ := hdrop hmark
          simp [hzero]
      | false =>
        have htake : (⟨.ok results, cancelled⟩ :: attempts).takeWhile UnaryAttempt.fails = [] :=
          takeWhile_cons_of_neg (by rw [UnaryAttempt.fails, answerFails, hfails]; exact Bool.false_ne_true)
        rw [hfails] at he
        rw [htake, hfinish .forwarded e he]
        simp

/-- The endings of a round are those of messages whose answers have not failed. -/
theorem endings_batchRound (vertexName : String)
    (answered : List (UdfMessage × Except MapError (List MapResult))) (o : MapOutcome) :
    ∀ e ∈ (batchRound vertexName answered o).1.endings, e ∈ o.endings ∨
      e.2 ≠ .dropped ∧ ∃ answer, (e.1, answer) ∈ answered ∧ answerFails answer = false := by
  induction answered generalizing o with
  | nil => exact fun e he => .inl he
  | cons head rest ih =>
    obtain ⟨msg, answer⟩ := head
    intro e he
    cases answer with
    | error error =>
      rcases mem_append.mp he with hold | hnew
      · exact .inl hold
      · cases mem_singleton.mp hnew
        exact .inr ⟨by simp, .error error, mem_cons_self, rfl⟩
    | ok results =>
      simp only [batchRound, any_failed_mappedMessages] at he
      have hlater : ∀ o : MapOutcome, e ∈ (batchRound vertexName rest o).1.endings →
          e ∈ o.endings ∨ e.2 ≠ .dropped ∧ ∃ answer, (e.1, answer) ∈ (msg, .ok results) :: rest ∧
            answerFails answer = false := by
        intro o he
        refine (ih o e he).imp_right (And.imp_right ?_)
        rintro ⟨answer, hmem, hfails⟩
        exact ⟨answer, mem_cons_of_mem _ hmem, hfails⟩
      cases hfails : hasFailed results with
      | true =>
        rw [hfails] at he
        exact hlater o he
      | false =>
        rw [hfails] at he
        rcases hlater _ he with hold | hnew
        · rcases mem_append.mp hold with hold | hnew
          · exact .inl hold
          · cases mem_singleton.mp hnew
            exact .inr ⟨by simp, .ok results, mem_cons_self, hfails⟩
        · exact .inr hnew

/-- A round that goes on leaves the messages whose answers have failed. -/
theorem failing_batchRound (vertexName : String)
    (answered : List (UdfMessage × Except MapError (List MapResult))) (o : MapOutcome)
    (h : (batchRound vertexName answered o).2.2 = true) :
    (batchRound vertexName answered o).2.1 =
      (answered.filter fun x => answerFails x.2).map Prod.fst := by
  induction answered generalizing o with
  | nil => rfl
  | cons head rest ih =>
    obtain ⟨msg, answer⟩ := head
    cases answer with
    | error => cases h
    | ok results =>
      simp only [batchRound, any_failed_mappedMessages] at h ⊢
      cases hfails : hasFailed results with
      | true =>
        rw [hfails] at h
        rw [filter_cons_of_pos (by exact hfails), map_cons]
        exact congrArg (msg :: ·) (ih o h)
      | false =>
        rw [hfails] at h
        rw [filter_cons_of_neg (by rw [answerFails, hfails]; exact Bool.false_ne_true)]
        exact ih _ h

theorem sublist_failing (handles : List UdfMessage) (attempt : BatchAttempt) :
    (attempt.failing handles).Sublist handles :=
  (filter_sublist.map _).trans (fst_zip_sublist handles attempt.answers)

/-- The messages that fail in all attempts are among the handles. -/
theorem failingAfter_subset (handles : List UdfMessage) (attempts : List BatchAttempt) :
    failingAfter handles attempts ⊆ handles := by
  induction attempts generalizing handles with
  | nil => exact List.Subset.refl _
  | cons attempt _ ih =>
    exact List.Subset.trans (ih _) (sublist_failing handles attempt).subset

/-- A batch task drops a message that it marks as successful exactly when the message fails in
one attempt more than there are retries. -/
theorem dropped_executeBatch_iff (hdistinct : (handles.map fun msg => msg.offset).Nodup)
    (retry : RetryController) (attempts : List BatchAttempt) :
    ∀ e ∈ (executeBatch vertexName retry attempts handles o).endings, e ∈ o.endings ∨
      (e.2.mark = .success → (e.2 = .dropped ↔
        ∃ n ∈ retry.backoff, e.1 ∈ failingAfter handles (attempts.take (n + 1)))) := by
  induction attempts generalizing handles o retry with
  | nil => exact fun e he => .inl he
  | cons attempt attempts ih =>
    intro e he
    have hround := endings_batchRound vertexName (handles.zip attempt.answers) o e
    -- a message that is done in this round does not fail in it
    have hdone : e ∈ (batchRound vertexName (handles.zip attempt.answers) o).1.endings →
        e ∈ o.endings ∨ (e.2.mark = .success → (e.2 = .dropped ↔ ∃ n ∈ retry.backoff,
          e.1 ∈ failingAfter handles ((attempt :: attempts).take (n + 1)))) := by
      intro he
      refine (hround he).imp_right ?_
      rintro ⟨hne, answer, hmem, hfails⟩ -
      refine iff_of_false hne ?_
      rintro ⟨n, -, hfailing⟩
      rw [take_succ_cons] at hfailing
      obtain ⟨x, hx, hname⟩ := mem_map.mp (failingAfter_subset _ _ hfailing)
      obtain ⟨hx, hxfails⟩ := mem_filter.mp hx
      have hnodup : ((handles.zip attempt.answers).map Prod.fst).Nodup :=
        (hdistinct.of_map _).sublist (fst_zip_sublist handles attempt.answers)
      rw [inj_on_of_nodup_map hnodup hx hmem hname, hfails] at hxfails
      cases hxfails
    have hleft := failing_batchRound vertexName (handles.zip attempt.answers) o
    unfold executeBatch at he
    split at he
    · rename_i heq
      rw [heq] at hdone
      exact hdone he
    · rename_i heq
      rw [heq] at hdone
      exact hdone he
    · rename_i o' next _ heq
      rw [heq] at hdone hleft
      have hnext : next = attempt.failing handles := hleft rfl
      have hsub : next.Sublist handles := hnext ▸ sublist_failing handles attempt
      rcases nextStep_cases retry attempt.cancelled with ⟨hagain, hretry⟩ | ⟨ending, hend, hdrop⟩
      · simp only [hagain] at he
        rcases ih (hdistinct.sublist (hsub.map _)) _ e he with hold | hlater
        · exact hdone hold
        · refine .inr fun hmark => (hlater hmark).trans ?_
          rcases hretry with ⟨hnone, hnone'⟩ | ⟨n, hsome, hsome'⟩
          · simp [hnone, hnone']
          · simp [hsome, hsome', hnext, failingAfter]
      · simp only [hend] at he
        rcases mem_append.mp he with hold | hnew
        · exact hdone hold
        · obtain ⟨m, hm, rfl⟩ := mem_map.mp hnew
          refine .inr fun hmark => ?_
          obtain ⟨rfl, hzero⟩ := hdrop hmark
          rw [hnext] at hm
          simpa [hzero, failingAfter] using hm

end

/-! ## Stream tasks -/

/-- The tags of the messages for the results. -/
def tagsOf (results : List MapResult) : List (Option (List String)) :=
  results.map fun result => some result.tags

section

variable {o : MapOutcome} {msg : UdfMessage} (vertexName : String)

/-- The results before the first failed one are reported and handed on. -/
theorem emitResults_spec (parent : ParentMessageInfo) (results : List MapResult)
    (hhandler : o.tracker.handler = true) {responses : List (Option (List String))}
    (htracked : responsesOf o.tracker parent.offset = some responses) :
    let emitted := tagsOf (results.takeWhile fun result => !result.tags.contains failTag)
    let o' := (emitResults vertexName parent results o).1
    (emitResults vertexName parent results o).2 = hasFailed results ∧ o'.endings = o.endings ∧
      o'.tracker.handler = true ∧
      responsesOf o'.tracker parent.offset = some (responses ++ emitted) ∧
      o'.handedTags parent.offset = o.handedTags parent.offset ++ emitted := by
  induction results generalizing parent o responses with
  | nil => simp [emitResults, hasFailed, tagsOf, hhandler, htracked]
  | cons result results ih =>
    by_cases hresult : result.tags.contains failTag = true
    · simp only [emitResults, failed_userDefinedMessage, hresult, if_true]
      have htags := List.contains_iff_mem.mp hresult
      simp [hasFailed, tagsOf, hhandler, htracked, htags]
    · rw [Bool.not_eq_true] at hresult
      simp only [emitResults, failed_userDefinedMessage, hresult]
      set m := userDefinedMessage vertexName result parent parent.currentIndex with hm
      have hoffset : m.offset = parent.offset := rfl
      have hmapped : ∀ m' ∈ [m], m'.offset = parent.offset := forall_mem_singleton.mpr rfl
      have htracked' : responsesOf (o.append m).tracker parent.offset =
          some (responses ++ [some result.tags]) := by
        rw [append_eq_report, responsesOf_report hhandler, hoffset, if_pos rfl, htracked]
        rfl
      have hhanded' : (o.append m).handedTags parent.offset =
          o.handedTags parent.offset ++ [some result.tags] := by
        rw [append_eq_report, hoffset, handedTags_report hmapped, if_pos rfl]
        rfl
      have hrest := ih (o := o.append m)
        { parent with currentIndex := parent.currentIndex + 1 } (handler_report.trans hhandler)
        htracked'
      simp only [Bool.false_eq_true, if_false, hasFailed, any_cons, hresult, Bool.false_or,
        takeWhile_cons, Bool.not_false, if_true, tagsOf, map_cons]
      simp only [hhanded', append_assoc] at hrest
      exact hrest

/-- When a stream task has marked a message as successful, what was handed downstream is what
the repeated attempts had handed on, followed by the responses. -/
theorem handed_executeStream (hhandler : o.tracker.handler = true)
    (htracked : (responsesOf o.tracker msg.offset).isSome = true) (ho : o.endings = [])
    (retry : RetryController) (attempts : List StreamAttempt) :
    ∀ e ∈ (executeStream vertexName msg retry attempts o).endings, e.1 = msg ∧
      (e.2.mark = .success → ∃ responses,
        responsesOf (executeStream vertexName msg retry attempts o).tracker msg.offset =
          some responses ∧
        (executeStream vertexName msg retry attempts o).handedTags msg.offset =
          o.handedTags msg.offset ++ (repeated retry.backoff attempts).flatMap
            (fun attempt => tagsOf attempt.emitted) ++ responses) := by
  induction attempts generalizing o retry with
  | nil =>
    intro e he
    rw [executeStream, ho] at he
    cases he
  | cons attempt attempts ih =>
    have hrefresh : responsesOf (o.refresh msg).tracker msg.offset = some [] := by
      obtain ⟨old, hold⟩ := Option.isSome_iff_exists.mp htracked
      rw [refresh_eq_report, responsesOf_report hhandler, if_pos rfl, hold]
      rfl
    obtain ⟨hfailed, hendings, hhandler', htracked', hemitted⟩ :=
      emitResults_spec vertexName (parentInfo msg) attempt.results
        ((ServingTracker.handler_modifyResponses _).trans hhandler) hrefresh
    have hsame : (o.refresh msg).handedTags msg.offset = o.handedTags msg.offset := by
      rw [refresh_eq_report, handedTags_report (forall_mem_nil _), if_pos rfl, map_nil, append_nil]
    have hhanded : (emitResults vertexName (parentInfo msg) attempt.results
        (o.refresh msg)).1.handedTags msg.offset =
          o.handedTags msg.offset ++ tagsOf attempt.emitted :=
      hemitted.trans (congrArg (· ++ _) hsame)
    -- the end of the task changes neither the tracker nor what was handed downstream
    have hfinish : ∀ ending, repeated retry.backoff (attempt :: attempts) = [] ∨
        ending.mark ≠ .success → ∀ o' : MapOutcome,
        (emitResults vertexName (parentInfo msg) attempt.results (o.refresh msg)).1 = o' →
        ∀ e ∈ (o'.finish msg ending).endings, e.1 = msg ∧ (e.2.mark = .success → ∃ responses,
          responsesOf (o'.finish msg ending).tracker msg.offset = some responses ∧
          (o'.finish msg ending).handedTags msg.offset = o.handedTags msg.offset ++
            (repeated retry.backoff (attempt :: attempts)).flatMap
              (fun attempt => tagsOf attempt.emitted) ++ responses) := by
      rintro ending hempty o' rfl e he
      rw [MapOutcome.finish, hendings] at he
      change e ∈ o.endings ++ [(msg, ending)] at he
      rw [ho] at he
      cases mem_singleton.mp he
      refine ⟨rfl, fun hmark => ?_⟩
      rw [hempty.resolve_right (not_not.mpr hmark), flatMap_nil, append_nil]
      exact ⟨_, htracked', hhanded⟩
    unfold executeStream
    split
    · rename_i o' heq
      rw [heq] at hfailed hendings hhandler' htracked' hhanded hfinish
      have htake : (attempt :: attempts).takeWhile StreamAttempt.fails =
          attempt :: attempts.takeWhile StreamAttempt.fails := takeWhile_cons_of_pos hfailed.symm
      rcases nextStep_cases retry attempt.cancelled with ⟨hagain, hretry⟩ | ⟨ending, hend, hdrop⟩
      · simp only [hagain]
        have hrepeated : repeated retry.backoff (attempt :: attempts) =
            attempt :: repeated (retry.nextStep attempt.cancelled).1.backoff attempts := by
          rcases hretry with ⟨hnone, hnone'⟩ | ⟨n, hsome, hsome'⟩
          · simp only [repeated, hnone, hnone', htake]
          · simp only [repeated, hsome, hsome', htake, take_succ_cons]
        intro e he
        obtain ⟨hmsg, hlater⟩ := ih hhandler'
          (Option.isSome_of_mem htracked') (hendings.trans ho) _ e he
        refine ⟨hmsg, fun hmark => ?_⟩
        obtain ⟨responses, hresponses, hall⟩ := hlater hmark
        refine ⟨responses, hresponses, ?_⟩
        rw [hall, hrepeated, flatMap_cons, hhanded]
        simp only [append_assoc]
      · simp only [hend]
        refine hfinish ending ?_ o' rfl
        by_cases hmark : ending.mark = .success
        · rw [(hdrop hmark).2]
          exact .inl rfl
        · exact .inr hmark
    · rename_i o' heq
      rw [heq] at hfailed hfinish
      have htake : (attempt :: attempts).takeWhile StreamAttempt.fails = [] :=
        takeWhile_cons_of_neg (by rw [StreamAttempt.fails, ← hfailed]; exact Bool.false_ne_true)
      have hempty : repeated retry.backoff (attempt :: attempts) = [] := by
        unfold repeated
        split <;> simp [htake]
      split
      · exact hfinish _ (.inl hempty) o' rfl
      · exact hfinish _ (.inl hempty) o' rfl

end

/-! ## All tasks -/

/-- When the tracker gets a message right that is marked as successful: a unary or a batch task
has not seen it fail in one attempt more than the configuration allows retries, and no attempt of
a stream task that was repeated has handed anything on. -/
def MapTask.Exact (config : Option RetryConfig) (msg : UdfMessage) : MapTask → Prop
  | .unary _ attempts => ∀ c ∈ config,
      (attempts.takeWhile UnaryAttempt.fails).length ≤ c.maxRetryAttempts
  | .batch msgs attempts => ∀ c ∈ config,
      msg ∉ failingAfter msgs (attempts.take (c.maxRetryAttempts + 1))
  | .stream _ attempts =>
    ∀ attempt ∈ repeated (config.map fun c => c.maxRetryAttempts) attempts, attempt.emitted = []

/-- The responses of a message that is marked as successful are the tags of the messages that
were handed downstream for it, exactly under the condition on the attempts. -/
theorem responses_eq_handed_iff (vertexName : String) (config : Option RetryConfig) (task : MapTask)
    (tracker : ServingTracker) (hhandler : tracker.handler = true)
    (hdistinct : (task.messages.map fun msg => msg.offset).Nodup)
    (htracked : ∀ msg ∈ task.messages, responsesOf tracker msg.offset = some [none]) :
    let o := task.execute vertexName config tracker
    ∀ msg ending, (msg, ending) ∈ o.endings → ending.mark = .success →
      (responsesOf o.tracker msg.offset = some ((o.handed msg.offset).map fun m => m.tags) ↔
        task.Exact config msg) := by
  have hpending : Pending { tracker := tracker } task.messages :=
    ⟨hdistinct, fun msg hmsg => ⟨hhandler, htracked msg hmsg, rfl⟩,
      fun _ _ hmsg => absurd hmsg List.not_mem_nil⟩
  intro o msg ending hmem hmark
  cases task with
  | unary m attempts =>
    refine (((pending_executeUnary hpending _ attempts).ended msg ending hmem).1.responses_iff
      hmark).trans ((not_congr (dropped_executeUnary_iff rfl _ attempts _ hmem hmark)).trans ?_)
    cases config <;> simp [MapTask.Exact, RetryController.new]
  | batch msgs attempts =>
    have hdropped := ((dropped_executeBatch_iff hdistinct _ attempts _ hmem).resolve_left
      List.not_mem_nil) hmark
    refine (((pending_executeBatch hpending _ attempts).ended msg ending hmem).1.responses_iff
      hmark).trans ((not_congr hdropped).trans ?_)
    cases config <;> simp [MapTask.Exact, RetryController.new, MapTask.messages]
  | stream m attempts =>
    obtain ⟨heq, hhanded⟩ := handed_executeStream vertexName (o := { tracker := tracker })
      hhandler (Option.isSome_of_mem (htracked m List.mem_cons_self)) rfl (.new config) attempts
      _ hmem
    obtain ⟨responses, hresponses, hall⟩ := hhanded hmark
    cases heq
    have hiff : responsesOf o.tracker msg.offset = some (o.handedTags msg.offset) ↔
        (repeated (RetryController.new config).backoff attempts).flatMap
          (fun attempt => tagsOf attempt.emitted) = [] := by
      change responsesOf (executeStream ..).tracker _ = some ((executeStream ..).handedTags _) ↔ _
      rw [hresponses, hall, Option.some.injEq]
      exact List.self_eq_append_left
    refine hiff.trans ?_
    simp [MapTask.Exact, RetryController.new, tagsOf, flatMap_eq_nil_iff]

/-- The tracker after a message was read. -/
def readTracker (msgs : List UdfMessage) : ServingTracker where
  handler := true
  entries := HashMap.insertAll ∅ (msgs.map fun msg => ⟨msg.offset, some ⟨"a", "0", "in", [none]⟩⟩)

def taggedResult (tag : String) : MapResult where
  tags := [tag]

/-- Two retries, then the message is dropped. -/
def dropConfig : Option RetryConfig := some ⟨2, .drop⟩

/-- The first attempt fails before it hands anything on, the second one succeeds. -/
theorem responses_eq_handed_retried :
    let task : MapTask := .stream inMessage
      [⟨[failedResult], .ok (), false⟩, ⟨[taggedResult "x", taggedResult "y"], .ok (), false⟩]
    let o := task.execute "map" dropConfig (readTracker [inMessage])
    (o.endings.map Prod.snd, responsesOf o.tracker inMessage.offset) =
        ([.forwarded], some [some ["x"], some ["y"]]) ∧ task.Exact dropConfig inMessage := by
  intro task o
  refine ⟨by decide, ?_⟩
  have hmem : (inMessage, .forwarded) ∈ o.endings := mem_singleton.mpr rfl
  exact (responses_eq_handed_iff "map" dropConfig task (readTracker [inMessage]) rfl (by decide)
    (by decide) inMessage .forwarded hmem rfl).mp (by decide)

/-- A unary task drops a message after its last attempt and reports a response although nothing
was handed downstream; a stream task reports the last attempt only although an attempt that failed
has handed a message on. -/
theorem responses_ne_handed :
    let attempt : UnaryAttempt := ⟨.ok [failedResult], false⟩
    let unary := (MapTask.unary inMessage [attempt, attempt, attempt]).execute "map" dropConfig
      (readTracker [inMessage])
    let stream := (MapTask.stream inMessage [⟨[taggedResult "x", failedResult], .ok (), false⟩,
      ⟨[taggedResult "y"], .ok (), false⟩]).execute "map" dropConfig (readTracker [inMessage])
    (unary.endings.map Prod.snd, unary.handed inMessage.offset,
        responsesOf unary.tracker inMessage.offset) = ([.dropped], [], some [none]) ∧
      (stream.endings.map Prod.snd, (stream.handed inMessage.offset).map (fun m => m.tags),
        responsesOf stream.tracker inMessage.offset) =
        ([.forwarded], [some ["x"], some ["y"]], some [some ["y"]]) := by
  decide

end Numaflow.Map
