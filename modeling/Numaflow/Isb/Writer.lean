import Numaflow.Isb.Forward

/-!
# The write task of a message

Every message that leaves a vertex is written by a task of its own.  The task writes the
message to the stream of each edge whose condition it meets, waits for the confirmations,
writes again where a confirmation fails, and marks the handle of the message in the end.
The task is a machine that is driven by the answers of the buffer; the token that cancels
it is read together with an answer.

For the sake of the statements, the machine keeps receipts: which edge was confirmed and
which one was given up because its buffer was full.

Main results: `Sound.step`, `mem_receipts_step`, `markedSuccess_iff`,
`work_step`.
-/

namespace Numaflow.Isb

open Lib List

/-- The errors of a write. -/
inductive WriteError where
  | bufferFull
  | writeFailed (reason : String)
deriving DecidableEq, Repr

/-- A confirmed write. -/
structure WriteResult where
  offset : Offset
  isDuplicate : Bool
deriving DecidableEq, Repr

/-- A write that is not yet confirmed, with the number of its edge and what the buffer has
to say about it. -/
structure PendingWriteResult where
  edge : Nat
  stream : Stream
  paf : Option WriteResult
deriving DecidableEq, Repr

/-- The result of the first write to an edge. -/
inductive WriteOutcome where
  | success (pending : PendingWriteResult)
  | dropped
  | cancelled
deriving DecidableEq, Repr

namespace WriteOutcome

/-- The write that is waiting for its confirmation. -/
def pending? : WriteOutcome → Option PendingWriteResult
  | .success pending => some pending
  | .dropped => none
  | .cancelled => none

end WriteOutcome

/-- What the task is waiting for: the answer to the first write of an edge, the confirmation
of a write, the answer to a repeated write, or nothing. -/
inductive Phase where
  | writing (edge : Nat) (stream : Stream) (strategy : BufferFullStrategy)
      (rest : List (ToVertexConfig × Nat)) (results : List WriteOutcome)
  | resolving (current : PendingWriteResult) (rest : List PendingWriteResult)
      (offsets : List (Stream × Offset)) (expected : Nat)
  | rewriting (current : PendingWriteResult) (rest : List PendingWriteResult)
      (offsets : List (Stream × Offset)) (expected : Nat)
  | done (mark : Mark)
deriving DecidableEq, Repr

/-- How an edge took the message. -/
inductive Receipt where
  | confirmed
  | discarded
deriving DecidableEq, Repr

/-- The edges of a vertex, the streams that have a writer, and the hash function. -/
structure ISBWriterOrchestrator where
  config : List ToVertexConfig
  writers : List String
  hash : String → Nat

/-- A task, with the offsets it publishes watermarks for when it is done. -/
structure ISBWriteTask where
  message : TaggedMessage
  phase : Phase
  published : List (Stream × Offset) := []
  receipts : List (Nat × Receipt) := []
deriving DecidableEq, Repr

/-- An answer of the buffer, and whether the task is cancelled when it reads the answer. -/
inductive Answer where
  | asyncWrite (result : Except WriteError (Option WriteResult)) (cancelled : Bool)
  | paf (result : Except WriteError WriteResult)
  | write (result : Except WriteError WriteResult) (cancelled : Bool)

/-- A message is forwarded over an edge. -/
def forwards (message : TaggedMessage) (edge : ToVertexConfig × Nat) : Bool :=
  shouldForward message.tags edge.1.conditions

namespace ISBWriterOrchestrator

/-- The stream for an edge, if it has a writer; the code stops otherwise. -/
def target (o : ISBWriterOrchestrator) (message : TaggedMessage) (vertex : ToVertexConfig) :
    Option Stream :=
  (determineTargetStream o.hash message vertex).filter fun stream =>
    o.writers.contains stream.name

/-- The edges that a message is forwarded over, with their numbers. -/
def wanted (o : ISBWriterOrchestrator) (message : TaggedMessage) : List (ToVertexConfig × Nat) :=
  o.config.zipIdx.filter (forwards message)

end ISBWriterOrchestrator

namespace ISBWriteTask

/-- The task ends with the given mark. -/
def finish (task : ISBWriteTask) (mark : Mark) : ISBWriteTask :=
  { task with phase := .done mark }

/-- Resolve the next pending write, or compare the numbers of offsets and writes. -/
def resolveAllPafs (task : ISBWriteTask) (pending : List PendingWriteResult)
    (offsets : List (Stream × Offset)) (expected : Nat) : ISBWriteTask :=
  match pending with
  | current :: rest => { task with phase := .resolving current rest offsets expected }
  | [] =>
    if offsets.length ≠ expected then
      task.finish (.failed ("PAF resolution failed: " ++ toString offsets.length ++ "/" ++
        toString expected ++ " writes succeeded") none)
    else { task.finish .success with published := offsets }

/-- All edges were written to: a cancelled write fails the message. -/
def collectOutcomes (task : ISBWriteTask) (results : List WriteOutcome) : ISBWriteTask :=
  let successes := results.filterMap WriteOutcome.pending?
  let cancelledCount := results.count .cancelled
  if 0 < cancelledCount then
    task.finish (.failed ("Token cancelled during ISB write: " ++ toString cancelledCount ++
      " write(s) did not complete") none)
  else task.resolveAllPafs successes [] successes.length

/-- Go on with the next edge whose condition the message meets. -/
def routeAndWriteMessage (task : ISBWriteTask) (o : ISBWriterOrchestrator)
    (results : List WriteOutcome) : List (ToVertexConfig × Nat) → ISBWriteTask
  | [] => task.collectOutcomes results
  | (vertex, edge) :: rest =>
    if forwards task.message (vertex, edge) then
      match o.target task.message vertex with
      | some stream =>
        { task with phase := .writing edge stream vertex.bufferFullStrategy rest results }
      | none => task.finish .dropped
    else task.routeAndWriteMessage o results rest

/-- The task up to its first write. -/
def execute (o : ISBWriterOrchestrator) (message : TaggedMessage) : ISBWriteTask :=
  let task : ISBWriteTask := { message, phase := .done .dropped }
  if message.dropped then task.finish .success
  else if message.nacked then task.finish (.failed "message nacked" message.nackOptions)
  else task.routeAndWriteMessage o [] o.config.zipIdx

/-- Keep a receipt. -/
def addReceipt (task : ISBWriteTask) (edge : Nat) (receipt : Receipt) : ISBWriteTask :=
  { task with receipts := task.receipts ++ [(edge, receipt)] }

/-- An edge is confirmed; its offset is kept and the next write is resolved. -/
def confirm (task : ISBWriteTask) (current : PendingWriteResult) (rest : List PendingWriteResult)
    (offsets : List (Stream × Offset)) (expected : Nat) (result : WriteResult) : ISBWriteTask :=
  (task.addReceipt current.edge .confirmed).resolveAllPafs rest
    (offsets ++ [(current.stream, result.offset)]) expected

/-- React to an answer; an answer that the task is not waiting for changes nothing. -/
def step (o : ISBWriterOrchestrator) (task : ISBWriteTask) (answer : Answer) : ISBWriteTask :=
  match task.phase, answer with
  | .writing edge stream strategy rest results, .asyncWrite result cancelled =>
    match result with
    | .ok paf => task.routeAndWriteMessage o (results ++ [.success ⟨edge, stream, paf⟩]) rest
    | .error error =>
      if error = .bufferFull ∧ strategy = .discardLatest then
        (task.addReceipt edge .discarded).routeAndWriteMessage o (results ++ [.dropped]) rest
      else if cancelled then task.routeAndWriteMessage o (results ++ [.cancelled]) rest
      else task
  | .resolving current rest offsets expected, .paf result =>
    match result with
    | .ok result => task.confirm current rest offsets expected result
    | .error _ => { task with phase := .rewriting current rest offsets expected }
  | .rewriting current rest offsets expected, .write result cancelled =>
    match result with
    | .ok result => task.confirm current rest offsets expected result
    | .error _ => if cancelled then task.resolveAllPafs rest offsets expected else task
  | _, _ => task

end ISBWriteTask

/-! ## Reactions -/

/-- The answer accepts the first write to an edge. -/
def Accepts (task : ISBWriteTask) (answer : Answer) (p : PendingWriteResult) : Prop :=
  ∃ strategy rest results cancelled, task.phase = .writing p.edge p.stream strategy rest results ∧
    answer = .asyncWrite (.ok p.paf) cancelled

/-- The answer confirms a write. -/
def Confirms (task : ISBWriteTask) (answer : Answer) (p : PendingWriteResult) : Prop :=
  (∃ rest offsets expected result, task.phase = .resolving p rest offsets expected ∧
      answer = .paf (.ok result)) ∨
    ∃ rest offsets expected result cancelled, task.phase = .rewriting p rest offsets expected ∧
      answer = .write (.ok result) cancelled

/-- The answer refuses the first write to an edge because its buffer is full, and the edge
discards the latest message then. -/
def Discards (task : ISBWriteTask) (answer : Answer) (edge : Nat) : Prop :=
  ∃ stream rest results cancelled, task.phase = .writing edge stream .discardLatest rest results ∧
    answer = .asyncWrite (.error .bufferFull) cancelled

/-- The answer brings the receipt about. -/
def Gives (task : ISBWriteTask) (answer : Answer) : Nat × Receipt → Prop
  | (edge, .confirmed) => ∃ p, Confirms task answer p ∧ p.edge = edge
  | (edge, .discarded) => Discards task answer edge

/-- The result of the first write to an edge, and the task with the receipt for it. -/
inductive FirstWrite (task : ISBWriteTask) (answer : Answer) (edge : Nat) (stream : Stream)
    (strategy : BufferFullStrategy) : WriteOutcome → ISBWriteTask → Prop where
  | accepted {paf : Option WriteResult} (h : Accepts task answer ⟨edge, stream, paf⟩) :
      FirstWrite task answer edge stream strategy (.success ⟨edge, stream, paf⟩) task
  | discarded (h : strategy = .discardLatest) :
      FirstWrite task answer edge stream strategy .dropped (task.addReceipt edge .discarded)
  | cancelled : FirstWrite task answer edge stream strategy .cancelled task

/-- What an answer makes of a task. -/
inductive Reacts (o : ISBWriterOrchestrator) (task : ISBWriteTask) (answer : Answer) :
    ISBWriteTask → Prop where
  | same : Reacts o task answer task
  | written {edge : Nat} {stream : Stream} {strategy : BufferFullStrategy}
      {rest : List (ToVertexConfig × Nat)} {results : List WriteOutcome} {result : WriteOutcome}
      {task' : ISBWriteTask} (hphase : task.phase = .writing edge stream strategy rest results)
      (hfirst : FirstWrite task answer edge stream strategy result task') :
      Reacts o task answer (task'.routeAndWriteMessage o (results ++ [result]) rest)
  | lost {current : PendingWriteResult} {rest : List PendingWriteResult}
      {offsets : List (Stream × Offset)} {expected : Nat}
      (hphase : task.phase = .resolving current rest offsets expected) :
      Reacts o task answer { task with phase := .rewriting current rest offsets expected }
  | confirmed {current : PendingWriteResult} {rest : List PendingWriteResult}
      {offsets : List (Stream × Offset)} {expected : Nat} {result : WriteResult}
      (hphase : task.phase = .resolving current rest offsets expected ∨
        task.phase = .rewriting current rest offsets expected)
      (hconfirms : Confirms task answer current) :
      Reacts o task answer (task.confirm current rest offsets expected result)
  | gaveUp {current : PendingWriteResult} {rest : List PendingWriteResult}
      {offsets : List (Stream × Offset)} {expected : Nat}
      (hphase : task.phase = .rewriting current rest offsets expected) :
      Reacts o task answer (task.resolveAllPafs rest offsets expected)

open ISBWriteTask

/-- How a task reacts to an answer. -/
theorem reacts_step (o : ISBWriterOrchestrator) (task : ISBWriteTask) (answer : Answer) :
    Reacts o task answer (task.step o answer) := by
  unfold step
  split
  · rename_i hphase
    split
    · exact .written hphase (.accepted ⟨_, _, _, _, hphase, rfl⟩)
    · split_ifs with hdiscard
      · exact .written hphase (.discarded hdiscard.2)
      · exact .written hphase .cancelled
      · exact .same
  · rename_i hphase
    split
    · exact .confirmed (.inl hphase) (.inl ⟨_, _, _, _, hphase, rfl⟩)
    · exact .lost hphase
  · rename_i hphase
    split
    · exact .confirmed (.inr hphase) (.inr ⟨_, _, _, _, _, hphase, rfl⟩)
    · split_ifs
      · exact .gaveUp hphase
      · exact .same
  · exact .same

/-! ## Edges -/

theorem nodup_wanted (o : ISBWriterOrchestrator) (message : TaggedMessage) :
    ((o.wanted message).map Prod.snd).Nodup := by
  refine List.Nodup.sublist (filter_sublist.map _) ?_
  rw [zipIdx_map_snd]
  exact nodup_range' ..

variable {vertex : ToVertexConfig} {edge : ToVertexConfig × Nat} {receipts' : List (Nat × Receipt)}
  {edge' : Nat} {receipt : Receipt}

theorem mem_wanted {edge : Nat} {o : ISBWriterOrchestrator} {message : TaggedMessage} :
    (vertex, edge) ∈ o.wanted message ↔
      o.config[edge]? = some vertex ∧ shouldForward message.tags vertex.conditions = true := by
  rw [ISBWriterOrchestrator.wanted, mem_filter, mem_zipIdx_iff_getElem?]
  rfl

/-- The edge has a receipt. -/
def Receipted (receipts : List (Nat × Receipt)) (edge : Nat) : Prop :=
  ∃ receipt, (edge, receipt) ∈ receipts

/-- The edge took the message: the write was confirmed, or it was discarded and the edge
allows that. -/
def Took (receipts : List (Nat × Receipt)) (edge : ToVertexConfig × Nat) : Prop :=
  (edge.2, .confirmed) ∈ receipts ∨
    (edge.2, .discarded) ∈ receipts ∧ edge.1.bufferFullStrategy = .discardLatest

variable {receipts : List (Nat × Receipt)}

theorem Took.receipted (h : Took receipts edge) : Receipted receipts edge.2 := by
  rcases h with h | ⟨h, -⟩
  · exact ⟨_, h⟩
  · exact ⟨_, h⟩

theorem Took.mono (h : Took receipts edge) (hsub : receipts ⊆ receipts') : Took receipts' edge :=
  h.imp (fun hmem => hsub hmem) (And.imp_left fun hmem => hsub hmem)

theorem receipted_append_singleton {edge : Nat} :
    Receipted (receipts ++ [(edge', receipt)]) edge ↔ Receipted receipts edge ∨ edge = edge' := by
  simp [Receipted, exists_or]

/-! ## Receipts agree with the machine -/

section

variable (o : ISBWriterOrchestrator) (message : TaggedMessage)

/-- What the result of a first write says about its edge. -/
def Outcome (receipts : List (Nat × Receipt)) (edge : ToVertexConfig × Nat) : WriteOutcome → Prop
  | .success pending => pending.edge = edge.2 ∧ o.target message edge.1 = some pending.stream ∧
      ¬ Receipted receipts edge.2
  | .dropped => Took receipts edge
  | .cancelled => ¬ Receipted receipts edge.2

/-- The edges that were written to have results, and no other edge has a receipt. -/
structure Written (receipts : List (Nat × Receipt)) (handled : List (ToVertexConfig × Nat))
    (results : List WriteOutcome) : Prop where
  outcomes : List.Forall₂ (Outcome o message receipts) handled results
  only : ∀ edge, Receipted receipts edge → edge ∈ handled.map Prod.snd

/-- The writes that are not yet resolved have no receipt.  Either all others took the
message, or one of them did not and an offset is missing. -/
structure Resolving (receipts : List (Nat × Receipt)) (pending : List PendingWriteResult)
    (resolved expected : Nat) : Prop where
  nodup : (pending.map PendingWriteResult.edge).Nodup
  waiting : ∀ p ∈ pending, ¬ Receipted receipts p.edge ∧
    ∃ vertex, (vertex, p.edge) ∈ o.wanted message ∧ o.target message vertex = some p.stream
  account : (resolved + pending.length = expected ∧
      ∀ edge ∈ o.wanted message, edge.2 ∈ pending.map PendingWriteResult.edge ∨
        Took receipts edge) ∨
    (resolved + pending.length < expected ∧
      ∃ edge ∈ o.wanted message, edge.2 ∉ pending.map PendingWriteResult.edge ∧
        ¬ Receipted receipts edge.2)

/-- The state of a task that routes its message agrees with the receipts. -/
def Sound (task : ISBWriteTask) : Prop :=
  match task.phase with
  | .writing edge stream strategy rest results =>
    ∃ vertex handled, o.wanted task.message =
        handled ++ (vertex, edge) :: rest.filter (forwards task.message) ∧
      o.target task.message vertex = some stream ∧ vertex.bufferFullStrategy = strategy ∧
      Written o task.message task.receipts handled results
  | .resolving current rest offsets expected =>
    Resolving o task.message task.receipts (current :: rest) offsets.length expected
  | .rewriting current rest offsets expected =>
    Resolving o task.message task.receipts (current :: rest) offsets.length expected
  | .done mark => mark = .success ↔ ∀ edge ∈ o.wanted task.message, Took task.receipts edge

end

open WriteOutcome

variable {mark : Mark}

section

variable {o : ISBWriterOrchestrator} {task : ISBWriteTask} {expected : Nat}
  {rest : List (ToVertexConfig × Nat)} {current : PendingWriteResult}

/-- A task fails soundly when an edge did not take the message. -/
theorem Sound.fail (hmark : mark ≠ .success) (hedge : edge ∈ o.wanted task.message)
    (hnot : ¬ Receipted task.receipts edge.2) : Sound o (task.finish mark) :=
  ⟨fun h => absurd h hmark, fun h => absurd (h edge hedge).receipted hnot⟩

variable {pending : List PendingWriteResult} {offsets : List (Stream × Offset)}
  {result : WriteOutcome} {resolved : Nat}

theorem Sound.resolve (h : Resolving o task.message task.receipts pending offsets.length expected) :
    Sound o (task.resolveAllPafs pending offsets expected) := by
  cases pending with
  | cons => exact h
  | nil =>
    unfold resolveAllPafs
    rcases h.account with ⟨hcount, htook⟩ | ⟨hcount, edge, hedge, -, hnot⟩
    · have hequal : ¬ offsets.length ≠ expected := not_not.mpr hcount
      simp only [if_neg hequal]
      exact ⟨fun _ edge hedge => (htook edge hedge).resolve_left (by simp), fun _ => rfl⟩
    · have hmissing : offsets.length ≠ expected := Nat.ne_of_lt hcount
      simp only [if_pos hmissing]
      exact Sound.fail (by simp) hedge hnot

variable {message : TaggedMessage} {handled : List (ToVertexConfig × Nat)}
  {results : List WriteOutcome}

section

variable (h : List.Forall₂ (Outcome o message receipts) handled results)

include h

/-- The pending writes are for some of the edges, in their order. -/
theorem pending_sublist : ((results.filterMap pending?).map PendingWriteResult.edge).Sublist
      (handled.map Prod.snd) := by
  induction h with
  | nil => exact List.Sublist.refl _
  | @cons edge result _ _ hout _ ih =>
    cases result with
    | success pending =>
      have hedge := hout.1
      simpa [pending?, hedge] using ih.cons_cons edge.2
    | dropped | cancelled =>
      exact ih.cons edge.2

theorem exists_edge
    (hresult : result ∈ results) : ∃ edge ∈ handled, Outcome o message receipts edge result := by
  obtain ⟨i, hi, rfl⟩ := getElem_of_mem hresult
  have hlt := h.length_eq ▸ hi
  exact ⟨handled[i], getElem_mem hlt, h.get hlt hi⟩

theorem exists_outcome
    (hedge : edge ∈ handled) : ∃ result ∈ results, Outcome o message receipts edge result := by
  obtain ⟨i, hi, rfl⟩ := getElem_of_mem hedge
  have hlt := h.length_eq ▸ hi
  exact ⟨results[i], getElem_mem hlt, h.get hi hlt⟩

/-- Each pending write belongs to an edge without receipt. -/
theorem waiting_of_outcomes : ∀ p ∈ results.filterMap pending?, ¬ Receipted receipts p.edge ∧
      ∃ vertex, (vertex, p.edge) ∈ handled ∧ o.target message vertex = some p.stream := by
  intro p hp
  obtain ⟨result, hresult, hpending⟩ := mem_filterMap.mp hp
  obtain ⟨edge, hedge, hout⟩ := exists_edge h hresult
  cases result with
  | success pending =>
    obtain ⟨heq, htarget, hnot⟩ := hout
    obtain rfl : pending = p := Option.some.inj hpending
    exact ⟨heq ▸ hnot, edge.1, heq ▸ hedge, htarget⟩
  | dropped | cancelled => cases hpending

/-- Without cancelled writes every edge is pending or has its receipt. -/
theorem took_of_outcomes (hcancelled : .cancelled ∉ results) :
    ∀ edge ∈ handled, edge.2 ∈ (results.filterMap pending?).map
      PendingWriteResult.edge ∨ Took receipts edge := by
  intro edge hedge
  obtain ⟨result, hresult, hout⟩ := exists_outcome h hedge
  cases result with
  | success pending =>
    exact .inl (mem_map.mpr ⟨pending, mem_filterMap.mpr ⟨_, hresult, rfl⟩, hout.1⟩)
  | dropped => exact .inr hout
  | cancelled => exact absurd hresult hcancelled

end

theorem Sound.collect
    (h : List.Forall₂ (Outcome o task.message task.receipts) (o.wanted task.message) results) :
    Sound o (task.collectOutcomes results) := by
  unfold collectOutcomes
  by_cases hcancelled : .cancelled ∈ results
  · rw [if_pos (count_pos_iff.mpr hcancelled)]
    -- a cancelled write leaves an edge without receipt
    obtain ⟨edge, hedge, hnot⟩ := exists_edge h hcancelled
    exact Sound.fail (by simp) hedge hnot
  · rw [if_neg (by rw [count_pos_iff]; exact hcancelled)]
    refine Sound.resolve ⟨?_, waiting_of_outcomes h, ?_⟩
    · exact (nodup_wanted o task.message).sublist (pending_sublist h)
    · exact .inl ⟨by simp, took_of_outcomes h hcancelled⟩

/-- The numbers of the edges are distinct. -/
theorem not_receipted_of_written (hwanted : o.wanted message = handled ++ edge :: rest)
    (h : Written o message receipts handled results) : ¬ Receipted receipts edge.2 := by
  intro hreceipted
  have hnodup := nodup_wanted o message
  rw [hwanted, map_append, nodup_append] at hnodup
  exact hnodup.2.2 _ (h.only _ hreceipted) _ mem_cons_self rfl

theorem Sound.route
    (hwanted : o.wanted task.message = handled ++ rest.filter (forwards task.message))
    (h : Written o task.message task.receipts handled results) :
    Sound o (task.routeAndWriteMessage o results rest) := by
  induction rest with
  | nil =>
    rw [filter_nil, append_nil] at hwanted
    exact Sound.collect (hwanted ▸ h.outcomes)
  | cons edge _ ih =>
    obtain ⟨vertex, edge⟩ := edge
    rw [routeAndWriteMessage]
    by_cases hforward : forwards task.message (vertex, edge) = true
    · rw [filter_cons_of_pos hforward] at hwanted
      rw [if_pos hforward]
      cases htarget : o.target task.message vertex with
      | some => exact ⟨vertex, handled, hwanted, htarget, rfl, h⟩
      | none =>
        have hmem : (vertex, edge) ∈ o.wanted task.message := by simp [hwanted]
        exact Sound.fail (by simp) hmem (not_receipted_of_written hwanted h)
    · rw [filter_cons_of_neg hforward] at hwanted
      rw [if_neg hforward]
      exact ih hwanted

/-- One more edge has its result, and possibly a receipt. -/
theorem Written.append (h : Written o message receipts handled results)
    (hnot : edge.2 ∉ handled.map Prod.snd) (hsub : receipts ⊆ receipts')
    (hmore : ∀ r ∈ receipts', r ∈ receipts ∨ r.1 = edge.2)
    (hresult : Outcome o message receipts' edge result) :
    Written o message receipts' (handled ++ [edge]) (results ++ [result]) := by
  have hold : ∀ edge', edge' ≠ edge.2 → Receipted receipts' edge' → Receipted receipts edge' := by
    rintro edge' hne ⟨receipt, hmem⟩
    exact ⟨receipt, (hmore _ hmem).resolve_right hne⟩
  refine ⟨rel_append ?_ (.cons hresult .nil), ?_⟩
  · refine ((forall₂_and_left handled results).mpr ⟨fun e he => he, h.outcomes⟩).imp ?_
    rintro edge' result' ⟨hmem, hout⟩
    have hne : edge'.2 ≠ edge.2 := fun heq => hnot (heq ▸ mem_map_of_mem hmem)
    cases result' with
    | success => exact ⟨hout.1, hout.2.1, fun hr => hout.2.2 (hold _ hne hr)⟩
    | dropped => exact Took.mono hout hsub
    | cancelled => exact fun hr => hout (hold _ hne hr)
  · intro edge' hreceipted
    rw [map_append, mem_append]
    by_cases heq : edge' = edge.2
    · exact .inr (by simp [heq])
    · exact .inl (h.only _ (hold _ heq hreceipted))

/-- A resolved write leaves the pending ones. -/
theorem Resolving.confirm {rest : List PendingWriteResult}
    (h : Resolving o message receipts (current :: rest) resolved expected) :
    Resolving o message (receipts ++ [(current.edge, .confirmed)]) rest (resolved + 1) expected := by
  have hnodup := nodup_cons.mp h.nodup
  refine ⟨hnodup.2, fun p hp => ?_, ?_⟩
  · obtain ⟨hnot, hwanted⟩ := h.waiting p (mem_cons_of_mem _ hp)
    refine ⟨?_, hwanted⟩
    rw [receipted_append_singleton, not_or]
    exact ⟨hnot, fun heq => hnodup.1 (heq ▸ mem_map_of_mem hp)⟩
  · rcases h.account with ⟨hcount, htook⟩ | ⟨hcount, edge, hedge, hpending, hnot⟩
    · left
      refine ⟨by rw [length_cons] at hcount; omega, fun edge hedge => ?_⟩
      rcases htook edge hedge with hmem | htook
      · rcases mem_cons.mp hmem with heq | hmem
        · exact .inr (.inl (by simp [heq]))
        · exact .inl hmem
      · exact .inr (htook.mono (subset_append_left _ _))
    · right
      rw [map_cons, mem_cons, not_or] at hpending
      refine ⟨by rw [length_cons] at hcount; omega, edge, hedge, hpending.2, ?_⟩
      rw [receipted_append_singleton, not_or]
      exact ⟨hnot, hpending.1⟩

/-- A write that is given up leaves an edge without receipt. -/
theorem Resolving.giveUp {rest : List PendingWriteResult}
    (h : Resolving o message receipts (current :: rest) resolved expected) :
    Resolving o message receipts rest resolved expected := by
  have hnodup := nodup_cons.mp h.nodup
  obtain ⟨hnot, vertex, hwanted, -⟩ := h.waiting current mem_cons_self
  refine ⟨hnodup.2, fun p hp => h.waiting p (mem_cons_of_mem _ hp), .inr ⟨?_, ?_⟩⟩
  · rcases h.account with ⟨hcount, -⟩ | ⟨hcount, -⟩
    · rw [length_cons] at hcount
      omega
    · rw [length_cons] at hcount
      omega
  · exact ⟨_, hwanted, hnodup.1, hnot⟩

/-- The first write to an edge has its result. -/
theorem Sound.answered
    (hwanted : o.wanted task.message = handled ++ edge :: rest.filter (forwards task.message))
    (hwritten : Written o task.message receipts handled results) (hsub : receipts ⊆ task.receipts)
    (hmore : ∀ r ∈ task.receipts, r ∈ receipts ∨ r.1 = edge.2)
    (hresult : Outcome o task.message task.receipts edge result) :
    Sound o (task.routeAndWriteMessage o (results ++ [result]) rest) := by
  have hnodup := nodup_wanted o task.message
  rw [hwanted, map_append, nodup_append] at hnodup
  have hfresh : edge.2 ∉ handled.map Prod.snd :=
    fun hmem => hnodup.2.2 _ hmem _ mem_cons_self rfl
  have hsplit : o.wanted task.message = (handled ++ [edge]) ++ rest.filter (forwards task.message) := by
    rw [hwanted, append_assoc, singleton_append]
  exact Sound.route hsplit (hwritten.append hfresh hsub hmore hresult)

/-- The task agrees with its receipts after every answer. -/
theorem Sound.step (h : Sound o task) (answer : Answer) : Sound o (task.step o answer) := by
  have hreacts := reacts_step o task answer
  generalize task.step o answer = task' at hreacts
  cases hreacts with
  | same => exact h
  | @written edge _ _ _ _ _ _ hphase hfirst =>
    rw [Sound, hphase] at h
    obtain ⟨vertex, handled, hwanted, htarget, hstrategy, hwritten⟩ := h
    have hnot := not_receipted_of_written hwanted hwritten
    cases hfirst with
    | accepted =>
      exact Sound.answered hwanted hwritten (List.Subset.refl _) (fun _ => .inl)
        ⟨rfl, htarget, hnot⟩
    | discarded hdiscard =>
      have htook : Took (task.addReceipt edge .discarded).receipts (vertex, edge) :=
        .inr ⟨mem_append_right _ mem_cons_self, hstrategy.trans hdiscard⟩
      exact Sound.answered hwanted hwritten (subset_append_left _ _)
        (fun r hr => (mem_append.mp hr).imp_right (by simp_all)) htook
    | cancelled => exact Sound.answered hwanted hwritten (List.Subset.refl _) (fun _ => .inl) hnot
  | lost hphase =>
    rw [Sound, hphase] at h
    exact h
  | confirmed hphase =>
    refine Sound.resolve ?_
    rw [length_append]
    apply Resolving.confirm
    rcases hphase with hphase | hphase
    all_goals
      rw [Sound, hphase] at h
      exact h
  | gaveUp hphase =>
    rw [Sound, hphase] at h
    exact Sound.resolve h.giveUp

end

/-! ## Progress -/

section

variable (o : ISBWriterOrchestrator) (task : ISBWriteTask)

/-- A bound on the answers that a task needs besides the retries: one for each edge that is
still to be written, and two for each write that is to be resolved. -/
def ISBWriteTask.work (task : ISBWriteTask) : Nat :=
  match task.phase with
  | .writing _ _ _ rest results => 3 * (rest.length + 1) + 2 * results.length
  | .resolving _ rest _ _ => 2 * rest.length + 2
  | .rewriting _ rest _ _ => 2 * rest.length + 1
  | .done _ => 0

theorem work_resolveAllPafs (pending : List PendingWriteResult) (offsets : List (Stream × Offset))
    (expected : Nat) : (task.resolveAllPafs pending offsets expected).work ≤ 2 * pending.length := by
  cases pending with
  | cons => exact Nat.le_refl _
  | nil =>
    unfold resolveAllPafs
    split_ifs <;> exact Nat.zero_le _

theorem work_routeAndWriteMessage (results : List WriteOutcome)
    (edges : List (ToVertexConfig × Nat)) :
    (task.routeAndWriteMessage o results edges).work ≤ 3 * edges.length + 2 * results.length := by
  induction edges with
  | nil =>
    have hpending : (results.filterMap pending?).length ≤ results.length :=
      length_filterMap_le _ _
    unfold routeAndWriteMessage collectOutcomes
    dsimp only
    split_ifs
    · exact Nat.zero_le _
    · have hwork := work_resolveAllPafs task (results.filterMap pending?) []
        (results.filterMap pending?).length
      omega
  | cons edge =>
    obtain ⟨vertex, edge⟩ := edge
    rw [routeAndWriteMessage]
    split_ifs
    · cases o.target task.message vertex with
      | some => exact Nat.le_refl _
      | none => exact Nat.zero_le _
    · rw [length_cons]
      omega

/-- Every answer is a retry or brings the task closer to its end. -/
theorem work_step (answer : Answer) :
    task.step o answer = task ∨ (task.step o answer).work < task.work := by
  have hreacts := reacts_step o task answer
  generalize task.step o answer = task' at hreacts
  cases hreacts with
  | same => exact .inl rfl
  | @written _ _ _ rest results result task' hphase =>
    have hwork := work_routeAndWriteMessage o task' (results ++ [result]) rest
    rw [length_append, length_singleton] at hwork
    simp only [work, hphase] at hwork ⊢
    omega
  | lost hphase => simp [work, hphase]
  | @confirmed current rest offsets expected result hphase =>
    have hwork : (task.confirm current rest offsets expected result).work ≤ 2 * rest.length :=
      work_resolveAllPafs ..
    rcases hphase with hphase | hphase
    all_goals
      simp only [work, hphase] at hwork ⊢
      omega
  | @gaveUp _ rest offsets expected hphase =>
    have hwork := work_resolveAllPafs task rest offsets expected
    simp only [work, hphase] at hwork ⊢
    omega

theorem work_eq_zero_iff : task.work = 0 ↔ ∃ mark, task.phase = .done mark := by
  unfold work
  split <;> rename_i hphase <;> simp [hphase]

end

/-! ## What an answer adds -/

/-- The writes whose confirmation is still to come. -/
def ISBWriteTask.pending (task : ISBWriteTask) : List PendingWriteResult :=
  match task.phase with
  | .writing _ _ _ _ results => results.filterMap WriteOutcome.pending?
  | .resolving current rest _ _ => current :: rest
  | .rewriting current rest _ _ => current :: rest
  | .done _ => []

/-- The task is at the first writes. -/
def ISBWriteTask.isWriting (task : ISBWriteTask) : Bool :=
  match task.phase with
  | .writing _ _ _ _ _ => true
  | _ => false

section

variable (task : ISBWriteTask)

theorem resolveAllPafs_same (pending : List PendingWriteResult)
    (offsets : List (Stream × Offset)) (expected : Nat) :
    (task.resolveAllPafs pending offsets expected).message = task.message ∧
      (task.resolveAllPafs pending offsets expected).receipts = task.receipts := by
  unfold resolveAllPafs
  split
  · exact ⟨rfl, rfl⟩
  · split_ifs <;> exact ⟨rfl, rfl⟩

theorem pending_resolveAllPafs (pending : List PendingWriteResult)
    (offsets : List (Stream × Offset)) (expected : Nat) :
    (task.resolveAllPafs pending offsets expected).pending = pending := by
  cases pending with
  | cons => rfl
  | nil =>
    unfold resolveAllPafs
    split_ifs <;> rfl

theorem routeAndWriteMessage_same (o : ISBWriterOrchestrator)
    (results : List WriteOutcome) (edges : List (ToVertexConfig × Nat)) :
    (task.routeAndWriteMessage o results edges).message = task.message ∧
      (task.routeAndWriteMessage o results edges).receipts = task.receipts ∧
      (task.routeAndWriteMessage o results edges).pending ⊆
        results.filterMap pending? := by
  induction edges with
  | nil =>
    unfold routeAndWriteMessage collectOutcomes
    dsimp only
    split_ifs
    · exact ⟨rfl, rfl, nil_subset _⟩
    · have hsame := resolveAllPafs_same task (results.filterMap pending?) []
      refine ⟨(hsame _).1, (hsame _).2, ?_⟩
      rw [pending_resolveAllPafs]
      exact List.Subset.refl _
  | cons edge _ ih =>
    obtain ⟨vertex, edge⟩ := edge
    rw [routeAndWriteMessage]
    split_ifs
    · cases o.target task.message vertex with
      | some => exact ⟨rfl, rfl, List.Subset.refl _⟩
      | none => exact ⟨rfl, rfl, nil_subset _⟩
    · exact ih

/-- At a first write only a refusal gives a receipt. -/
theorem gives_of_writing {stream : Stream} {strategy : BufferFullStrategy} {edge : Nat}
    {rest : List (ToVertexConfig × Nat)} {results : List WriteOutcome} {answer : Answer}
    {r : Nat × Receipt} (hphase : task.phase = .writing edge stream strategy rest results) :
    Gives task answer r ↔ r = (edge, .discarded) ∧ strategy = .discardLatest ∧
      ∃ cancelled, answer = .asyncWrite (.error .bufferFull) cancelled := by
  obtain ⟨edge', receipt⟩ := r
  cases receipt with
  | confirmed => simp [Gives, Confirms, hphase]
  | discarded =>
    simp only [Gives, Discards, hphase, Phase.writing.injEq, Prod.mk.injEq, and_true]
    grind

/-- A confirmation gives the receipt of the write that is resolved. -/
theorem gives_of_pending {current : PendingWriteResult} {rest : List PendingWriteResult}
    {offsets : List (Stream × Offset)} {expected : Nat} {answer : Answer} {r : Nat × Receipt}
    (hphase : task.phase = .resolving current rest offsets expected ∨
      task.phase = .rewriting current rest offsets expected) :
    Gives task answer r ↔ r = (current.edge, .confirmed) ∧ Confirms task answer current := by
  obtain ⟨edge', receipt⟩ := r
  rcases hphase with hphase | hphase
  all_goals
    cases receipt with
    | confirmed =>
      simp only [Gives, Confirms, hphase, Prod.mk.injEq, and_true]
      grind
    | discarded => simp [Gives, Discards, hphase]

/-- The receipts after an answer are those before it, and the one that the answer gives. -/
theorem mem_receipts_step (o : ISBWriterOrchestrator) (answer : Answer) (r : Nat × Receipt) :
    r ∈ (task.step o answer).receipts ↔ r ∈ task.receipts ∨ Gives task answer r := by
  cases hphase : task.phase with
  | writing edge stream strategy rest results =>
    rw [gives_of_writing task hphase]
    cases answer with
    | asyncWrite result cancelled =>
      cases result with
      | ok paf => simp [step, hphase, (routeAndWriteMessage_same _ _ _ _).2.1]
      | error error =>
        simp only [step, hphase]
        split_ifs with hdiscard hcancelled
        · simp [(routeAndWriteMessage_same _ _ _ _).2.1, addReceipt, hdiscard]
        · simp only [(routeAndWriteMessage_same _ _ _ _).2.1]
          grind
        · grind
    | paf | write => simp [step, hphase]
  | resolving current rest offsets expected =>
    rw [gives_of_pending task (.inl hphase)]
    cases answer with
    | paf result =>
      cases result with
      | ok => simp [step, hphase, confirm, (resolveAllPafs_same _ _ _ _).2, addReceipt, Confirms]
      | error => simp [step, hphase, Confirms]
    | asyncWrite | write => simp [step, hphase, Confirms]
  | rewriting current rest offsets expected =>
    rw [gives_of_pending task (.inr hphase)]
    cases answer with
    | write result =>
      cases result with
      | ok => simp [step, hphase, confirm, (resolveAllPafs_same _ _ _ _).2, addReceipt, Confirms]
      | error =>
        simp only [step, hphase]
        split_ifs <;> simp [(resolveAllPafs_same _ _ _ _).2, Confirms, hphase]
    | asyncWrite | paf => simp [step, hphase, Confirms]
  | done =>
    obtain ⟨edge, receipt⟩ := r
    cases receipt <;> simp [step, hphase, Gives, Confirms, Discards]

end

/-- A write that is pending after an answer was pending before, or the answer accepts it. -/
theorem pending_step (o : ISBWriterOrchestrator) (task : ISBWriteTask) (answer : Answer) :
    (task.step o answer).message = task.message ∧
      ∀ p ∈ (task.step o answer).pending, p ∈ task.pending ∨ Accepts task answer p := by
  have hresolve : ∀ task' : ISBWriteTask, task'.message = task.message →
      ∀ current rest offsets offsets' expected,
      (task.phase = .resolving current rest offsets expected ∨
        task.phase = .rewriting current rest offsets expected) →
      (task'.resolveAllPafs rest offsets' expected).message = task.message ∧
        ∀ p ∈ (task'.resolveAllPafs rest offsets' expected).pending,
          p ∈ task.pending ∨ Accepts task answer p := by
    intro task' hmessage current rest offsets offsets' expected hphase
    have hpending : task.pending = current :: rest := by
      rcases hphase with hphase | hphase <;> rw [ISBWriteTask.pending, hphase]
    refine ⟨(resolveAllPafs_same ..).1.trans hmessage, fun p hp => .inl ?_⟩
    rw [pending_resolveAllPafs] at hp
    exact hpending ▸ mem_cons_of_mem _ hp
  have hreacts := reacts_step o task answer
  generalize task.step o answer = task' at hreacts
  cases hreacts with
  | same => exact ⟨rfl, fun _ => .inl⟩
  | @written _ _ _ rest results result task' hphase hfirst =>
    obtain ⟨hmessage, -, hpending⟩ := routeAndWriteMessage_same task' o (results ++ [result]) rest
    have hold : task.pending = results.filterMap pending? := by
      rw [pending, hphase]
    refine ⟨hmessage.trans (by cases hfirst <;> rfl), fun p hp => ?_⟩
    have hmem := hpending hp
    rw [filterMap_append, ← hold] at hmem
    refine (mem_append.mp hmem).imp_right fun hmem => ?_
    cases hfirst with
    | accepted haccepts => exact mem_singleton.mp hmem ▸ haccepts
    | discarded | cancelled => cases hmem
  | lost hphase =>
    refine ⟨rfl, fun p hp => .inl ?_⟩
    rw [pending, hphase]
    exact hp
  | @confirmed current _ _ _ _ hphase =>
    exact hresolve (task.addReceipt current.edge .confirmed) rfl _ _ _ _ _ hphase
  | gaveUp hphase => exact hresolve task rfl _ _ _ _ _ (.inr hphase)

/-! ## The mark of the handle -/

section

variable (o : ISBWriterOrchestrator) {task : ISBWriteTask} {answers : List Answer}

/-- A task that is done stays as it is. -/
theorem exec_of_done (h : task.phase = .done mark) (answers : List Answer) :
    exec (step o) task answers = task := by
  induction answers with
  | nil => rfl
  | cons answer _ ih =>
    have hstep : task.step o answer = task := by
      unfold step
      rw [h]
    rw [exec, hstep]
    exact ih

variable (message : TaggedMessage)

theorem message_execute : (execute o message).message = message := by
  unfold execute
  split_ifs
  · rfl
  · rfl
  · exact (routeAndWriteMessage_same ..).1

/-- A task starts without receipts. -/
theorem receipts_execute : (execute o message).receipts = [] := by
  unfold execute
  split_ifs
  · rfl
  · rfl
  · exact (routeAndWriteMessage_same ..).2.1

theorem sound_execute (hdropped : message.dropped = false) (hnacked : message.nacked = false) :
    Sound o (execute o message) := by
  have hstart : execute o message =
      routeAndWriteMessage { message, phase := .done .dropped } o [] o.config.zipIdx := by
    simp [execute, hdropped, hnacked]
  have hwanted : o.wanted message = [] ++ o.config.zipIdx.filter (forwards message) := rfl
  rw [hstart]
  exact Sound.route hwanted ⟨.nil, by simp [Receipted]⟩

/-- The message of a task never changes. -/
theorem message_exec (answers : List Answer) :
    (exec (step o) (execute o message) answers).message = message :=
  exec_invariant_all (I := fun task : ISBWriteTask => task.message = message)
    (fun task answer h => (pending_step o task answer).1.trans h) (message_execute o message)

/-- A message with the drop tag or the nack tag is not routed. -/
theorem phase_exec_of_tag (answers : List Answer) (h : message.dropped = true ∨ message.nacked = true) :
    (exec (step o) (execute o message) answers).phase =
      .done (if message.dropped then .success else .failed "message nacked" message.nackOptions) := by
  have hstart : (execute o message).phase =
      .done (if message.dropped then .success else .failed "message nacked" message.nackOptions) := by
    unfold execute
    by_cases hdropped : message.dropped = true
    · simp [hdropped, finish]
    · have hnacked := h.resolve_left hdropped
      simp [hdropped, hnacked, finish]
  rw [exec_of_done o hstart]
  exact hstart

/-- The receipts tell the mark of a message that is routed. -/
theorem success_iff_took (hdropped : message.dropped = false) (hnacked : message.nacked = false)
    (hdone : (exec (step o) (execute o message) answers).phase =
      .done mark) : mark = .success ↔ ∀ edge ∈ o.wanted message,
      Took (exec (step o) (execute o message) answers).receipts edge := by
  have hsound : Sound o (exec (step o) (execute o message) answers) :=
    exec_invariant_all (I := Sound o) (fun task answer h => Sound.step h answer)
      (sound_execute o message hdropped hnacked)
  have hmessage := message_exec o message answers
  unfold Sound at hsound
  rw [hdone, hmessage] at hsound
  exact hsound

/-- When the task of a message is done, its handle is marked as successful exactly when the
message carries the drop tag, or it carries no nack tag and every edge whose condition it
meets confirmed it or discarded it from a full buffer; otherwise the message is nacked,
whatever becomes of the other references to the handle.  The receipts are those that the
answers have given.  Every answer before the end is a retry or brings the task closer to it. -/
theorem markedSuccess_iff (answers : List Answer) :
    let task := exec (step o) (execute o message) answers
    (∀ answer, task.step o answer = task ∨ (task.step o answer).work < task.work) ∧
      (task.work = 0 ↔ ∃ mark, task.phase = .done mark) ∧
      (∀ r, r ∈ task.receipts ↔ ∃ before answer after, answers = before ++ answer :: after ∧
        Gives (exec (step o) (execute o message) before) answer r) ∧
      ∀ mark, task.phase = .done mark →
        (mark = .success ↔ message.dropped = true ∨ message.nacked = false ∧
          ∀ (edge : Nat) (vertex : ToVertexConfig), o.config[edge]? = some vertex →
            shouldForward message.tags vertex.conditions = true →
              Took task.receipts (vertex, edge)) ∧
        (mark ≠ .success →
          ∀ before after, ∃ options, settle (before ++ mark :: after) = .nak options) := by
  refine ⟨fun answer => work_step o _ answer, work_eq_zero_iff _, fun r => ?_,
    fun mark hdone => ⟨?_, ?_⟩⟩
  · rw [exec_iff_exists (P := fun task : ISBWriteTask => r ∈ task.receipts)
      (fun task answer => mem_receipts_step task o answer r), receipts_execute]
    simp
  · by_cases htag : message.dropped = true ∨ message.nacked = true
    · have hphase := hdone.symm.trans (phase_exec_of_tag o message answers htag)
      rw [Phase.done.injEq] at hphase
      rw [hphase]
      by_cases hdropped : message.dropped = true
      · simp [hdropped]
      · have hnacked := htag.resolve_left hdropped
        simp [hdropped, hnacked]
    · rw [not_or, Bool.not_eq_true, Bool.not_eq_true] at htag
      rw [success_iff_took o message htag.1 htag.2 hdone]
      simp only [htag.1, htag.2, Prod.forall, mem_wanted, and_imp, Bool.false_eq_true, false_or,
        true_and]
      exact forall_comm
  · exact fun hmark before after => settle_nak (by simp) hmark

end

/-- Two vertices with one stream each; the buffer of the second one may discard. -/
def twoEdges : ISBWriterOrchestrator where
  config := [{ partitions := 1, streams := [⟨"a-0", "a", 0⟩] },
    { partitions := 1, streams := [⟨"b-0", "b", 0⟩], bufferFullStrategy := .discardLatest }]
  writers := ["a-0", "b-0"]
  hash := String.length

/-- The first edge loses its confirmation and takes the repeated write, the buffer of the
second edge is full. -/
theorem markedSuccess_iff_twoEdges :
    let message : TaggedMessage := { eventTime := 0, id := ⟨"in", "1-0", 0⟩ }
    let answers := [Answer.asyncWrite (.error .bufferFull) false, .asyncWrite (.ok none) false,
      .asyncWrite (.error .bufferFull) false, .paf (.error (.writeFailed "timed out")),
      .write (.ok ⟨.int 7 0, false⟩) false]
    let task := exec (step twoEdges) (execute twoEdges message) answers
    task.phase = .done .success ∧
      (Mark.success = .success ↔ message.dropped = true ∨ message.nacked = false ∧
        ∀ (edge : Nat) (vertex : ToVertexConfig), twoEdges.config[edge]? = some vertex →
          shouldForward message.tags vertex.conditions = true →
            Took task.receipts (vertex, edge)) :=
  ⟨by decide, ((markedSuccess_iff twoEdges _ _).2.2.2 _ (by decide)).1⟩

end Numaflow.Isb
