import Numaflow.Reduce.Unaligned.Vertex

/-!
# Collected messages are not replayed

The data log stores a message under the keys it arrived with, and a GC event carries
the keys of the window.  The managers file windows under the combined key of their
messages, so the two agree on a keyed vertex.  On a vertex without keys the reducer
gives every message the default key before it is assigned, and the GC event names
that key, which the stored message does not have.

Main results: `Sdk.KeysAgree.apply`, `Agrees.effect`, `collected_not_retained`.
-/

namespace Numaflow.Unaligned

open Lib Wal UnalignedWindowManager UnalignedWindowOperation List

/-! ## Operations about one key -/

/-- The windows and the message of an operation belong to a combined key. -/
def UnalignedWindowOperation.KeyIs (key : String) : UnalignedWindowOperation → Prop
  | .openOp msg window => combineKeys msg.keys = key ∧ combineKeys window.keys = key
  | .closeOp window => combineKeys window.keys = key
  | .appendOp msg window => combineKeys msg.keys = key ∧ combineKeys window.keys = key
  | .mergeOp windows => ∀ w ∈ windows, combineKeys w.keys = key
  | .expandOp msg windows =>
    combineKeys msg.keys = key ∧ ∀ w ∈ windows, combineKeys w.keys = key

variable {msg : Message} {d : Sdk} {key : String}

namespace Sdk

/-- The messages of a session belong to the combined key of its window. -/
def KeysAgree (d : Sdk) : Prop :=
  ∀ s ∈ d.opened ++ d.closed, ∀ msg ∈ s.contents,
    combineKeys msg.keys = combineKeys s.window.keys

theorem keysAgree_init : init.KeysAgree := by
  simp [KeysAgree, init]

/-- Replacing open sessions by sessions with agreeing keys. -/
theorem KeysAgree.replace (h : d.KeysAgree) {opened : List Session}
    (hopened : ∀ s ∈ opened, s ∈ d.opened ∨
      ∀ msg ∈ s.contents, combineKeys msg.keys = combineKeys s.window.keys) :
    KeysAgree ⟨opened, d.closed⟩ := by
  intro s hs
  rcases mem_append.mp hs with hs | hs
  · rcases hopened s hs with hs | hs
    · exact h s (mem_append_left _ hs)
    · exact hs
  · exact h s (mem_append_right _ hs)

variable {old new : Window} {op : UnalignedWindowOperation}

/-- A session that takes a new window of its key and one more message of the key. -/
theorem KeysAgree.update (h : d.KeysAgree) (hmsg : combineKeys msg.keys = key)
    (hold : combineKeys old.keys = key) (hnew : combineKeys new.keys = key) :
    KeysAgree { d with opened := d.opened.map fun s =>
      if s.window = old then ⟨new, s.contents ++ [msg]⟩ else s } := by
  apply h.replace
  intro s hs
  rcases mem_map.mp hs with ⟨t, ht, rfl⟩
  split_ifs with hwindow
  · refine .inr (forall_mem_concat.mpr ⟨fun n hn => ?_, hmsg.trans hnew.symm⟩)
    rw [h t (mem_append_left _ ht) n hn, hwindow, hold, hnew]
  · exact .inl ht

/-- An operation about one combined key keeps the keys of sessions in agreement. -/
theorem KeysAgree.apply (h : d.KeysAgree) (hop : op.KeyIs key) : (d.apply op).KeysAgree := by
  cases op with
  | openOp =>
    apply h.replace
    intro s hs
    rcases mem_cons.mp hs with rfl | hs
    · refine .inr ?_
      intro n hn
      rw [mem_singleton] at hn
      rw [hn, hop.1, hop.2]
    · exact .inl hs
  | closeOp =>
    intro s hs
    have hmem : s ∈ d.opened ++ d.closed := by
      simp only [Sdk.apply, mem_append, mem_filter] at hs ⊢
      rcases hs with hs | hs | hs
      · exact .inl hs.1
      · exact .inr hs
      · exact .inl hs.1
    exact h s hmem
  | appendOp => exact h.update hop.1 hop.2 hop.2
  | mergeOp =>
    apply h.replace
    intro s hs
    rcases mem_cons.mp hs with rfl | hs
    · refine .inr ?_
      intro n hn
      rcases mem_flatMap.mp hn with ⟨t, ht, hn⟩
      rcases mem_filter.mp ht with ⟨ht, hwindow⟩
      have hwindow := of_decide_eq_true hwindow
      rcases exists_hull_keys (ne_nil_of_mem hwindow) with ⟨w, hw, hkeys⟩
      rw [h t (mem_append_left _ ht) n hn, hop _ hwindow, hkeys, hop w hw]
    · exact .inl (mem_filter.mp hs).1
  | expandOp _ windows =>
    rcases windows with _ | ⟨old, _ | ⟨expanded, _ | _⟩⟩
    · exact h
    · exact h
    · exact h.update hop.1 (hop.2 old (by simp)) (hop.2 expanded (by simp))
    · exact h

end Sdk

/-! ## Windows are filed under their key -/

namespace SessionWindowManager

/-- Every active window is filed under its combined key. -/
def Filed (m : SessionWindowManager) : Prop :=
  ∀ key, ∀ w ∈ activeOf m.activeWindows key, combineKeys w.keys = key

namespace Filed

variable {m : SessionWindowManager}

theorem new (timeout : Nat) : (new timeout).Filed := by
  simp [Filed, SessionWindowManager.new, activeOf]

/-- Assigning a message is about the combined key of the message. -/
theorem assign (h : m.Filed) (hd : d.KeysAgree) (msg : Message) :
    (m.assignWindows msg).1.Filed ∧
      ((m.assignWindows msg).2.foldl Sdk.receive d).KeysAgree := by
  rcases assignWindows_cases m msg rfl rfl rfl with
    ⟨existing, hfind, -, heq⟩ | ⟨existing, hfind, -, heq⟩ | ⟨-, heq⟩
  · have hexisting := h _ existing (findWindowToMerge_some hfind).1
    have hop : (appendOp msg existing).KeyIs (combineKeys msg.keys) :=
      ⟨rfl, hexisting⟩
    rw [heq]
    exact ⟨forall_active_setActive h (h _), hd.apply hop⟩
  · have hexisting := h _ existing (findWindowToMerge_some hfind).1
    have hop : (expandOp msg
        [existing, (newWindow m.timeout msg).span existing]).KeyIs (combineKeys msg.keys) := by
      simpa [KeyIs] using hexisting
    rw [heq]
    exact ⟨forall_active_exchange h rfl, hd.apply hop⟩
  · have hop : (openOp msg (newWindow m.timeout msg)).KeyIs
        (combineKeys msg.keys) := ⟨rfl, rfl⟩
    rw [heq]
    refine ⟨forall_active_setActive h ?_, hd.apply hop⟩
    intro w hw
    rcases OrdSet.mem_insert.mp hw with hw | ⟨rfl, -⟩
    · exact h _ w hw
    · rfl

/-- Closing windows merges and closes windows of one combined key at a time. -/
theorem close (h : m.Filed) (hd : d.KeysAgree) (order : List String) (watermark : Int) :
    (m.closeWindows order watermark).1.Filed ∧
      ((m.closeWindows order watermark).2.foldl Sdk.receive d).KeysAgree := by
  have hgroup : ∀ key group, m.Expiring watermark key group →
      ∀ w ∈ group, combineKeys w.keys = key := by
    intro key group hexpiring w hw
    exact h key w (hexpiring.2 w hw).1
  refine closeWindows_simulates (R := fun m' (d : Sdk) => m'.Filed ∧ d.KeysAgree) order watermark
    ?_ ?_ ?_
  · intro m' d key group hexpiring hR
    have hop := hgroup key group hexpiring
    exact ⟨hR.1, hR.2.apply hop⟩
  · intro m' d key group hexpiring hR
    have hhull : combineKeys (hull group).keys = key := by
      rcases exists_hull_keys hexpiring.1 with ⟨w, hw, hkeys⟩
      rw [hkeys]
      exact hgroup key group hexpiring w hw
    rcases closeMergedWindow_cases m' key (hull group) with ⟨-, heq⟩ | ⟨active, hmem, -, heq⟩
    · have hop := hhull
      rw [heq]
      exact ⟨hR.1, hR.2.apply hop⟩
    · have hop : (mergeOp [hull group, active]).KeyIs key := by
        simpa [KeyIs] using ⟨hhull, hR.1 key active hmem⟩
      rw [heq]
      exact ⟨forall_active_exchange hR.1 hhull, hR.2.apply hop⟩
  · refine ⟨?_, hd⟩
    intro key w hw
    exact h key w (mem_activeOf_extract.mp hw).1

end Filed

end SessionWindowManager

namespace AccumulatorWindowManager

/-- Every window is filed under its combined key. -/
def Filed (windows : HashMap String WindowState) : Prop :=
  ∀ key state, windows.lookup key = some state → combineKeys state.window.keys = key

namespace Filed

variable {windows : HashMap String WindowState} {m : AccumulatorWindowManager} {state : WindowState}

/-- Storing a window under its combined key. -/
theorem insert (h : Filed windows) (hstate : combineKeys state.window.keys = key) :
    Filed (windows.insert key state) := by
  intro key' state' hlook
  by_cases hkey : key' = key
  · subst hkey
    rw [AList.lookup_insert, Option.some.injEq] at hlook
    rw [← hlook]
    exact hstate
  · rw [AList.lookup_insert_ne hkey] at hlook
    exact h key' state' hlook

variable (h : Filed m.activeWindows)

include h

/-- Assigning a message is about the combined key of the message. -/
theorem assign (msg : Message) : Filed (m.assignWindows msg).1.activeWindows ∧
      ∀ x ∈ (m.assignWindows msg).2, x.operation.KeyIs (combineKeys msg.keys) := by
  unfold assignWindows
  cases hlook : m.activeWindows.lookup (combineKeys msg.keys) with
  | some state =>
    have hstate := h _ state hlook
    simp only [hlook]
    refine ⟨h.insert hstate, ?_⟩
    simpa [KeyIs] using h _ state hlook
  | none =>
    simp only [hlook]
    refine ⟨h.insert rfl, ?_⟩
    simp [KeyIs]

/-- Closing windows takes active windows away. -/
theorem close (order : List String) (watermark : Int) :
    Filed (m.closeWindows order watermark).1.activeWindows := by
  intro key state hlook
  have hactive : (m.closeWindows order watermark).1.activeWindows.lookup key =
      (m.activeWindows.lookup key).bind
        fun state => if expired m.timeout watermark state then none else some state :=
    HashMap.lookup_filterMapVal _ _ _
  rw [hactive] at hlook
  rcases Option.bind_eq_some_iff.mp hlook with ⟨state', hlook', hkeep⟩
  split_ifs at hkeep
  cases hkeep
  exact h key state hlook'

/-- Deleting timestamps keeps the windows. -/
theorem delete (window : Window) : Filed (m.deleteWindow window).activeWindows := by
  unfold deleteWindow
  cases hlook : m.activeWindows.lookup (combineKeys window.keys) with
  | some state =>
    have hstate := h _ state hlook
    simp only [hlook]
    exact h.insert hstate
  | none =>
    simp only [hlook]
    exact h

end Filed

end AccumulatorWindowManager

/-! ## Runs -/

namespace VertexRun

/-- The keys of windows agree with those of the messages assigned to them. -/
inductive Agrees (s : VertexRun) : Prop where
  | accumulator (m : AccumulatorWindowManager) (hmanager : s.manager = .accumulator m)
      (hfiled : AccumulatorWindowManager.Filed m.activeWindows)
      (hsent : ∀ x ∈ s.sent, ∃ key, x.operation.KeyIs key)
  | session (m : SessionWindowManager) (hmanager : s.manager = .session m) (hfiled : m.Filed)
      (hsdk : s.sdk.KeysAgree)

variable {s s' : VertexRun} {a : VertexAction}

namespace Agrees

theorem init (windowType : UnalignedWindowType) (allowedLateness : Nat) (keyed hasGcWal : Bool) :
    (init windowType.newManager allowedLateness keyed hasGcWal).Agrees := by
  cases windowType with
  | accumulator timeout =>
    refine .accumulator (.new timeout) rfl ?_ ?_
    · simp [AccumulatorWindowManager.Filed, AccumulatorWindowManager.new]
    · simp [VertexRun.init]
  | session timeout => exact .session (.new timeout) rfl (.new timeout) Sdk.keysAgree_init

variable (h : s.Agrees)

include h

variable {window : Window}

/-- The messages assigned to a window have its combined key. -/
theorem held (hmsg : msg ∈ s.held window) : combineKeys msg.keys = combineKeys window.keys := by
  cases h with
  | accumulator m hmanager _ hsent =>
    rw [VertexRun.held, hmanager] at hmsg
    rcases mem_flatMap.mp hmsg with ⟨x, hx, hmsg⟩
    rcases hsent x hx with ⟨key, hkey⟩
    unfold accumulated at hmsg
    unfold KeyIs at hkey
    split at hmsg
    · split_ifs at hmsg with hkeys
      · simp_all
      · simp at hmsg
    · split_ifs at hmsg with hkeys
      · simp_all
      · simp at hmsg
    · simp at hmsg
  | session m hmanager _ hsdk =>
    rw [VertexRun.held, hmanager] at hmsg
    rcases mem_flatMap.mp hmsg with ⟨c, hc, hmsg⟩
    rcases mem_filter.mp hc with ⟨hc, hwindow⟩
    rw [← of_decide_eq_true hwindow]
    exact hsdk c (mem_append_right _ hc) msg hmsg

theorem close (order : List String) (next : Option Message) :
    (s.closeWindowsByWm order next).Agrees := by
  cases h with
  | accumulator m hmanager hfiled hsent =>
    refine .accumulator (m.closeWindows order s.reducer.closeWatermark).1 ?_ ?_ ?_
    · rw [closeWindowsByWm_manager, hmanager, closeWindows_accumulator]
    · exact hfiled.close order s.reducer.closeWatermark
    · intro x hx
      rw [closeWindowsByWm_sent, hmanager] at hx
      rcases mem_append.mp hx with hx | hx
      · exact hsent x hx
      · rcases mem_map.mp hx with ⟨e, -, rfl⟩
        exact ⟨_, rfl⟩
  | session m hmanager hfiled hsdk =>
    have hclose := hfiled.close hsdk order s.reducer.closeWatermark
    refine .session (m.closeWindows order s.reducer.closeWatermark).1 ?_ hclose.1 ?_
    · rw [closeWindowsByWm_manager, hmanager, closeWindows_session]
    · rw [s.sdk_of_sent (closeWindowsByWm_sent s order next), hmanager, closeWindows_session]
      exact hclose.2

theorem assign (msg : Message) : (s.assignMessage msg).Agrees := by
  cases h with
  | accumulator m hmanager hfiled hsent =>
    have hassign := hfiled.assign msg
    refine .accumulator (m.assignWindows msg).1 ?_ hassign.1 ?_
    · rw [assignMessage_manager, hmanager, assignWindows_accumulator]
    · intro x hx
      rw [assignMessage_sent, hmanager] at hx
      rcases mem_append.mp hx with hx | hx
      · exact hsent x hx
      · exact ⟨_, hassign.2 x hx⟩
  | session m hmanager hfiled hsdk =>
    have hassign := hfiled.assign hsdk msg
    refine .session (m.assignWindows msg).1 ?_ hassign.1 ?_
    · rw [assignMessage_manager, hmanager, assignWindows_session]
    · rw [s.sdk_of_sent (assignMessage_sent s msg), hmanager, assignWindows_session]
      exact hassign.2

theorem delete (window : Window) : (s.withManager (s.manager.deleteWindow window)).Agrees := by
  cases h with
  | accumulator m hmanager hfiled hsent =>
    rw [hmanager]
    exact .accumulator (m.deleteWindow window) rfl (hfiled.delete window) hsent
  | session m hmanager hfiled hsdk =>
    rw [hmanager]
    exact .session (m.deleteWindow window) rfl hfiled hsdk

/-- Only the manager and the operations matter. -/
theorem of_eq (hmanager : s'.manager = s.manager) (hsent : s'.sent = s.sent) : s'.Agrees := by
  have hsdk : s'.sdk = s.sdk := by
    rw [sdk, sdk, hsent]
  cases h with
  | accumulator m hm hfiled hops =>
    exact .accumulator m (hmanager.trans hm) hfiled (hsent ▸ hops)
  | session m hm hfiled hkeys => exact .session m (hmanager.trans hm) hfiled (hsdk ▸ hkeys)

theorem flush (gcOrder drainOrder : List (List String)) : (s.flush gcOrder drainOrder).Agrees := by
  have hdelete : ∀ (windows : List Window) (s : VertexRun), s.Agrees →
      (s.withManager (windows.foldl deleteWindow s.manager)).Agrees := by
    intro windows
    induction windows with
    | nil => exact fun s hs => hs
    | cons w _ ih => exact fun s hs => ih _ (hs.delete w)
  exact (hdelete (s.task.drained drainOrder) s h).of_eq rfl rfl

/-- Every step keeps the keys in agreement. -/
theorem effect (heffect : Effect s a s') : s'.Agrees := by
  cases heffect with
  | none => exact h
  | read msg => exact h.of_eq (s.reducer.read_windowManager msg).1 rfl
  | close order next => exact h.close order next
  | assign msg => exact h.assign msg
  | error | response => exact h.of_eq rfl rfl
  | tick gcOrder drainOrder => exact h.flush gcOrder drainOrder

end Agrees

/-- A compaction from GC events that include the one of a collected window drops every
stored message that was assigned to the window and is older than its end. -/
def DropsCollected (s : VertexRun) : Prop :=
  ∀ msg ∈ s.wal, msg.typ = .data → ∀ window, rekey s.reducer.keyed msg ∈ s.held window →
    window.gcEvent ∈ s.gcEvents → msg.eventTime < window.endTime →
      ∀ events compaction, window.gcEvent ∈ events →
        buildUnalignedCompaction events = some compaction →
          compaction.shouldRetainMessage (isbMessage msg) = .ok false

/-- A data message that a vertex without keys reads already has the default key. -/
def KeysKept (s : VertexRun) : VertexAction → Prop
  | .read msg => msg.typ = .data → s.reducer.keyed = false →
      joinKeys msg.keys = defaultKeyForNonKeyedStream
  | _ => True

instance (s : VertexRun) : DecidablePred s.KeysKept := fun _ => by
  unfold KeysKept
  split <;> infer_instance

/-- The stored data messages have the joined key under which the reducer assigns
them. -/
def StoredKeys (s : VertexRun) : Prop :=
  ∀ msg ∈ s.wal, msg.typ = .data →
    joinKeys msg.keys = joinKeys (rekey s.reducer.keyed msg).keys

theorem StoredKeys.effect (h : s.StoredKeys) (heffect : Effect s a s') (hok : s.KeysKept a) :
    s'.StoredKeys := by
  cases heffect with
  | read msg =>
    rcases s.reducer.read_spec msg with ⟨watermark, -, hread, -⟩
    rw [readMessage, hread]
    refine forall_mem_concat.mpr ⟨h, fun hdata => ?_⟩
    cases hkeyed : s.reducer.keyed with
    | true => rfl
    | false => exact hok hdata hkeyed
  | none | close | assign | error | response
  | tick => exact h

/-- Compaction drops what is collected when the keys agree. -/
theorem Agrees.dropsCollected (h : s.Agrees) (hkeys : s.StoredKeys) :
    s.DropsCollected := by
  intro msg hmsg hdata window hheld _ hlt events compaction hevent hbuild
  apply UnalignedCompaction.shouldRetainMessage_eq_false
  intro hretain
  have hle := (buildUnalignedCompaction_retains hbuild msg).mp hretain _ hevent
    ⟨window.startTime, window.endTime, some window.keys⟩ (by simp [Window.gcEvent, GcEvent.toEntry])
  have hjoin : joinKeys window.keys = joinKeys msg.keys := by
    rw [hkeys msg hmsg hdata]
    exact (h.held hheld).symm
  rw [Option.map_some, hjoin] at hle
  exact absurd (hle rfl) (not_le.mpr hlt)

/-- In every state of a run whose stored keys are those of the reducer, compaction
drops what is collected. -/
theorem collected_not_retained {windowType : UnalignedWindowType} {allowedLateness : Nat}
    {keyed hasGcWal : Bool} {actions : List VertexAction}
    (hrun : Along KeysKept step
      (init windowType.newManager allowedLateness keyed hasGcWal) actions) :
    (exec step (init windowType.newManager allowedLateness keyed hasGcWal)
      actions).DropsCollected := by
  have hinv := exec_invariant (I := fun s : VertexRun => s.Agrees ∧ s.StoredKeys)
    (fun s a h hok => ⟨h.1.effect (s.step_effect a), h.2.effect (s.step_effect a) hok⟩)
    ⟨Agrees.init windowType allowedLateness keyed hasGcWal, nofun⟩ hrun
  exact hinv.1.dropsCollected hinv.2

/-- A session of one message is closed, ends and is collected. -/
def sessionRun (keyed : Bool) (msg : Message) (window : Window) : VertexRun :=
  exec step (init (UnalignedWindowType.session 10000000).newManager 0 keyed true)
    [.read msg, .close [], .assign,
      .read { typ := .wmb, eventTime := 0, watermark := some 50000000 }, .close [],
      .response window true, .tick [] []]

/-- An accumulator answers for its window while it is open. -/
def accumulatorRun (keyed : Bool) (msg : Message) (window : Window) : VertexRun :=
  exec step (init (UnalignedWindowType.accumulator 10000000).newManager 0 keyed true)
    [.read msg, .close [], .assign, .response window false, .tick [] []]

/-- On a keyed vertex the message of a collected window is dropped. -/
theorem keyedRuns_not_retained :
    (∃ compaction,
      buildUnalignedCompaction (sessionRun true { keys := ["a"], eventTime := 0 }
        ⟨0, 10000000, ["a"]⟩).gcEvents = some compaction ∧
      compaction.shouldRetainMessage (isbMessage { keys := ["a"], eventTime := 0 }) = .ok false) ∧
    ∃ compaction,
      buildUnalignedCompaction (accumulatorRun true { keys := ["a"], eventTime := 0 }
        ⟨0, 5000000, ["a"]⟩).gcEvents = some compaction ∧
      compaction.shouldRetainMessage (isbMessage { keys := ["a"], eventTime := 0 }) = .ok false := by
  constructor
  · have hdrops : (sessionRun true { keys := ["a"], eventTime := 0 }
        ⟨0, 10000000, ["a"]⟩).DropsCollected := collected_not_retained (by decide)
    exact ⟨_, rfl, hdrops _ (by decide) rfl ⟨0, 10000000, ["a"]⟩ (by decide) (by decide)
      (by decide) [Window.gcEvent ⟨0, 10000000, ["a"]⟩] _ (by decide) rfl⟩
  · have hdrops : (accumulatorRun true { keys := ["a"], eventTime := 0 }
        ⟨0, 5000000, ["a"]⟩).DropsCollected := collected_not_retained (by decide)
    exact ⟨_, rfl, hdrops _ (by decide) rfl ⟨0, 5000000, ["a"]⟩ (by decide) (by decide)
      (by decide) [Window.gcEvent ⟨0, 5000000, ["a"]⟩] _ (by decide) rfl⟩

/-- On a vertex without keys the message of a collected session is retained. -/
theorem nonKeyedRun_retained :
    ¬ (sessionRun false { keys := ["a"], eventTime := 0 }
      ⟨0, 10000000, [defaultKeyForNonKeyedStream]⟩).DropsCollected := by
  intro h
  have hdrop := h { keys := ["a"], eventTime := 0 } (by decide) rfl
    ⟨0, 10000000, [defaultKeyForNonKeyedStream]⟩ (by decide) (by decide) (by decide)
    [Window.gcEvent ⟨0, 10000000, [defaultKeyForNonKeyedStream]⟩] _ (by decide) rfl
  exact absurd hdrop (by decide)

end VertexRun
end Numaflow.Unaligned
