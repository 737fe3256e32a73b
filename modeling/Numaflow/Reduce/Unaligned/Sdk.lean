import Numaflow.Reduce.Unaligned.Session

/-!
# The SDK's view of session windows

The SDK knows session windows only through the operations it receives.  This
file interprets the operations on a collection of sessions, each a window with
the messages it holds, and states what a sound view is: every session is one
cluster of overlapping messages, the sessions hold every assigned message once,
and a closed session ends before every later session of its key starts.

The predicate is stated for a function `view` of the key vector, which says
how precisely the keys of the messages of a session agree.

Main results: `Sound.replace`, `Sound.close`, `Sound.merge`.
-/

namespace Numaflow.Unaligned

open Lib List

/-- A window with the messages that it holds. -/
structure Session where
  window : Window
  contents : List Message
deriving DecidableEq, Repr

/-- The sessions that are open and the sessions that were closed. -/
structure Sdk where
  opened : List Session
  closed : List Session
deriving DecidableEq, Repr

namespace Sdk

/-- An SDK that has received nothing. -/
def init : Sdk := ⟨[], []⟩

/-- Perform one window operation. -/
def apply (d : Sdk) : UnalignedWindowOperation → Sdk
  | .openOp message window => { d with opened := ⟨window, [message]⟩ :: d.opened }
  | .appendOp message window =>
    { d with opened := d.opened.map fun s =>
        if s.window = window then ⟨window, s.contents ++ [message]⟩ else s }
  | .expandOp message [old, expanded] =>
    { d with opened := d.opened.map fun s =>
        if s.window = old then ⟨expanded, s.contents ++ [message]⟩ else s }
  | .expandOp _ _ => d
  | .mergeOp windows =>
    { d with opened :=
        ⟨hull windows,
          (d.opened.filter fun s => decide (s.window ∈ windows)).flatMap Session.contents⟩ ::
        d.opened.filter fun s => decide (s.window ∉ windows) }
  | .closeOp window =>
    { opened := d.opened.filter fun s => decide (s.window ≠ window)
      closed := d.closed ++ d.opened.filter fun s => decide (s.window = window) }

/-- Perform the operation of a window message. -/
def receive (d : Sdk) (msg : UnalignedWindowMessage) : Sdk :=
  d.apply msg.operation

end Sdk

/-- Left end of the interval of a message: its event time in milliseconds. -/
def sessionStart (msg : Message) : Int :=
  fromTimestampMillis (timestampMillis msg.eventTime)

/-- Right end of the interval of a message. -/
def sessionEnd (timeout : Nat) (msg : Message) : Int :=
  fromTimestampMillis (timestampMillis msg.eventTime + asMillis timeout)

variable {timeout : Nat}

/-- A timeout of at least one millisecond makes every interval nonempty. -/
theorem sessionStart_lt_sessionEnd (ht : 1000000 ≤ timeout) (msg : Message) :
    sessionStart msg < sessionEnd timeout msg := by
  unfold sessionStart sessionEnd fromTimestampMillis asMillis
  omega

section

variable (timeout : Nat) (msg : Message)

@[simp]
theorem newWindow_startTime :
    (SessionWindowManager.newWindow timeout msg).startTime = sessionStart msg :=
  rfl

@[simp]
theorem newWindow_endTime :
    (SessionWindowManager.newWindow timeout msg).endTime = sessionEnd timeout msg :=
  rfl

@[simp]
theorem newWindow_keys :
    (SessionWindowManager.newWindow timeout msg).keys = msg.keys :=
  rfl

end

/-- Two windows are tracked under the same combined key. -/
def Window.SameKey (v w : Window) : Prop :=
  combineKeys v.keys = combineKeys w.keys

/-- The session holds one cluster of overlapping messages and spans it. -/
def Session.Clustered (timeout : Nat) (s : Session) : Prop :=
  IsCluster sessionStart (sessionEnd timeout) s.window.startTime s.window.endTime s.contents

/-- The end of a session is the end of the interval of one of its messages. -/
theorem Session.Clustered.exists_end (ht : 1000000 ≤ timeout) {s : Session}
    (h : s.Clustered timeout) : ∃ msg ∈ s.contents, s.window.endTime = sessionEnd timeout msg := by
  have hlt := h.lt fun m _ => sessionStart_lt_sessionEnd ht m
  have hlast : s.window.startTime ≤ s.window.endTime - 1 ∧
      s.window.endTime - 1 < s.window.endTime := by
    omega
  rcases (h.cover (s.window.endTime - 1)).mp hlast with ⟨msg, hmsg, -, hend⟩
  have hle := h.le_end hmsg (sessionStart_lt_sessionEnd ht _)
  exact ⟨msg, hmsg, by omega⟩

open Session

namespace Sdk

variable {δ : Type} (timeout : Nat) (view : List String → δ)

/-- The sessions divide the assigned messages into clusters.  A closed session ends
before the sessions of its key start that were closed later or are still open. -/
structure Sound (assigned : List Message) (d : Sdk) : Prop where
  cluster : ∀ s ∈ d.opened ++ d.closed, s.Clustered timeout
  keys : ∀ s ∈ d.opened ++ d.closed, ∀ msg ∈ s.contents, view msg.keys = view s.window.keys
  exhaust : ((d.opened ++ d.closed).flatMap Session.contents).Perm assigned
  nodup : (d.opened.map Session.window).Nodup
  uniform : ∀ s ∈ d.opened, ∀ s' ∈ d.opened, s.window.SameKey s'.window →
    view s.window.keys = view s'.window.keys
  apart : d.closed.Pairwise fun c c' => c.window.SameKey c'.window →
    c.window.endTime ≤ c'.window.startTime
  apartOpen : ∀ c ∈ d.closed, ∀ s ∈ d.opened, c.window.SameKey s.window →
    c.window.endTime ≤ s.window.startTime

theorem sound_init : init.Sound timeout view [] where
  cluster := by simp [init]
  keys := by simp [init]
  exhaust := by simp [init]
  nodup := by simp [init]
  uniform := by simp [init]
  apart := by simp [init]
  apartOpen := by simp [init]

variable {timeout view} {assigned : List Message} {d : Sdk} {s : Session}
  (h : d.Sound timeout view assigned)

include h

variable {extra : List Message} {w : Window} {group : List Window}

/-- Replace the open sessions `hits` by one session that holds their
messages and the messages `extra`. -/
theorem Sound.replace {opened hits rest : List Session}
    (hsplit : d.opened.Perm (hits ++ rest)) (hopened : opened.Perm (s :: rest))
    (hcluster : s.Clustered timeout) (hcontents : s.contents.Perm (hits.flatMap contents ++ extra))
    (hkeys : ∀ msg ∈ s.contents, view msg.keys = view s.window.keys)
    (hfresh : s.window ∉ rest.map window) (huniform : ∀ r ∈ rest, s.window.SameKey r.window →
      view s.window.keys = view r.window.keys) (hapart : ∀ c ∈ d.closed, c.window.SameKey s.window →
      c.window.endTime ≤ s.window.startTime) :
    Sound timeout view (assigned ++ extra) ⟨opened, d.closed⟩ := by
  have hrest : ∀ r ∈ rest, r ∈ d.opened := by
    intro r hr
    exact hsplit.symm.subset (mem_append_right hits hr)
  have hmem : ∀ t ∈ opened, t = s ∨ t ∈ rest := by
    intro t ht
    simpa using hopened.subset ht
  have hall : ∀ t ∈ opened ++ d.closed, t = s ∨ t ∈ d.opened ++ d.closed := by
    intro t ht
    rcases mem_append.mp ht with ht | ht
    · exact (hmem t ht).imp_right fun hr => mem_append_left _ (hrest t hr)
    · exact .inr (mem_append_right _ ht)
  refine ⟨?_, ?_, ?_, ?_, ?_, h.apart, ?_⟩
  · intro t ht
    rcases hall t ht with rfl | ht
    · exact hcluster
    · exact h.cluster t ht
  · intro t ht
    rcases hall t ht with rfl | ht
    · exact hkeys
    · exact h.keys t ht
  · have hnew : ((opened ++ d.closed).flatMap contents).Perm
        (s.contents ++ (rest ++ d.closed).flatMap contents) := by
      have := (hopened.append_right d.closed).flatMap_right contents
      simpa using this
    have hold : ((d.opened ++ d.closed).flatMap contents).Perm
        (hits.flatMap contents ++ (rest ++ d.closed).flatMap contents) := by
      have := (hsplit.append_right d.closed).flatMap_right contents
      simpa using this
    calc ((opened ++ d.closed).flatMap contents).Perm
          (s.contents ++ (rest ++ d.closed).flatMap contents) := hnew
      List.Perm _ (hits.flatMap contents ++ extra ++
          (rest ++ d.closed).flatMap contents) := hcontents.append_right _
      List.Perm _ (hits.flatMap contents ++ (rest ++ d.closed).flatMap contents ++ extra) := by
        rw [append_assoc, append_assoc]
        exact perm_append_comm.append_left _
      List.Perm _ _ := (hold.symm.trans h.exhaust).append_right extra
  · have hnodup : (rest.map window).Nodup := by
      have := (hsplit.map window).nodup_iff.mp h.nodup
      rw [map_append] at this
      exact this.of_append_right
    rw [(hopened.map window).nodup_iff, map_cons, nodup_cons]
    exact ⟨hfresh, hnodup⟩
  · intro t ht t' ht' hsame
    rcases hmem t ht with rfl | hr
    · rcases hmem t' ht' with rfl | hr'
      · rfl
      · exact huniform t' hr' hsame
    · rcases hmem t' ht' with rfl | hr'
      · exact (huniform t hr hsame.symm).symm
      · exact h.uniform t (hrest t hr) t' (hrest t' hr') hsame
  · intro c hc t ht hsame
    rcases hmem t ht with rfl | hr
    · exact hapart c hc hsame
    · exact h.apartOpen c hc t (hrest t hr) hsame

/-- Close an open session that ends before the other open sessions of its key start. -/
theorem Sound.close {opened : List Session}
    (hsplit : d.opened.Perm (s :: opened)) (hapart : ∀ r ∈ opened, s.window.SameKey r.window →
      s.window.endTime ≤ r.window.startTime) :
    Sound timeout view assigned ⟨opened, d.closed ++ [s]⟩ := by
  have hs := hsplit.symm.subset mem_cons_self
  have hopened : ∀ r ∈ opened, r ∈ d.opened := by
    intro r hr
    exact hsplit.symm.subset (mem_cons_of_mem s hr)
  have hall : ∀ t ∈ opened ++ (d.closed ++ [s]), t ∈ d.opened ++ d.closed := by
    intro t ht
    simp only [mem_append, mem_singleton] at ht ⊢
    rcases ht with ht | ht | rfl
    · exact .inl (hopened t ht)
    · exact .inr ht
    · exact .inl hs
  refine ⟨?_, ?_, ?_, ?_, ?_, ?_, ?_⟩
  · exact fun t ht => h.cluster t (hall t ht)
  · exact fun t ht => h.keys t (hall t ht)
  · refine List.Perm.trans ?_ h.exhaust
    apply List.Perm.flatMap_right
    refine List.Perm.trans ?_ (hsplit.symm.append_right d.closed)
    rw [← append_assoc]
    exact perm_append_singleton s (opened ++ d.closed)
  · have := (hsplit.map window).nodup_iff.mp h.nodup
    rw [map_cons, nodup_cons] at this
    exact this.2
  · exact fun t ht t' ht' => h.uniform t (hopened t ht) t' (hopened t' ht')
  · rw [pairwise_append]
    refine ⟨h.apart, pairwise_singleton _ s, ?_⟩
    intro c hc t ht hsame
    rw [mem_singleton] at ht
    subst ht
    exact h.apartOpen c hc t hs hsame
  · exact forall_mem_concat.mpr ⟨fun c hc t ht => h.apartOpen c hc t (hopened t ht), hapart⟩

/-! ## The effect of the single operations -/

/-- A window is open in the SDK. -/
def Opened (d : Sdk) (w : Window) : Prop :=
  w ∈ d.opened.map Session.window

/-- The sessions other than the one with a given window. -/
def others (d : Sdk) (w : Window) : List Session :=
  d.opened.filter fun s => decide (s.window ≠ w)

omit h in
theorem mem_others : s ∈ d.others w ↔ s ∈ d.opened ∧ s.window ≠ w := by
  simp [others]

omit h in
/-- With distinct windows, an update by window changes exactly one session. -/
theorem exists_unique_session (hnodup : (d.opened.map window).Nodup) (hw : d.Opened w) :
    ∃ s, s.window = w ∧ d.opened.Perm (s :: d.others w) ∧
      (d.opened.filter fun t => decide (t.window = w)) = [s] ∧
      ∀ f : Session → Session,
        (d.opened.map fun t => if t.window = w then f t else t).Perm (f s :: d.others w) := by
  rcases mem_map.mp hw with ⟨s, hs, rfl⟩
  have hfilter : (d.opened.filter fun t => decide (t.window = s.window)) = [s] := by
    have hsame : ∀ t ∈ d.opened, decide (t.window = s.window) = decide (t = s) := fun t ht =>
      decide_eq_decide.mpr ⟨inj_on_of_nodup_map hnodup ht hs, congrArg window⟩
    rw [filter_congr hsame, filter_eq, count_eq_one_of_mem hnodup.of_map hs]
    rfl
  have hsplit : d.opened.Perm (s :: d.others s.window) := by
    have := filter_append_perm (fun t : Session => decide (t.window = s.window)) d.opened
    rw [hfilter] at this
    simpa [others] using this.symm
  refine ⟨s, rfl, hsplit, hfilter, fun f => (hsplit.map _).trans (.of_eq ?_)⟩
  have hothers : (d.others s.window).map (fun t => if t.window = s.window then f t else t) =
      (d.others s.window).map id :=
    map_congr_left fun t ht => if_neg (mem_others.mp ht).2
  rw [map_cons, if_pos rfl, hothers, map_id]

/-- The messages held under a window. -/
def held (d : Sdk) (w : Window) : List Message :=
  (d.opened.filter fun s => decide (s.window = w)).flatMap Session.contents

section Chains

variable (ht : 1000000 ≤ timeout)
include ht

variable {cs : List Message} {ws : List Window} {messages : Window → List Message} {acc : Window}

omit h in
/-- The messages of a chain of overlapping windows form one cluster. -/
theorem cluster_of_chain
    (hacc : IsCluster sessionStart (sessionEnd timeout) acc.startTime acc.endTime cs)
    (hws : ∀ w ∈ ws, IsCluster sessionStart (sessionEnd timeout) w.startTime w.endTime
      (messages w)) (hchain : ChainFrom acc ws) :
    IsCluster sessionStart (sessionEnd timeout) (ws.foldl Window.span acc).startTime
      (ws.foldl Window.span acc).endTime (cs ++ ws.flatMap messages) := by
  induction ws generalizing acc cs with
  | nil => simpa using hacc
  | cons w _ ih =>
    have hw := hws w mem_cons_self
    have hmerge := hacc.merge hw (fun m _ => sessionStart_lt_sessionEnd ht m)
        (fun m _ => sessionStart_lt_sessionEnd ht m) hchain.1
    have hrest := ih hmerge (fun v hv => hws v (mem_cons_of_mem w hv)) hchain.2
    simpa [append_assoc] using hrest

/-- Merging a chain of open windows yields one cluster. -/
theorem Sound.cluster_merge (hopen : ∀ w ∈ group, d.Opened w)
    (hchain : Chained group) : (Session.mk (hull group)
      ((d.opened.filter fun s => decide (s.window ∈ group)).flatMap Session.contents)).Clustered
        timeout := by
  have hheld : ∀ w ∈ group,
      IsCluster sessionStart (sessionEnd timeout) w.startTime w.endTime (d.held w) := by
    intro w hw
    rcases exists_unique_session h.nodup (hopen w hw) with ⟨s, rfl, hperm, hfilter, -⟩
    have hs := hperm.symm.subset mem_cons_self
    have hcluster := h.cluster s (mem_append_left _ hs)
    rw [held, hfilter]
    simpa [Session.Clustered] using hcluster
  cases group with
  | nil => exact absurd hchain id
  | cons first rest =>
    have hall := cluster_of_chain ht (hheld first mem_cons_self)
      (fun w hw => hheld w (mem_cons_of_mem first hw)) hchain
    have hmem : ∀ msg, msg ∈ d.held first ++ rest.flatMap d.held ↔
        msg ∈ (d.opened.filter fun s => decide (s.window ∈ first :: rest)).flatMap
          Session.contents := by
      intro msg
      simp only [held, mem_append, mem_flatMap, mem_filter, decide_eq_true_eq, mem_cons]
      constructor
      · intro hmsg
        rcases hmsg with ⟨s, ⟨hs, hw⟩, hc⟩ | ⟨w, hw, s, ⟨hs, hws⟩, hc⟩
        · exact ⟨s, ⟨hs, .inl hw⟩, hc⟩
        · exact ⟨s, ⟨hs, .inr (hws ▸ hw)⟩, hc⟩
      · intro hmsg
        rcases hmsg with ⟨s, ⟨hs, hw | hw⟩, hc⟩
        · exact .inl ⟨s, ⟨hs, hw⟩, hc⟩
        · exact .inr ⟨s.window, hw, s, ⟨hs, rfl⟩, hc⟩
    refine IsCluster.congr hall ?_ hmem
    intro hnil
    have hempty := hall.nonempty
    rcases exists_mem_of_ne_nil _ hempty with ⟨msg, hmsg⟩
    rw [hmem msg] at hmsg
    simp only [] at hnil
    rw [hnil] at hmsg
    exact absurd hmsg not_mem_nil

/-- Merging a chain of open windows of one key keeps the view sound. -/
theorem Sound.merge (hopen : ∀ w ∈ group, d.Opened w)
    (hchain : Chained group) (hkey : ∀ w ∈ group, w.SameKey (hull group))
    (hfresh : ∀ w, d.Opened w → w ∉ group → w ≠ hull group) :
    Sound timeout view assigned (d.apply (.mergeOp group)) := by
  have hview : ∀ s ∈ d.opened, s.window.SameKey (hull group) →
      view s.window.keys = view (hull group).keys := by
    intro s hs hsame
    rcases exists_hull_keys hchain.ne_nil with ⟨v, hv, hkeys⟩
    rcases mem_map.mp (hopen v hv) with ⟨t, ht, rfl⟩
    rw [hkeys]
    exact h.uniform s hs t ht (hsame.trans (hkey _ hv).symm)
  have hsplit : d.opened.Perm ((d.opened.filter fun s => decide (s.window ∈ group)) ++
        d.opened.filter fun s => decide (s.window ∉ group)) := by
    have := filter_append_perm (fun s : Session => decide (s.window ∈ group)) d.opened
    simpa using this.symm
  have hreplace := h.replace hsplit (.refl _) (h.cluster_merge ht hopen hchain)
    (.of_eq (append_nil _).symm) ?_ ?_ ?_ ?_
  · rw [append_nil] at hreplace
    exact hreplace
  · intro msg hmsg
    rcases mem_flatMap.mp hmsg with ⟨s, hs, hmem⟩
    rcases mem_filter.mp hs with ⟨hs, hgroup⟩
    rw [h.keys s (mem_append_left _ hs) msg hmem]
    exact hview s hs (hkey _ (of_decide_eq_true hgroup))
  · intro hmem
    rcases mem_map.mp hmem with ⟨s, hs, heq⟩
    rcases mem_filter.mp hs with ⟨hs, hgroup⟩
    exact hfresh s.window (mem_map_of_mem hs) (of_decide_eq_true hgroup) heq
  · intro r hr hsame
    exact (hview r (mem_filter.mp hr).1 hsame.symm).symm
  · intro c hc hsame
    apply le_hull_startTime hchain.ne_nil
    intro w hw
    rcases mem_map.mp (hopen w hw) with ⟨t, ht, rfl⟩
    exact h.apartOpen c hc t ht (hsame.trans (hkey _ hw).symm)

end Chains

omit h in
/-- The open windows after a merge. -/
theorem opened_merge :
    (d.apply (.mergeOp group)).Opened w ↔ w = hull group ∨ (d.Opened w ∧ w ∉ group) := by
  simp only [apply, Opened, map_cons, mem_cons, mem_map, mem_filter, decide_eq_true_eq]
  constructor
  · intro hw
    rcases hw with hw | ⟨s, ⟨hs, hgroup⟩, rfl⟩
    · exact .inl hw
    · exact .inr ⟨⟨s, hs, rfl⟩, hgroup⟩
  · intro hw
    rcases hw with hw | ⟨⟨s, hs, rfl⟩, hgroup⟩
    · exact .inl hw
    · exact .inr ⟨s, ⟨hs, hgroup⟩, rfl⟩

end Sdk
end Numaflow.Unaligned
