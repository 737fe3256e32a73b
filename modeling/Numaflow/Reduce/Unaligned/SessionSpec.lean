import Numaflow.Reduce.Unaligned.SessionTracking

/-!
# Session windows are connected components

A run is a sequence of calls of the session manager whose operations go to an
SDK.  Watermarks never decrease and no message is older than the last watermark,
which is what the reducer guarantees.

The windows closed for a key are the connected components of its messages, as
long as no call meets the defect of the window order: an expanded window that
ends together with another active window of its key is dropped by the set, and
is then never closed.

Main results: `tracks_exec`, `closed_sessions_are_components`.
-/

namespace Numaflow.Unaligned

open Lib SessionWindowManager

/-- A call of the session manager. -/
inductive SessionCall where
  | assign (msg : Message)
  | close (order : List String) (watermark : Int)
deriving DecidableEq, Repr

/-- The manager and the SDK that receives its operations, with the messages
assigned so far and the last watermark used. -/
structure SessionRun where
  manager : SessionWindowManager
  sdk : Sdk
  assigned : List Message
  last : Option Int

namespace SessionRun

/-- Nothing has been assigned yet. -/
def init (timeout : Nat) : SessionRun :=
  ⟨SessionWindowManager.new timeout, Sdk.init, [], none⟩

section

variable (s : SessionRun)

/-- Perform a call and send its operations to the SDK. -/
def step : SessionCall → SessionRun
  | .assign msg =>
    let result := s.manager.assignWindows msg
    { s with
      manager := result.1
      sdk := result.2.foldl Sdk.receive s.sdk
      assigned := s.assigned ++ [msg] }
  | .close order watermark =>
    let result := s.manager.closeWindows order watermark
    { s with
      manager := result.1
      sdk := result.2.foldl Sdk.receive s.sdk
      last := some watermark }

/-- Watermarks do not decrease and messages are not older than the last one. -/
def Legal : SessionCall → Prop
  | .assign msg => ∀ l ∈ s.last, l ≤ sessionStart msg
  | .close _ watermark => ∀ l ∈ s.last, l ≤ watermark

/-- No window is lost and the active windows of the combined key belong to the
key vector of the message. -/
def Clear : SessionCall → Prop
  | .assign msg =>
    ¬ EndCollision (activeOf s.manager.activeWindows (combineKeys msg.keys))
        (newWindow s.manager.timeout msg) ∧
      ∀ w ∈ (activeOf s.manager.activeWindows (combineKeys msg.keys)).toList,
        w.keys = msg.keys
  | .close _ _ => True

/-- All active windows end at or before the watermark. -/
def Covers (watermark : Int) : Prop :=
  ∀ e ∈ s.manager.activeWindows.entries, ∀ w ∈ e.2.toList, w.endTime ≤ watermark
deriving Decidable

/-- The sessions closed for a key vector are the connected components of its
messages. -/
def Componentwise : Prop :=
  ∀ keys,
    Components sessionStart (sessionEnd s.manager.timeout)
      (s.assigned.filter fun msg => decide (msg.keys = keys))
      (fun c => c.window.startTime) (fun c => c.window.endTime) Session.contents
      (s.sdk.closed.filter fun c => decide (c.window.keys = keys))

end

instance (s : SessionRun) : (c : SessionCall) → Decidable (s.Legal c) := fun _ => by
  unfold Legal
  split <;> infer_instance

instance (s : SessionRun) : (c : SessionCall) → Decidable (s.Clear c)
  | .assign _ => inferInstanceAs (Decidable (¬ EndCollision _ _ ∧ ∀ w ∈ OrdSet.toList _, _))
  | .close _ _ => inferInstanceAs (Decidable True)

end SessionRun

/-! ## Closing all windows -/

namespace SessionWindowManager

variable {watermark : Int}

/-- Closing with a watermark above every end leaves no active window. -/
theorem closeWindows_covered {m : SessionWindowManager}
    (hcover : ∀ e ∈ m.activeWindows.entries, ∀ w ∈ e.2.toList, w.endTime ≤ watermark)
    (order : List String) (key : String) (w : Window) :
    w ∉ activeOf (m.closeWindows order watermark).1.activeWindows key := by
  refine closeWindows_simulates (δ := Unit) (g := fun d _ => d)
    (R := fun m _ => ∀ key w, w ∉ activeOf m.activeWindows key) (d := ()) order watermark
    (fun _ _ _ _ _ h => h) ?_ ?_ key w
  · intro m' _ key' group _ hm'
    rcases closeMergedWindow_cases m' key' (hull group) with ⟨_, heq⟩ | ⟨active, hmem, _, _⟩
    · rw [heq]
      exact hm'
    · exact absurd hmem (hm' key' active)
  · intro key w hw
    rcases mem_activeOf_extract.mp hw with ⟨hw, hlt⟩
    unfold activeOf at hw
    cases hlook : m.activeWindows.lookup key with
    | none => simp [hlook] at hw
    | some windowSet =>
      rw [hlook] at hw
      have hle := hcover ⟨key, windowSet⟩ (AList.mem_lookup_iff.mp hlook) w hw
      omega

end SessionWindowManager

/-! ## Runs -/

namespace SessionRun

/-- Manager and SDK agree, and the timeout is the configured one. -/
def Inv (timeout : Nat) (s : SessionRun) : Prop :=
  s.manager.timeout = timeout ∧
    Tracks timeout id s.assigned s.last s.manager.activeWindows [] s.sdk

variable {timeout : Nat}

/-- A legal call that loses no window keeps manager and SDK in agreement. -/
theorem inv_step (ht : 1000000 ≤ timeout) (s : SessionRun) (c : SessionCall) (h : s.Inv timeout)
    (hok : s.Legal c ∧ s.Clear c) : (s.step c).Inv timeout := by
  rcases h with ⟨rfl, htracks⟩
  rcases hok with ⟨hlegal, hclear⟩
  cases c with
  | assign msg =>
    refine ⟨assignWindows_timeout s.manager msg, ?_⟩
    have hlast : ∀ l ∈ s.last, l ≤ msg.eventTime := by
      intro l hl
      exact (hlegal l hl).trans (millis_floor msg.eventTime).1
    exact htracks.assign ht hlast hclear.2 hclear.1
  | close order watermark =>
    refine ⟨closeWindows_timeout s.manager order watermark, ?_⟩
    exact htracks.close ht hlegal order

variable {calls : List SessionCall} {keys : List String}

/-- Manager and SDK agree after every run of such calls. -/
theorem tracks_exec (ht : 1000000 ≤ timeout)
    (hrun : Along (fun s c => s.Legal c ∧ s.Clear c) step (init timeout) calls) :
    (exec step (init timeout) calls).Inv timeout :=
  exec_invariant (inv_step ht) ⟨rfl, Tracks.init⟩ hrun

/-- Selecting the messages of a key vector selects the sessions of that key
vector, when every message has the key vector of its session. -/
theorem contents_filter {closed : List Session}
    (hkeys : ∀ c ∈ closed, ∀ msg ∈ c.contents, msg.keys = c.window.keys) :
    (closed.filter fun c => decide (c.window.keys = keys)).flatMap Session.contents =
      (closed.flatMap Session.contents).filter fun msg => decide (msg.keys = keys) := by
  induction closed with
  | nil => rfl
  | cons c _ ih =>
    have hc := hkeys c List.mem_cons_self
    have hrest := ih fun c' hc' => hkeys c' (List.mem_cons_of_mem c hc')
    rw [List.flatMap_cons, List.filter_append, ← hrest]
    by_cases hk : c.window.keys = keys
    · have hall : (c.contents.filter fun msg => decide (msg.keys = keys)) = c.contents := by
        apply List.filter_eq_self.mpr
        intro msg hmsg
        simp [hc msg hmsg, hk]
      simp [hk, hall]
    · have hnone : (c.contents.filter fun msg => decide (msg.keys = keys)) = [] := by
        apply List.filter_eq_nil_iff.mpr
        intro msg hmsg
        simp [hc msg hmsg, hk]
      simp [hk, hnone]

/-- When manager and SDK agree and nothing is open, the closed sessions are the
components. -/
theorem componentwise_of_inv (ht : 1000000 ≤ timeout) {s : SessionRun} (h : s.Inv timeout)
    (hopen : s.sdk.opened = []) : s.Componentwise := by
  rcases h with ⟨rfl, htracks⟩
  have hsound := htracks.sound
  intro keys
  have hkeys : ∀ c ∈ s.sdk.closed, ∀ msg ∈ c.contents, msg.keys = c.window.keys := by
    intro c hc
    exact hsound.keys c (List.mem_append_right _ hc)
  apply components_of_clusters fun m _ => sessionStart_lt_sessionEnd ht m
  · intro c hc
    exact hsound.cluster c (List.mem_append_right _ (List.mem_filter.mp hc).1)
  · -- closed sessions of one key vector are in particular of one combined key
    have hapart := hsound.apart.filter fun c => decide (c.window.keys = keys)
    refine List.Pairwise.imp_of_mem ?_ hapart
    intro c c' hc hc' horder hmeets
    apply absurd hmeets.2
    apply not_lt.mpr
    apply horder
    have hk := of_decide_eq_true (List.mem_filter.mp hc).2
    have hk' := of_decide_eq_true (List.mem_filter.mp hc').2
    unfold Window.SameKey
    rw [hk, hk']
  · have hperm : (s.sdk.closed.flatMap Session.contents).Perm s.assigned := by
      have := hsound.exhaust
      rwa [hopen, List.nil_append] at this
    rw [contents_filter hkeys]
    exact hperm.filter _

/-- After a final close with a watermark at or above every window end, every
session is closed and the sessions of a key vector are the connected components
of its messages. -/
theorem closed_sessions_are_components (ht : 1000000 ≤ timeout)
    {order : List String} {watermark : Int}
    (hrun : Along (fun s c => s.Legal c ∧ s.Clear c) step (init timeout)
      (calls ++ [.close order watermark]))
    (hfinal : (exec step (init timeout) calls).Covers watermark) :
    (exec step (init timeout) (calls ++ [.close order watermark])).sdk.opened = [] ∧
      (exec step (init timeout) (calls ++ [.close order watermark])).Componentwise := by
  have hinv := tracks_exec ht hrun
  have hopen : (exec step (init timeout) (calls ++ [.close order watermark])).sdk.opened = [] := by
    rw [exec_append] at hinv ⊢
    have hnone := closeWindows_covered hfinal order
    rw [List.eq_nil_iff_forall_not_mem]
    intro c hc
    exact hnone _ _ (hinv.2.active_of_opened (List.mem_map_of_mem hc))
  exact ⟨hopen, componentwise_of_inv ht hinv hopen⟩

/-- Out-of-order messages of two keys: a session that grows to the left, a merge
on close and an active session that outlives a watermark. -/
def outOfOrderCalls : List SessionCall :=
  [.assign { keys := ["a"], eventTime := 5000000 },
    .assign { keys := ["a"], eventTime := 18000000 },
    .assign { keys := ["b"], eventTime := 30000000 },
    .assign { keys := ["a"], eventTime := 11000000 },
    .close [] 22000000,
    .assign { keys := ["b"], eventTime := 25000000 }]

theorem outOfOrderCalls_components :
    (exec step (init 10000000) (outOfOrderCalls ++ [.close ["b"] 100000000])).sdk.opened = [] ∧
      (exec step (init 10000000) (outOfOrderCalls ++ [.close ["b"] 100000000])).Componentwise :=
  closed_sessions_are_components (by decide) (by decide) (by decide)

/-- Four messages of one key.  The third one extends `[0, 10)` to
`[0, 18)`, the fourth one to `[0, 25)`, which ends together with the
active window `[15, 25)`. -/
def collidingCalls : List SessionCall :=
  [.assign { keys := ["k"], eventTime := 0 },
    .assign { keys := ["k"], eventTime := 15000000 },
    .assign { keys := ["k"], eventTime := 8000000 },
    .assign { keys := ["k"], eventTime := 15000000 }]

/-- The window that collides is never closed, so its messages are lost. -/
theorem collidingCalls_not_components :
    Along Legal step (init 10000000) (collidingCalls ++ [.close [] 100000000]) ∧
      (exec step (init 10000000) collidingCalls).Covers 100000000 ∧
      ¬ (exec step (init 10000000) (collidingCalls ++ [.close [] 100000000])).Componentwise := by
  refine ⟨by decide, by decide, ?_⟩
  intro h
  have hlength := (h ["k"]).perm.length_eq
  exact absurd hlength (by decide)

end SessionRun
end Numaflow.Unaligned
