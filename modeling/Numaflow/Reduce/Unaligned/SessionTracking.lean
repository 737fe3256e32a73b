import Numaflow.Reduce.Unaligned.Sdk

/-!
# The session manager and the SDK agree

While no expanded window collides with another active window, the windows that
the manager keeps are exactly the windows that are open in the SDK.  During
`closeWindows` some windows are in flight: taken out of the active sets and
not yet merged or closed in the SDK.

Main results: `Tracks.assign`, `Tracks.close`.
-/

namespace Numaflow.Unaligned

open Lib SessionWindowManager Sdk List

/-- An active window that overlaps the interval of a message ends before it,
and another active window ends exactly with it.  The expanded window would then
end together with that other window. -/
def EndCollision (windowSet : WindowSet) (window : Window) : Prop :=
  ∃ v ∈ windowSet.toList, ∃ w ∈ windowSet.toList,
    window.Meets v ∧ v.endTime < window.endTime ∧ w.endTime = window.endTime
deriving Decidable

variable {δ : Type}

/-- The open windows of the SDK are the active windows of the manager and the
windows in flight; `last` is the last watermark used to close windows. -/
structure Tracks (timeout : Nat) (view : List String → δ) (assigned : List Message)
    (last : Option Int) (active : ActiveWindowStore) (inflight : List Window)
    (d : Sdk) : Prop where
  sound : d.Sound timeout view assigned
  keyed : ∀ key, ∀ w ∈ activeOf active key, combineKeys w.keys = key
  opened_iff : ∀ w, d.Opened w ↔ w ∈ activeOf active (combineKeys w.keys) ∨ w ∈ inflight
  above : ∀ l ∈ last, ∀ key, ∀ w ∈ activeOf active key, l < w.endTime
  inflight_below : ∀ w ∈ inflight, ∃ l ∈ last, w.endTime ≤ l
  closed_below : ∀ c ∈ d.closed, ∃ l ∈ last, c.window.endTime ≤ l

variable {inflight' inflight : List Window} {w v : Window} {timeout : Nat} {view : List String → δ}
  {assigned : List Message} {last : Option Int} {active : ActiveWindowStore} {d : Sdk}
  {key : String}

namespace Tracks

/-- A manager without windows and an SDK without sessions agree. -/
theorem init : Tracks timeout view [] none ∅ [] Sdk.init where
  sound := sound_init timeout view
  keyed := by simp [activeOf]
  opened_iff := by simp [activeOf, Sdk.Opened, Sdk.init]
  above := by simp
  inflight_below := by simp
  closed_below := by simp [Sdk.init]

section

variable (h : Tracks timeout view assigned last active inflight d)

include h

theorem opened_of_active (hw : w ∈ activeOf active key) : d.Opened w := by
  rw [h.opened_iff, h.keyed key w hw]
  exact .inl hw

omit h in
theorem active_of_opened (h : Tracks timeout view assigned last active [] d) (hw : d.Opened w) :
    w ∈ activeOf active (combineKeys w.keys) := by
  rw [h.opened_iff] at hw
  simpa using hw

/-- Every open window is at least as long as the timeout. -/
theorem long (ht : 1000000 ≤ timeout) (hw : d.Opened w) (msg : Message) :
    w.startTime + (sessionEnd timeout msg - sessionStart msg) ≤ w.endTime := by
  rcases mem_map.mp hw with ⟨s, hs, rfl⟩
  have hcluster := h.sound.cluster s (mem_append_left _ hs)
  rcases exists_mem_of_ne_nil _ hcluster.nonempty with ⟨n, hn⟩
  have hstart := hcluster.start_le hn (sessionStart_lt_sessionEnd ht n)
  have hend := hcluster.le_end hn (sessionStart_lt_sessionEnd ht n)
  unfold sessionStart sessionEnd fromTimestampMillis at *
  omega

theorem proper (ht : 1000000 ≤ timeout) (hw : d.Opened w) : w.Proper := by
  rcases mem_map.mp hw with ⟨s, hs, rfl⟩
  exact (h.sound.cluster s (mem_append_left _ hs)).lt fun m _ => sessionStart_lt_sessionEnd ht m

end

variable {windowSet : WindowSet} {key' : String} {assigned' : List Message} {d' : Sdk}

/-- The active windows of a key after its set was stored. -/
theorem mem_activeOf_setActive {m : SessionWindowManager} :
    w ∈ activeOf (m.setActive key windowSet).activeWindows key' ↔
      (key' = key ∧ w ∈ windowSet) ∨ (key' ≠ key ∧ w ∈ activeOf m.activeWindows key') := by
  by_cases hkey : key' = key
  · subst hkey
    simp
  · simp [activeOf_insert_ne hkey, hkey]

/-- In the SDK and in the set of a key one window takes the place of others. -/
theorem store {m : SessionWindowManager}
    (h : Tracks timeout view assigned last m.activeWindows inflight d)
    (target : Window) (removed : List Window)
    (hsound : d'.Sound timeout view assigned') (hclosed : d'.closed = d.closed)
    (htarget : combineKeys target.keys = key) (habove : ∀ l ∈ last, l < target.endTime)
    (hremoved : ∀ w ∈ removed, combineKeys w.keys = key)
    (hset : ∀ w, w ∈ windowSet ↔ w = target ∨ w ∈ activeOf m.activeWindows key ∧ w ∉ removed)
    (hflight : ∀ w, w ∈ inflight' ↔ w ∈ inflight ∧ w ∉ removed)
    (hopened : ∀ w, d'.Opened w ↔ w = target ∨ d.Opened w ∧ w ∉ removed) :
    Tracks timeout view assigned' last (m.setActive key windowSet).activeWindows inflight' d' where
  sound := hsound
  keyed := by
    intro key' w hw
    rcases mem_activeOf_setActive.mp hw with ⟨rfl, hmem⟩ | ⟨-, hmem⟩
    · rcases (hset w).mp hmem with rfl | ⟨hmem, -⟩
      · exact htarget
      · exact h.keyed _ w hmem
    · exact h.keyed key' w hmem
  opened_iff := by
    intro w
    rw [hopened, mem_activeOf_setActive, hset, hflight, h.opened_iff w]
    by_cases hkey : combineKeys w.keys = key
    · simp only [hkey, true_and, ne_eq, not_true_eq_false, false_and, or_false, or_and_right, or_assoc]
    · have hne : w ≠ target := by
        rintro rfl
        exact hkey htarget
      have hnot : w ∉ removed := fun hw => hkey (hremoved w hw)
      simp [hkey, hne, hnot]
  above := by
    intro l hl key' w hw
    rcases mem_activeOf_setActive.mp hw with ⟨-, hmem⟩ | ⟨-, hmem⟩
    · rcases (hset w).mp hmem with rfl | ⟨hmem, -⟩
      · exact habove l hl
      · exact h.above l hl key w hmem
    · exact h.above l hl key' w hmem
  inflight_below w hw := h.inflight_below w ((hflight w).mp hw).1
  closed_below := by
    rw [hclosed]
    exact h.closed_below

end Tracks

/-- A window is open after a replacement when it is the new window or one of the
windows that were kept. -/
theorem Sdk.opened_cons {s : Session} {opened rest closed : List Session}
    (hperm : opened.Perm (s :: rest)) :
    (mk opened closed).Opened w ↔ w = s.window ∨ w ∈ rest.map Session.window := by
  unfold Opened
  rw [(hperm.map Session.window).mem_iff, map_cons, mem_cons]

theorem Sdk.mem_map_others :
    w ∈ (d.others v).map Session.window ↔ d.Opened w ∧ w ≠ v := by
  unfold Opened
  simp only [mem_map, mem_others]
  constructor
  · intro hw
    rcases hw with ⟨s, ⟨hs, hne⟩, rfl⟩
    exact ⟨⟨s, hs, rfl⟩, hne⟩
  · intro hw
    rcases hw with ⟨⟨s, hs, rfl⟩, hne⟩
    exact ⟨s, ⟨hs, hne⟩, rfl⟩

/-! ## Assigning a message -/

variable {m : SessionWindowManager} {group : List Window}

namespace Tracks

variable {msg : Message} {existing : Window} {c : Session}

/-- Closed sessions end before the session of a message that is not older than the
last watermark starts; the ends of sessions are whole milliseconds. -/
theorem closed_le_start (ht : 1000000 ≤ timeout)
    (h : Tracks timeout view assigned last active inflight d)
    (hlast : ∀ l ∈ last, l ≤ msg.eventTime) (hc : c ∈ d.closed) :
    c.window.endTime ≤ sessionStart msg := by
  rcases h.closed_below c hc with ⟨l, hl, hend⟩
  rcases (h.sound.cluster c (mem_append_right _ hc)).exists_end ht with ⟨n, -, heq⟩
  have hle := hlast l hl
  unfold sessionEnd sessionStart fromTimestampMillis timestampMillis at *
  omega

section Assign

variable (ht : 1000000 ≤ m.timeout)
  (h : Tracks m.timeout view assigned last m.activeWindows [] d)
  (hlast : ∀ l ∈ last, l ≤ msg.eventTime)
  (hview : ∀ w ∈ activeOf m.activeWindows (combineKeys msg.keys), view w.keys = view msg.keys)

include h hview in
/-- The windows open under the key of the message agree with its view. -/
theorem view_of_sameKey (hw : d.Opened w) (hkey : combineKeys w.keys = combineKeys msg.keys) :
    view w.keys = view msg.keys := by
  apply hview
  rw [← hkey]
  exact h.active_of_opened hw

include ht h hlast hview

variable {target : Window} {windowSet' : WindowSet}

/-- The message joins the session of an overlapping active window, whose window
becomes `target`. -/
theorem assign_into
    (hmem : existing ∈ activeOf m.activeWindows (combineKeys msg.keys))
    (hmeets : (newWindow m.timeout msg).Meets existing)
    (hstart : target.startTime = min (sessionStart msg) existing.startTime)
    (hend : target.endTime = max (sessionEnd m.timeout msg) existing.endTime)
    (htarget : combineKeys target.keys = combineKeys msg.keys)
    (htview : view target.keys = view msg.keys)
    (hfresh : ∀ w ∈ activeOf m.activeWindows (combineKeys msg.keys), w ≠ existing → w ≠ target)
    (hset : ∀ w, w ∈ windowSet' ↔
      w = target ∨ (w ∈ activeOf m.activeWindows (combineKeys msg.keys) ∧ w ≠ existing)) :
    Tracks m.timeout view (assigned ++ [msg]) last
      (m.setActive (combineKeys msg.keys) windowSet').activeWindows []
      ⟨d.opened.map fun t =>
        if t.window = existing then ⟨target, t.contents ++ [msg]⟩ else t, d.closed⟩ := by
  have hopen := h.opened_of_active hmem
  have hkey := h.keyed _ existing hmem
  rcases exists_unique_session h.sound.nodup hopen with ⟨s, hs, hsplit, -, hmap⟩
  have hsmem := hsplit.symm.subset mem_cons_self
  have hcluster := h.sound.cluster s (mem_append_left _ hsmem)
  have hopened := hmap fun t => ⟨target, t.contents ++ [msg]⟩
  have hother : ∀ w, w ∈ (d.others existing).map Session.window ↔ d.Opened w ∧ w ≠ existing :=
    fun w => mem_map_others
  have hsound : Sound m.timeout view (assigned ++ [msg]) ⟨d.opened.map fun t =>
        if t.window = existing then ⟨target, t.contents ++ [msg]⟩ else t, d.closed⟩ := by
    refine h.sound.replace (show d.opened.Perm ([s] ++ d.others existing) from hsplit) hopened ?_ ?_ ?_ ?_ ?_ ?_
    · have hov : Overlaps (sessionStart msg) (sessionEnd m.timeout msg) s.window.startTime
          s.window.endTime := by
        rw [hs]
        exact hmeets
      have hext := hcluster.extend (fun m _ => sessionStart_lt_sessionEnd ht m)
        (sessionStart_lt_sessionEnd ht _) hov
      rw [hs, ← hstart, ← hend] at hext
      exact hext
    · simp
    · refine forall_mem_concat.mpr ⟨fun n hn => ?_, htview.symm⟩
      rw [h.sound.keys s (mem_append_left _ hsmem) n hn, hs, hview existing hmem, htview]
    · intro hin
      rcases (hother target).mp hin with ⟨htopen, htne⟩
      have hactive := h.active_of_opened htopen
      rw [htarget] at hactive
      exact hfresh target hactive htne rfl
    · intro r hr hsame
      have hropen : d.Opened r.window := mem_map_of_mem (mem_others.mp hr).1
      rw [htview, h.view_of_sameKey hview hropen (hsame.symm.trans htarget)]
    · intro c hc hsame
      have hcsame : c.window.SameKey s.window := by
        rw [hs]
        exact hsame.trans (htarget.trans hkey.symm)
      have hold := h.sound.apartOpen c hc s hsmem hcsame
      rw [hs] at hold
      rw [hstart]
      exact le_min (h.closed_le_start ht hlast hc) hold
  refine h.store target [existing] hsound rfl htarget (fun l hl => ?_)
    (by simpa using hkey) (by simpa using hset) (by simp) fun w => ?_
  · rw [hend, lt_max_iff]
    exact .inr (h.above l hl _ existing hmem)
  · rw [opened_cons hopened, hother w]
    simp

/-- The message opens a session of its own. -/
theorem assign_open (hnone : ∀ w ∈ activeOf m.activeWindows (combineKeys msg.keys),
      ¬ (newWindow m.timeout msg).Meets w) :
    Tracks m.timeout view (assigned ++ [msg]) last (m.setActive (combineKeys msg.keys)
        ((activeOf m.activeWindows (combineKeys msg.keys)).insert
          (newWindow m.timeout msg))).activeWindows []
      (d.apply (.openOp msg (newWindow m.timeout msg))) := by
  have hnew := sessionStart_lt_sessionEnd ht msg
  -- a window that ended with the new one would contain it, hence overlap it
  have hends : ∀ w ∈ activeOf m.activeWindows (combineKeys msg.keys),
      w.endTime ≠ (newWindow m.timeout msg).endTime := by
    intro w hw heq
    apply hnone w hw
    have hlong := h.long ht (h.opened_of_active hw) msg
    rw [newWindow_endTime] at heq
    refine ⟨?_, ?_⟩
    · rw [newWindow_startTime]
      omega
    · rw [newWindow_endTime]
      omega
  have hfresh : ¬ d.Opened (newWindow m.timeout msg) := by
    intro hopen
    exact hends _ (h.active_of_opened hopen) rfl
  have hsound : Sound m.timeout view (assigned ++ [msg])
      (d.apply (.openOp msg (newWindow m.timeout msg))) := by
    refine h.sound.replace (show d.opened.Perm ([] ++ d.opened) from .refl _) (.refl _) ?_ ?_ ?_ ?_ ?_ ?_
    · exact IsCluster.single
    · simp
    · intro n hn
      rw [mem_singleton] at hn
      rw [hn, newWindow_keys]
    · exact hfresh
    · intro r hr hsame
      exact (h.view_of_sameKey hview (mem_map_of_mem hr) hsame.symm).symm
    · intro c hc _
      exact h.closed_le_start ht hlast hc
  refine h.store (newWindow m.timeout msg) [] hsound rfl rfl (fun l hl => ?_) (by simp) (fun w => ?_) (by simp)
    fun w => ?_
  · rw [newWindow_endTime]
    have hle := hlast l hl
    have hfloor := (millis_floor msg.eventTime).2
    unfold sessionEnd fromTimestampMillis asMillis at *
    omega
  · rw [OrdSet.mem_insert_new hends]
    simp
  · have hmap : (d.apply (.openOp msg (newWindow m.timeout msg))).Opened w ↔
        w = newWindow m.timeout msg ∨ d.Opened w :=
      opened_cons (List.Perm.refl _)
    rw [hmap]
    simp

/-- Assigning a message keeps the manager and the SDK in agreement. -/
theorem assign (hclear : ¬ EndCollision (activeOf m.activeWindows (combineKeys msg.keys))
      (newWindow m.timeout msg)) :
    Tracks m.timeout view (assigned ++ [msg]) last (m.assignWindows msg).1.activeWindows []
      ((m.assignWindows msg).2.foldl receive d) := by
  rcases assignWindows_cases m msg rfl rfl rfl with
    ⟨existing, hfind, hin, heq⟩ | ⟨existing, hfind, hout, heq⟩ | ⟨hfind, heq⟩
  · rcases findWindowToMerge_some hfind with ⟨hmem, hmeets, -⟩
    rw [heq]
    refine h.assign_into ht hlast hview hmem hmeets ?_ ?_ (h.keyed _ _ hmem)
      (hview existing hmem) (fun w _ hne => hne) ?_
    · exact (min_eq_right hin.1).symm
    · exact (max_eq_right hin.2).symm
    · intro w
      by_cases hw : w = existing
      · simp [hw, hmem]
      · simp [hw]
  · rcases findWindowToMerge_some hfind with ⟨hmem, hmeets, -⟩
    have hends : ∀ w ∈ activeOf m.activeWindows (combineKeys msg.keys), w ≠ existing →
        w.endTime ≠ ((newWindow m.timeout msg).span existing).endTime := by
      intro w hw hne hend
      rw [Window.span_endTime] at hend
      rcases le_or_gt (newWindow m.timeout msg).endTime existing.endTime with hle | hlt
      · rw [max_eq_right hle] at hend
        exact hne (OrdSet.eq_of_key_eq hw hmem hend)
      · rw [max_eq_left hlt.le] at hend
        exact hclear ⟨existing, hmem, w, hw, hmeets, hlt, hend⟩
    rw [heq]
    refine h.assign_into ht hlast hview hmem hmeets rfl rfl rfl rfl ?_ ?_
    · intro w hw hne hwt
      exact hends w hw hne (congrArg Window.endTime hwt)
    · exact fun w => OrdSet.mem_exchange hmem hends
  · rw [heq]
    exact h.assign_open ht hlast hview (findWindowToMerge_none.mp hfind)

end Assign

/-! ## Closing windows -/

section Close

variable {window : Window} {rest : List Window}

theorem lt_of_inflight (h : Tracks timeout view assigned last active inflight d) (hv : v ∈ inflight)
    (hw : w ∈ activeOf active key) : v.endTime < w.endTime := by
  rcases h.inflight_below v hv with ⟨l, hl, hle⟩
  exact hle.trans_lt (h.above l hl key w hw)

variable (ht : 1000000 ≤ timeout)

include ht

/-- A group of windows in flight is merged into its span. -/
theorem merge_group (h : Tracks timeout view assigned last active (group ++ rest) d)
    (hchain : Chained group) (hkey : ∀ w ∈ group, combineKeys w.keys = key)
    (hrest : ∀ w ∈ rest, combineKeys w.keys = key → (hull group).endTime ≤ w.startTime) :
    Tracks timeout view assigned last active (hull group :: rest) (d.apply (.mergeOp group)) := by
  have hopen : ∀ w ∈ group, d.Opened w := by
    intro w hw
    exact (h.opened_iff w).mpr (.inr (mem_append_left _ hw))
  have hhull : combineKeys (hull group).keys = key := by
    rcases exists_hull_keys hchain.ne_nil with ⟨v, hv, heq⟩
    rw [heq]
    exact hkey v hv
  rcases exists_hull_endTime hchain.ne_nil with ⟨top, htop, hend⟩
  have hactive : ∀ w ∈ activeOf active (combineKeys w.keys), (hull group).endTime < w.endTime := by
    intro w hw
    rw [← hend]
    exact h.lt_of_inflight (mem_append_left _ htop) hw
  have hlater : ∀ w ∈ rest, combineKeys w.keys = key → (hull group).endTime < w.endTime := by
    intro w hw hwkey
    have hwproper : w.startTime < w.endTime :=
      h.proper ht ((h.opened_iff w).mpr (.inr (mem_append_right _ hw)))
    exact (hrest w hw hwkey).trans_lt hwproper
  have hgroup : ∀ w ∈ group, w.endTime ≤ (hull group).endTime := fun w hw => (hull_bounds hw).2
  refine ⟨?_, h.keyed, ?_, h.above, ?_, h.closed_below⟩
  · refine h.sound.merge ht hopen hchain (fun w hw => (hkey w hw).trans hhull.symm) ?_
    intro w hw hout heq
    rcases (h.opened_iff w).mp hw with hw | hw
    · exact absurd (congrArg Window.endTime heq) (hactive w hw).ne'
    · rcases mem_append.mp hw with hw | hw
      · exact hout hw
      · have hwkey : combineKeys w.keys = key := by rw [heq, hhull]
        exact absurd (congrArg Window.endTime heq) (hlater w hw hwkey).ne'
  · intro w
    rw [opened_merge, h.opened_iff w, mem_cons, mem_append]
    constructor
    · intro hw
      rcases hw with hw | ⟨hw | hw | hw, hout⟩
      · exact .inr (.inl hw)
      · exact .inl hw
      · exact absurd hw hout
      · exact .inr (.inr hw)
    · intro hw
      rcases hw with hw | hw | hw
      · exact .inr ⟨.inl hw, fun hin => absurd (hactive w hw) (hgroup w hin).not_gt⟩
      · exact .inl hw
      · exact .inr ⟨.inr (.inr hw),
          fun hin => absurd (hlater w hw (hkey w hin)) (hgroup w hin).not_gt⟩
  · intro w hw
    rcases mem_cons.mp hw with rfl | hw
    · rcases h.inflight_below top (mem_append_left _ htop) with ⟨l, hl, hle⟩
      exact ⟨l, hl, hend ▸ hle⟩
    · exact h.inflight_below w (mem_append_right _ hw)

/-- A window in flight that overlaps nothing is closed. -/
theorem close_window (h : Tracks timeout view assigned last active (window :: rest) d)
    (hkey : combineKeys window.keys = key)
    (hrest : ∀ w ∈ rest, combineKeys w.keys = key → window.endTime ≤ w.startTime)
    (hnone : ∀ v ∈ activeOf active key, ¬ window.Meets v) :
    Tracks timeout view assigned last active rest (d.apply (.closeOp window)) := by
  have hopen : d.Opened window := (h.opened_iff window).mpr (.inr mem_cons_self)
  have hproper : window.startTime < window.endTime := h.proper ht hopen
  rcases exists_unique_session h.sound.nodup hopen with ⟨s, hs, hsplit, hfilter, -⟩
  have hbelow := h.inflight_below window mem_cons_self
  have happly : d.apply (.closeOp window) = ⟨d.others window, d.closed ++ [s]⟩ := by
    simp only [apply, hfilter, others]
  rw [happly]
  refine ⟨?_, h.keyed, ?_, h.above, ?_, ?_⟩
  · refine h.sound.close hsplit ?_
    intro r hr hsame
    rcases mem_others.mp hr with ⟨hr, hne⟩
    rw [hs] at hsame ⊢
    rcases (h.opened_iff r.window).mp (mem_map_of_mem hr) with hw | hw
    · -- an active window ends after the closed one and does not overlap it
      have hlt := h.lt_of_inflight mem_cons_self hw
      rw [← hsame, hkey] at hw
      by_contra hle
      apply hnone r.window hw
      exact ⟨by omega, by omega⟩
    · rcases mem_cons.mp hw with hw | hw
      · exact absurd hw hne
      · exact hrest r.window hw (hsame.symm.trans hkey)
  · intro w
    have hopened : (Sdk.mk (d.others window) (d.closed ++ [s])).Opened w ↔
        d.Opened w ∧ w ≠ window := mem_map_others
    rw [hopened, h.opened_iff w, mem_cons]
    constructor
    · intro hw
      rcases hw with ⟨hw | hw | hw, hne⟩
      · exact .inl hw
      · exact absurd hw hne
      · exact .inr hw
    · intro hw
      rcases hw with hw | hw
      · refine ⟨.inl hw, ?_⟩
        rintro rfl
        exact absurd (h.lt_of_inflight mem_cons_self hw) (lt_irrefl _)
      · refine ⟨.inr (.inr hw), ?_⟩
        rintro rfl
        have hle := hrest w hw hkey
        omega
  · intro w hw
    exact h.inflight_below w (mem_cons_of_mem _ hw)
  · exact forall_mem_concat.mpr ⟨h.closed_below, hs ▸ hbelow⟩

/-- A window in flight is merged into an active window that it overlaps. -/
theorem merge_active {active : Window}
    (h : Tracks timeout view assigned last m.activeWindows (window :: rest) d)
    (hkey : combineKeys window.keys = key)
    (hrest : ∀ w ∈ rest, combineKeys w.keys = key → window.endTime ≤ w.startTime)
    (hmem : active ∈ activeOf m.activeWindows key) (hmeets : window.Meets active) :
    Tracks timeout view assigned last
      (m.setActive key (((activeOf m.activeWindows key).remove active).insert
        (window.span active))).activeWindows rest (d.apply (.mergeOp [window, active])) := by
  have hopen : d.Opened window := (h.opened_iff window).mpr (.inr mem_cons_self)
  have hproper : window.startTime < window.endTime := h.proper ht hopen
  have hakey := h.keyed key active hmem
  have hlt := h.lt_of_inflight mem_cons_self hmem
  have hend : (window.span active).endTime = active.endTime := max_eq_right hlt.le
  have hset : ∀ w, w ∈ ((activeOf m.activeWindows key).remove active).insert (window.span active) ↔
        w = window.span active ∨ (w ∈ activeOf m.activeWindows key ∧ w ≠ active) := by
    intro w
    apply OrdSet.mem_exchange hmem
    intro v hv hne heq
    rw [hend] at heq
    exact hne (OrdSet.eq_of_key_eq hv hmem heq)
  have hsound : Sound timeout view assigned (d.apply (.mergeOp [window, active])) := by
    refine h.sound.merge ht ?_ ⟨hmeets, trivial⟩ ?_ ?_
    · intro w hw
      simp only [mem_cons, not_mem_nil, or_false] at hw
      rcases hw with rfl | rfl
      · exact hopen
      · exact h.opened_of_active hmem
    · intro w hw
      simp only [mem_cons, not_mem_nil, or_false] at hw
      rcases hw with rfl | rfl
      · rfl
      · exact hakey.trans hkey.symm
    · intro w hw hout heq
      have hwkey : combineKeys w.keys = key := by
        rw [heq]
        exact hkey
      have hwend : w.endTime = active.endTime := by
        rw [heq]
        exact hend
      rcases (h.opened_iff w).mp hw with hw | hw
      · rw [hwkey] at hw
        have heq := OrdSet.eq_of_key_eq hw hmem hwend
        simp [heq] at hout
      · exact absurd hwend (h.lt_of_inflight hw hmem).ne
  refine h.store (window.span active) [window, active] hsound rfl hkey
    (fun l hl => hend ▸ h.above l hl key active hmem) ?_ (fun w => ?_) (fun w => ?_)
    fun w => opened_merge
  · simp [hkey, hakey]
  · rw [hset w]
    refine or_congr_right (and_congr_right fun hw => ?_)
    have hne : w ≠ window := by
      rintro rfl
      exact absurd (h.lt_of_inflight mem_cons_self hw) (lt_irrefl _)
    simp [hne]
  · constructor
    · intro hw
      refine ⟨mem_cons_of_mem _ hw, ?_⟩
      simp only [mem_cons, not_mem_nil, or_false]
      rintro (rfl | rfl)
      · have hle := hrest w hw hkey
        omega
      · exact absurd (h.lt_of_inflight (mem_cons_of_mem _ hw) hmem) (lt_irrefl _)
    · rintro ⟨hw, hne⟩
      simpa using (mem_cons.mp hw).resolve_left fun heq => hne (heq ▸ mem_cons_self)

end Close

/-- Only the windows in flight matter, not their order. -/
theorem congr_inflight (h : Tracks timeout view assigned last active inflight d)
    (heq : ∀ w, w ∈ inflight' ↔ w ∈ inflight) :
    Tracks timeout view assigned last active inflight' d where
  sound := h.sound
  keyed := h.keyed
  opened_iff := by
    intro w
    rw [heq w]
    exact h.opened_iff w
  above := h.above
  inflight_below := by
    intro w hw
    exact h.inflight_below w ((heq w).mp hw)
  closed_below := h.closed_below

end Tracks

/-- The groups of one key that are still to be closed, followed by the windows
in flight of the other keys. -/
structure Closing (key : String) (groups : List (List Window)) (later : List Window) :
    Prop where
  chained : ∀ g ∈ groups, Chained g
  apart : groups.Pairwise fun g g' => (hull g).endTime ≤ (hull g').startTime
  keyed : ∀ g ∈ groups, ∀ w ∈ g, combineKeys w.keys = key
  later_ne : ∀ w ∈ later, combineKeys w.keys ≠ key

variable {later : List Window} {groups : List (List Window)} {e : Σ _ : String, List Window}
  {entries : List (Σ _ : String, List Window)}

theorem Closing.tail (h : Closing key (group :: groups) later) : Closing key groups later where
  chained g hg := h.chained g (mem_cons_of_mem group hg)
  apart := (pairwise_cons.mp h.apart).2
  keyed g hg := h.keyed g (mem_cons_of_mem group hg)
  later_ne := h.later_ne

/-- The first group ends before every other window in flight of its key. -/
theorem Closing.head_le (h : Closing key (group :: groups) later) :
    ∀ w ∈ groups.flatten ++ later, combineKeys w.keys = key →
      (hull group).endTime ≤ w.startTime := by
  intro w hw hkey
  rcases mem_append.mp hw with hw | hw
  · rcases mem_flatten.mp hw with ⟨g, hg, hw⟩
    have hle := (pairwise_cons.mp h.apart).1 g hg
    exact hle.trans (hull_bounds hw).1
  · exact absurd hkey (h.later_ne w hw)

/-- The windows of a list of entries. -/
def allWindows (entries : List (Σ _ : String, List Window)) : List Window :=
  entries.flatMap fun e => e.2

theorem mem_allWindows : w ∈ allWindows entries ↔ ∃ e ∈ entries, w ∈ e.2 :=
  mem_flatMap

/-- Expired windows by key: no key occurs twice, and the windows of a key are in
ascending order. -/
structure Expired (entries : List (Σ _ : String, List Window)) : Prop where
  distinct : entries.Pairwise fun e e' => e.1 ≠ e'.1
  sorted : ∀ e ∈ entries, e.2.Pairwise fun v w => v.endTime ≤ w.endTime
  keyed : ∀ e ∈ entries, ∀ w ∈ e.2, combineKeys w.keys = e.1

theorem Expired.tail (h : Expired (e :: entries)) : Expired entries where
  distinct := (pairwise_cons.mp h.distinct).2
  sorted e' he' := h.sorted e' (mem_cons_of_mem e he')
  keyed e' he' := h.keyed e' (mem_cons_of_mem e he')

namespace Tracks

section Loops

variable (ht : 1000000 ≤ timeout)

include ht

/-- One iteration of the loop over the groups of a key. -/
theorem process_group (h : Tracks timeout view assigned last m.activeWindows
      ((group :: groups).flatten ++ later) d) (hclosing : Closing key (group :: groups) later) :
    Tracks timeout view assigned last (processCloseWindowGroup key m group).1.activeWindows
      (groups.flatten ++ later)
      ((processCloseWindowGroup key m group).2.foldl receive d) := by
  have hchain := hclosing.chained group mem_cons_self
  have hgroup := hclosing.keyed group mem_cons_self
  have hrest := hclosing.head_le
  have hkey : combineKeys (hull group).keys = key := by
    rcases exists_hull_keys hchain.ne_nil with ⟨v, hv, heq⟩
    rw [heq]
    exact hgroup v hv
  rw [flatten_cons, append_assoc] at h
  -- the group is first merged into its span, unless it is a single window
  have hmerged : Tracks timeout view assigned last m.activeWindows
      (hull group :: (groups.flatten ++ later))
      ((if group.length = 1 then [] else [onSharedSlot (.mergeOp group)]).foldl receive d) := by
    split_ifs with hlen
    · rcases length_eq_one_iff.mp hlen with ⟨w, rfl⟩
      exact h
    · exact h.merge_group ht hchain hgroup hrest
  rw [processCloseWindowGroup_eq key m hchain.ne_nil, foldl_append]
  rcases closeMergedWindow_cases m key (hull group) with
    ⟨hnone, heq⟩ | ⟨active, hmem, hmeets, heq⟩
  · rw [heq]
    exact hmerged.close_window ht hkey hrest hnone
  · rw [heq]
    exact hmerged.merge_active ht hkey hrest hmem hmeets

/-- One iteration of the loop over the keys. -/
theorem process_entry (h : Tracks timeout view assigned last m.activeWindows
      (allWindows (e :: entries)) d) (hexpired : Expired (e :: entries)) :
    Tracks timeout view assigned last (m.processClosedWindows e).1.activeWindows
      (allWindows entries)
      ((m.processClosedWindows e).2.foldl receive d) := by
  have hsorted := hexpired.sorted e mem_cons_self
  have hkeyed := hexpired.keyed e mem_cons_self
  have hproper : ∀ w ∈ e.2, w.Proper := by
    intro w hw
    exact h.proper ht ((h.opened_iff w).mpr (.inr (mem_allWindows.mpr ⟨e, mem_cons_self, hw⟩)))
  have hclosing : Closing e.1 (windowsThatCanBeMerged e.2) (allWindows entries) := by
    refine ⟨groups_chained hsorted hproper, groups_apart hsorted, ?_, ?_⟩
    · intro g hg w hw
      exact hkeyed w (mem_groups.mp (mem_flatten.mpr ⟨g, hg, hw⟩))
    · intro w hw
      rcases mem_allWindows.mp hw with ⟨e', he', hw⟩
      rw [hexpired.keyed e' (mem_cons_of_mem e he') w hw]
      exact ((pairwise_cons.mp hexpired.distinct).1 e' he').symm
  have hgroups : Tracks timeout view assigned last m.activeWindows
      ((windowsThatCanBeMerged e.2).flatten ++ allWindows entries) d := by
    refine h.congr_inflight ?_
    intro w
    rw [mem_append, mem_groups, allWindows, allWindows, flatMap_cons, mem_append]
  have hloop := collect_simulates (f := processCloseWindowGroup e.1) (g := receive)
    (R := fun groups m d =>
      Tracks timeout view assigned last m.activeWindows (groups.flatten ++ allWindows entries) d ∧
      Closing e.1 groups _)
    (fun group groups m d hR => ⟨hR.1.process_group ht hR.2, hR.2.tail⟩)
    ⟨hgroups, hclosing⟩
  exact hloop.1

end Loops

variable (h : Tracks timeout view assigned last m.activeWindows [] d)

include h

variable {watermark : Int}

/-- Taking out the expired windows puts them in flight. -/
theorem extract (hlast : ∀ l ∈ last, l ≤ watermark) (order : List String) :
    Tracks timeout view assigned (some watermark)
        (extractExpiredWindows m.activeWindows watermark).1
        (allWindows (HashMap.iterIn order (extractExpiredWindows m.activeWindows watermark).2)) d ∧
      Expired (HashMap.iterIn order (extractExpiredWindows m.activeWindows watermark).2) := by
  have hentry : ∀ e ∈ HashMap.iterIn order (extractExpiredWindows m.activeWindows watermark).2,
      e.2 = (activeOf m.activeWindows e.1).toList.filter
        fun w => decide (w.endTime ≤ watermark) := by
    intro e he
    exact (mem_extract_iff.mp (HashMap.mem_iterIn.mp he)).2
  have hmem : ∀ e ∈ HashMap.iterIn order (extractExpiredWindows m.activeWindows watermark).2,
      ∀ w ∈ e.2, w ∈ activeOf m.activeWindows e.1 ∧ w.endTime ≤ watermark := by
    intro e he w hw
    rw [hentry e he] at hw
    simpa using hw
  refine ⟨⟨h.sound, ?_, ?_, ?_, ?_, ?_⟩, ⟨HashMap.pairwise_iterIn _ _, ?_, ?_⟩⟩
  · intro key w hw
    exact h.keyed key w (mem_activeOf_extract.mp hw).1
  · intro w
    rw [h.opened_iff w, mem_activeOf_extract, mem_allWindows]
    constructor
    · intro hw
      have hw : w ∈ activeOf m.activeWindows (combineKeys w.keys) := by simpa using hw
      by_cases hle : w.endTime ≤ watermark
      · have htaken : w ∈ (activeOf m.activeWindows (combineKeys w.keys)).toList.filter
            fun w => decide (w.endTime ≤ watermark) := by
          simpa using ⟨hw, hle⟩
        refine .inr ⟨⟨combineKeys w.keys, _⟩, HashMap.mem_iterIn.mpr
          (mem_extract_iff.mpr ⟨ne_nil_of_mem htaken, rfl⟩), htaken⟩
      · exact .inl ⟨hw, not_le.mp hle⟩
    · intro hw
      rcases hw with hw | ⟨e, he, hw⟩
      · exact .inl hw.1
      · have hactive := (hmem e he w hw).1
        rw [h.keyed e.1 w hactive]
        exact .inl hactive
  · intro l hl key w hw
    cases hl
    exact (mem_activeOf_extract.mp hw).2
  · intro w hw
    rcases mem_allWindows.mp hw with ⟨e, he, hw⟩
    exact ⟨watermark, rfl, (hmem e he w hw).2⟩
  · intro c hc
    rcases h.closed_below c hc with ⟨l, hl, hle⟩
    exact ⟨watermark, rfl, hle.trans (hlast l hl)⟩
  · intro e he
    rw [hentry e he]
    exact ((activeOf m.activeWindows e.1).sorted.imp fun hlt => hlt.le).filter _
  · intro e he w hw
    exact h.keyed e.1 w (hmem e he w hw).1

/-- Closing windows keeps the manager and the SDK in agreement and leaves
nothing in flight. -/
theorem close (ht : 1000000 ≤ timeout) (hlast : ∀ l ∈ last, l ≤ watermark) (order : List String) :
    Tracks timeout view assigned (some watermark)
      (m.closeWindows order watermark).1.activeWindows []
      ((m.closeWindows order watermark).2.foldl receive d) := by
  rcases h.extract hlast order with ⟨hextract, hexpired⟩
  have hloop := collect_simulates (f := processClosedWindows) (g := receive)
    (R := fun entries m d =>
      Tracks timeout view assigned _ m.activeWindows
        (allWindows entries) d ∧ Expired entries)
    (fun e entries m d hR => ⟨hR.1.process_entry ht hR.2, hR.2.tail⟩)
    (s := { m with activeWindows := (extractExpiredWindows m.activeWindows watermark).1 })
    ⟨hextract, hexpired⟩
  exact hloop.1

end Tracks

end Numaflow.Unaligned
