import Mathlib

/-!
# Offset timelines

A processor publishes pairs of an offset and a watermark.  The reader keeps the latest
of them in a timeline of bounded length, newest first, and finds the watermark of an
offset at the newest pair whose offset is smaller.

Main results: `Sorted.put`, `Covers.put`, `searchable_puts`.
-/

namespace Numaflow.Watermark

/-- A watermark message of a processor. -/
structure Wmb where
  idle : Bool := false
  offset : Int := -1
  watermark : Int := -1
  partition : Nat := 0
  processorCount : Option Nat := none
deriving DecidableEq, Repr

/-- How a watermark message compares with the newest one of a timeline. -/
inductive PutCase where
  | advance
  | skip
  | outOfOrder
  | regress
  | idle
deriving DecidableEq, Repr

/-- The cases of a put. -/
def putCase (node element : Wmb) : PutCase :=
  match compare node.watermark element.watermark, compare node.offset element.offset with
  | .eq, .gt => .advance
  | .eq, _ => .skip
  | .gt, .gt => .advance
  | .gt, .lt => .outOfOrder
  | .lt, _ => .regress
  | .gt, .eq => .idle

/-- What the cases mean. -/
theorem putCase_spec (node element : Wmb) :
    match putCase node element with
    | .advance => element.watermark ≤ node.watermark ∧ element.offset < node.offset
    | .skip => node.watermark = element.watermark ∧ node.offset ≤ element.offset
    | .outOfOrder => element.watermark < node.watermark ∧ node.offset < element.offset
    | .regress => node.watermark < element.watermark
    | .idle => element.watermark < node.watermark ∧ node.offset = element.offset := by
  unfold putCase
  rcases hw : compare node.watermark element.watermark with _ | _ | _
  all_goals
    rcases ho : compare node.offset element.offset with _ | _ | _
    all_goals
      simp only [compare_lt_iff_lt, compare_gt_iff_gt, compare_eq_iff_eq] at hw ho
      omega

/-- The latest watermark messages of a processor for a partition, newest first. -/
structure OffsetTimeline where
  capacity : Nat
  watermarks : List Wmb
deriving DecidableEq, Repr

open List

namespace OffsetTimeline

/-- A timeline that is filled with default messages. -/
def new (capacity : Nat) : OffsetTimeline :=
  ⟨capacity, List.replicate capacity {}⟩

/-- Drop the oldest message when there are too many. -/
def trim (capacity : Nat) (watermarks : List Wmb) : List Wmb :=
  if capacity < watermarks.length then watermarks.dropLast else watermarks

section

variable (t : OffsetTimeline)

/-- Store a watermark message, unless it is not newer than the newest one.  The code
stops when the timeline has no message at all. -/
def put (node : Wmb) : Option OffsetTimeline :=
  match t.watermarks with
  | [] => none
  | element :: rest =>
    some { t with
      watermarks := trim t.capacity
        (match putCase node element with
        | .advance => node :: element :: rest
        | .idle => { element with watermark := node.watermark } :: rest
        | _ => element :: rest) }

/-- The offset of the newest message. -/
def getHeadOffset : Int :=
  t.watermarks.head?.elim (-1) Wmb.offset

/-- The watermark of the newest message. -/
def getHeadWatermark : Int :=
  t.watermarks.head?.elim (-1) Wmb.watermark

/-- The newest message with an offset below the given one. -/
def below (inputOffset : Int) : Option Wmb :=
  t.watermarks.find? fun w => decide (w.offset < inputOffset)

/-- The watermark of an offset. -/
def getEventTime (inputOffset : Int) : Int :=
  (t.below inputOffset).elim (-1) Wmb.watermark

end

variable {bound : Int}

theorem getEventTime_lt {t : OffsetTimeline} (h : ∀ w ∈ t.watermarks, w.watermark < bound)
    (hbound : -1 < bound) (inputOffset : Int) : t.getEventTime inputOffset < bound := by
  unfold getEventTime
  cases hbelow : t.below inputOffset with
  | none => exact hbound
  | some w => exact h w (mem_of_find?_eq_some hbelow)

/-! ## Order -/

/-- Offsets and watermarks never increase towards the back, and no watermark is below
the default. -/
structure Sorted (t : OffsetTimeline) : Prop where
  offsets : t.watermarks.Pairwise fun newer older => older.offset ≤ newer.offset
  watermarks : t.watermarks.Pairwise fun newer older => older.watermark ≤ newer.watermark
  floor : ∀ w ∈ t.watermarks, -1 ≤ w.watermark

variable (capacity : Nat)

theorem trim_sublist (watermarks : List Wmb) : (trim capacity watermarks).Sublist watermarks := by
  unfold trim
  split_ifs
  · exact dropLast_sublist _
  · exact List.Sublist.refl _

theorem Sorted.new : (new capacity).Sorted := by
  refine ⟨?_, ?_, ?_⟩
  · exact pairwise_replicate.mpr (.inr (le_refl _))
  · exact pairwise_replicate.mpr (.inr (le_refl _))
  · intro w hw
    rw [eq_of_mem_replicate hw]

variable {node : Wmb} {o o' : Int}

namespace Sorted

variable {t t' : OffsetTimeline}

theorem of_trim {watermarks : List Wmb} (h : (OffsetTimeline.mk t.capacity watermarks).Sorted) :
    (OffsetTimeline.mk t.capacity (trim t.capacity watermarks)).Sorted := by
  have hsub := trim_sublist t.capacity watermarks
  exact ⟨h.offsets.sublist hsub, h.watermarks.sublist hsub, fun w hw => h.floor w (hsub.subset hw)⟩

/-- A put keeps the order. -/
theorem put (h : t.Sorted) (hput : t.put node = some t') : t'.Sorted := by
  obtain ⟨capacity, watermarks⟩ := t
  cases watermarks with
  | nil => cases hput
  | cons element =>
    cases hput
    apply of_trim
    have hspec := putCase_spec node element
    have hoffsets := pairwise_cons.mp h.offsets
    have hwatermarks := pairwise_cons.mp h.watermarks
    have hfloor := forall_mem_cons.mp h.floor
    cases hcase : putCase node element with
    | advance =>
      rw [hcase] at hspec
      refine ⟨pairwise_cons.mpr ⟨?_, h.offsets⟩, pairwise_cons.mpr ⟨?_, h.watermarks⟩,
        forall_mem_cons.mpr ⟨?_, h.floor⟩⟩
      · rintro w (_ | ⟨_, hw⟩)
        · exact hspec.2.le
        · exact (hoffsets.1 w hw).trans hspec.2.le
      · rintro w (_ | ⟨_, hw⟩)
        · exact hspec.1
        · exact (hwatermarks.1 w hw).trans hspec.1
      · exact hfloor.1.trans hspec.1
    | idle =>
      rw [hcase] at hspec
      refine ⟨pairwise_cons.mpr ⟨hoffsets.1, hoffsets.2⟩,
        pairwise_cons.mpr ⟨?_, hwatermarks.2⟩,
        forall_mem_cons.mpr ⟨hfloor.1.trans hspec.1.le, hfloor.2⟩⟩
      exact fun w hw => (hwatermarks.1 w hw).trans hspec.1.le
    | skip | outOfOrder | regress => exact h

end Sorted

/-! ## Answers -/

/-- The answer for an offset is the largest watermark below it. -/
theorem Sorted.getEventTime_greatest {t : OffsetTimeline} (h : t.Sorted) (o : Int) :
    (∀ w ∈ t.watermarks, w.offset < o → w.watermark ≤ t.getEventTime o) ∧
      ((∃ w ∈ t.watermarks, w.offset < o ∧ w.watermark = t.getEventTime o) ∨
        (∀ w ∈ t.watermarks, o ≤ w.offset) ∧ t.getEventTime o = -1) := by
  unfold getEventTime
  cases hbelow : t.below o with
  | none =>
    have hnone : ∀ w ∈ t.watermarks, o ≤ w.offset := by
      simpa [below] using hbelow
    exact ⟨fun w hw hlt => absurd (hnone w hw) (not_le.mpr hlt), .inr ⟨hnone, rfl⟩⟩
  | some v =>
    obtain ⟨hv, as, bs, hsplit, hbefore⟩ := List.find?_eq_some_iff_append.mp hbelow
    have hpair := h.watermarks
    rw [hsplit, pairwise_append, pairwise_cons] at hpair
    refine ⟨fun w hw hlt => ?_, .inl ⟨v, ?_, by simpa using hv, rfl⟩⟩
    · rw [hsplit] at hw
      rcases mem_append.mp hw with hw | hw
      · have hnot := hbefore w hw
        simp [hlt] at hnot
      · rcases mem_cons.mp hw with rfl | hw
        · exact le_refl _
        · exact hpair.2.1.1 w hw
    · rw [hsplit]
      exact mem_append_right _ mem_cons_self

/-- A sorted timeline answers no less for a later offset. -/
theorem Sorted.getEventTime_mono {t : OffsetTimeline} (h : t.Sorted) (ho : o ≤ o') :
    t.getEventTime o ≤ t.getEventTime o' := by
  obtain ⟨hle, hexact⟩ := h.getEventTime_greatest o'
  rcases (h.getEventTime_greatest o).2 with ⟨w, hw, hlt, heq⟩ | ⟨-, heq⟩
  · rw [← heq]
    exact hle w hw (by omega)
  · rw [heq]
    rcases hexact with ⟨w, hw, -, heq'⟩ | ⟨-, heq'⟩
    · exact heq' ▸ h.floor w hw
    · exact heq'.ge

/-- Whatever the timeline answers for the offset, or for a later one, is at least the
given watermark. -/
def Covers (t : OffsetTimeline) (inputOffset watermark : Int) : Prop :=
  ∀ o, inputOffset ≤ o → ∀ w ∈ t.below o, watermark ≤ w.watermark

namespace Covers

variable {t t' : OffsetTimeline} {inputOffset watermark : Int}

theorem of_getEventTime (h : t.Sorted) (inputOffset : Int) :
    t.Covers inputOffset (t.getEventTime inputOffset) := by
  intro o ho w hw
  have hmono := h.getEventTime_mono ho
  rwa [getEventTime.eq_def t o, hw] at hmono

variable (h : t.Covers inputOffset watermark)

include h

variable {v : Int} {w : Wmb}

theorem mono (ho : inputOffset ≤ o) (hv : v ≤ watermark) : t.Covers o v :=
  fun o' ho' w hw => hv.trans (h o' (ho.trans ho') w hw)

/-- The answer for a later offset, when there is one. -/
theorem le_getEventTime (ho : inputOffset ≤ o)
    (hbelow : (t.below o).isSome = true) : watermark ≤ t.getEventTime o := by
  obtain ⟨w, hw⟩ := Option.isSome_iff_exists.mp hbelow
  unfold getEventTime
  rw [hw]
  exact h o ho w hw

omit h in
/-- What is left after trimming answers as before. -/
theorem below_trim {capacity : Nat} {watermarks : List Wmb}
    (hw : (OffsetTimeline.mk capacity (trim capacity watermarks)).below o = some w) :
    (OffsetTimeline.mk capacity watermarks).below o = some w := by
  unfold below trim at *
  split_ifs at hw with hlen
  · have hne : watermarks ≠ [] := by
      rintro rfl
      simp at hlen
    rw [← dropLast_concat_getLast hne, List.find?_append, hw]
    rfl
  · exact hw

/-- A put never makes an answer smaller. -/
theorem put (hput : t.put node = some t') : t'.Covers inputOffset watermark := by
  obtain ⟨capacity, watermarks⟩ := t
  cases watermarks with
  | nil => cases hput
  | cons element =>
    cases hput
    intro o ho w hw
    have hw := below_trim hw
    have hold := h o ho
    have hspec := putCase_spec node element
    cases hcase : putCase node element with
    | advance =>
      rw [hcase] at hspec hw
      simp only [below, List.find?_cons] at hw hold
      by_cases hnode : node.offset < o
      · -- the old head has a smaller offset still, and answered before
        have helement : element.offset < o := by omega
        simp only [hnode, decide_true, Option.some.injEq] at hw
        simp only [helement, decide_true, Option.mem_some_iff, forall_eq'] at hold
        rw [← hw]
        omega
      · simp only [hnode, decide_false] at hw
        exact hold w hw
    | idle =>
      rw [hcase] at hspec hw
      simp only [below, List.find?_cons] at hw hold
      by_cases helement : element.offset < o
      · simp only [helement, decide_true, Option.some.injEq] at hw
        simp only [helement, decide_true, Option.mem_some_iff, forall_eq'] at hold
        rw [← hw]
        simp only
        omega
      · simp only [helement, decide_false] at hw hold
        exact hold w hw
    | skip | outOfOrder | regress =>
      rw [hcase] at hw
      exact hold w hw

end Covers

/-! ## Sequences of puts -/

theorem trim_cons {capacity : Nat} (hcapacity : 0 < capacity) (w : Wmb) (watermarks : List Wmb) :
    ∃ rest, trim capacity (w :: watermarks) = w :: rest := by
  unfold trim
  split_ifs with hlen
  · cases watermarks with
    | nil =>
      simp only [length_singleton] at hlen
      omega
    | cons => exact ⟨_, dropLast_cons_cons⟩
  · exact ⟨watermarks, rfl⟩

/-- A full timeline, whose offsets decrease from the head down to the default messages that it
was filled with. -/
structure Full (t : OffsetTimeline) : Prop where
  length : t.watermarks.length = t.capacity
  sorted : t.Sorted
  strict : t.watermarks.Pairwise fun newer older => older ≠ {} → older.offset < newer.offset

variable {t t' : OffsetTimeline}

/-- A put succeeds, and the head does not fall behind. -/
theorem Full.put (h : t.Full) (hcapacity : 1 ≤ t.capacity) (node : Wmb) :
    ∃ t', t.put node = some t' ∧ t'.capacity = t.capacity ∧ t'.Full ∧
      t.getHeadOffset ≤ t'.getHeadOffset ∧ t.getHeadWatermark ≤ t'.getHeadWatermark := by
  obtain ⟨hlength, hsorted, hstrict⟩ := h
  obtain ⟨capacity, watermarks⟩ := t
  cases watermarks with
  | nil =>
    simp only [length_nil] at hlength hcapacity
    omega
  | cons element rest =>
    have htrim : ∀ head rest', rest'.length = rest.length ∨ rest'.length = rest.length + 1 →
        (trim capacity (head :: rest')).length = capacity ∧
          ∃ rest'', trim capacity (head :: rest') = head :: rest'' := by
      intro head rest' hrest'
      refine ⟨?_, trim_cons hcapacity head rest'⟩
      simp only [length_cons] at hlength
      unfold trim
      split_ifs with hlen <;> simp only [length_dropLast, length_cons] at hlen ⊢ <;> omega
    have hspec := putCase_spec node element
    have hoffsets := pairwise_cons.mp hsorted.offsets
    refine ⟨_, rfl, rfl, ⟨?_, hsorted.put rfl, ?_⟩, ?_⟩
    · cases putCase node element with
      | advance => exact (htrim _ _ (.inr rfl)).1
      | idle | skip | outOfOrder | regress => exact (htrim _ _ (.inl rfl)).1
    · refine List.Pairwise.sublist (trim_sublist ..) ?_
      cases hcase : putCase node element with
      | advance =>
        rw [hcase] at hspec
        refine pairwise_cons.mpr ⟨?_, hstrict⟩
        rintro w (_ | ⟨_, hw⟩) _
        · exact hspec.2
        · exact (hoffsets.1 w hw).trans_lt hspec.2
      | idle => exact pairwise_cons.mpr (pairwise_cons.mp hstrict)
      | skip | outOfOrder | regress => exact hstrict
    · cases hcase : putCase node element with
      | advance =>
        rw [hcase] at hspec
        obtain ⟨rest', hrest'⟩ := (htrim node (element :: rest) (.inr rfl)).2
        simp only [getHeadOffset, getHeadWatermark, hrest']
        exact ⟨hspec.2.le, hspec.1⟩
      | idle =>
        rw [hcase] at hspec
        obtain ⟨rest', hrest'⟩ :=
          (htrim { element with watermark := node.watermark } rest (.inl rfl)).2
        simp only [getHeadOffset, getHeadWatermark, hrest']
        exact ⟨le_refl _, hspec.1.le⟩
      | skip | outOfOrder | regress =>
        obtain ⟨rest', hrest'⟩ := (htrim element rest (.inl rfl)).2
        simp only [getHeadOffset, getHeadWatermark, hrest']
        exact ⟨le_refl _, le_refl _⟩

/-- What a timeline is for: apart from the default messages it is ordered, and it finds the
largest watermark below an offset. -/
structure Searchable (t : OffsetTimeline) : Prop where
  length : t.watermarks.length = t.capacity
  ordered : (t.watermarks.filter (· ≠ {})).Pairwise fun newer older =>
    older.offset < newer.offset ∧ older.watermark ≤ newer.watermark
  greatest : ∀ o, (∀ w ∈ t.watermarks, w.offset < o → w.watermark ≤ t.getEventTime o) ∧
    ((∃ w ∈ t.watermarks, w.offset < o ∧ w.watermark = t.getEventTime o) ∨
      (∀ w ∈ t.watermarks, o ≤ w.offset) ∧ t.getEventTime o = -1)
  monotone : ∀ o o', o ≤ o' → t.getEventTime o ≤ t.getEventTime o'

theorem Full.searchable (h : t.Full) : t.Searchable := by
  refine ⟨h.length, ?_, h.sorted.getEventTime_greatest, fun o o' ho => h.sorted.getEventTime_mono ho⟩
  refine ((h.strict.and h.sorted.watermarks).filter _).imp_of_mem ?_
  intro newer older _ hmem hpair
  exact ⟨hpair.1 (by simpa using (mem_filter.mp hmem).2), hpair.2⟩

theorem Full.new : (new capacity).Full :=
  ⟨length_replicate, Sorted.new capacity,
    pairwise_replicate.mpr (.inr (absurd rfl))⟩

theorem Full.puts (h : t.Full) (hcapacity : 1 ≤ t.capacity) (nodes : List Wmb) :
    ∃ t', nodes.foldlM OffsetTimeline.put t = some t' ∧ t'.capacity = t.capacity ∧ t'.Full ∧
      t.getHeadOffset ≤ t'.getHeadOffset ∧ t.getHeadWatermark ≤ t'.getHeadWatermark := by
  induction nodes generalizing t with
  | nil => exact ⟨t, rfl, rfl, h, le_refl _, le_refl _⟩
  | cons node _ ih =>
    obtain ⟨t₁, hput, hsame, hfull, hoffset, hwatermark⟩ := h.put hcapacity node
    obtain ⟨t', hputs, hsame', hfull', hoffset', hwatermark'⟩ := ih hfull (hsame ▸ hcapacity)
    refine ⟨t', ?_, hsame'.trans hsame, hfull', hoffset.trans hoffset', hwatermark.trans hwatermark'⟩
    rw [foldlM_cons, hput]
    exact hputs

/-- Whatever is put, the timeline stays full, ordered and searchable, and its head never falls
behind. -/
theorem searchable_puts {capacity : Nat} (hcapacity : 1 ≤ capacity) (before after : List Wmb) :
    ∃ t t', before.foldlM put (new capacity) = some t ∧ after.foldlM put t = some t' ∧
      t'.capacity = capacity ∧ t'.Searchable ∧ t.getHeadOffset ≤ t'.getHeadOffset ∧
      t.getHeadWatermark ≤ t'.getHeadWatermark := by
  obtain ⟨t, hbefore, hsame, hfull, -⟩ := (Full.new capacity).puts hcapacity before
  obtain ⟨t', hafter, hsame', hfull', hheads⟩ := hfull.puts (hsame ▸ hcapacity) after
  exact ⟨t, t', hbefore, hafter, hsame'.trans hsame, hfull'.searchable, hheads⟩

/-- Messages that are taken, out of order, idle and regressing, in a timeline for two. -/
theorem searchable_puts_two :
    ∃ t t', [⟨false, 5, 10, 0, none⟩].foldlM put (new 2) = some t ∧
      [⟨false, 3, 20, 0, none⟩, ⟨true, 5, 30, 0, none⟩, ⟨false, 9, 20, 0, none⟩].foldlM put t =
        some t' ∧ t'.capacity = 2 ∧ t'.Searchable ∧ t.getHeadOffset ≤ t'.getHeadOffset ∧
      t.getHeadWatermark ≤ t'.getHeadWatermark :=
  searchable_puts (by decide) _ _

end OffsetTimeline
end Numaflow.Watermark
