import Numaflow.Watermark.Fetcher

/-!
# Publishing watermarks

A processor publishes watermarks for the partitions of the vertices it writes to.  For
every partition it keeps the highest offset and the highest watermark that it has seen,
and it writes them to the store of the vertex when the configured delay has passed since
the last write.  The readers put what they see of these writes into timelines.

Main results: `OffsetTimeline.deliver_of_le`, `Ordered.step`, `deliver_sublist`.
-/

namespace Numaflow.Watermark

open Lib

/-! ## Delivery -/

/-- The second message is not behind the first in offset or watermark. -/
def Wmb.NotBehind (older newer : Wmb) : Prop :=
  older.offset ≤ newer.offset ∧ older.watermark ≤ newer.watermark

namespace OffsetTimeline

/-- A put of the message is reported as out of order or regressing. -/
def rejects (t : OffsetTimeline) (node : Wmb) : Bool :=
  t.watermarks.head?.any fun element =>
    putCase node element = .outOfOrder || putCase node element = .regress

/-- Put messages one after the other, until one is rejected. -/
def deliver (t : OffsetTimeline) (nodes : List Wmb) : Option OffsetTimeline :=
  nodes.foldlM (fun t node => if t.rejects node then none else t.put node) t

variable {rest nodes : List Wmb} {element node : Wmb}

/-- A message that is not behind the head becomes the head. -/
theorem put_of_notBehind {t : OffsetTimeline} (hcapacity : 0 < t.capacity)
    (ht : t.watermarks = element :: rest) (h : element.NotBehind node) :
    t.rejects node = false ∧ ∃ t' head rest', t.put node = some t' ∧ t'.capacity = t.capacity ∧
      t'.watermarks = head :: rest' ∧ head.offset = node.offset ∧
      head.watermark = node.watermark := by
  obtain ⟨hoffset, hwatermark⟩ := h
  have hspec := putCase_spec node element
  simp only [rejects, put, ht, List.head?_cons, Option.any_some]
  cases hcase : putCase node element with
  | advance =>
    obtain ⟨rest', hrest'⟩ := trim_cons hcapacity node (element :: rest)
    exact ⟨by decide, _, node, rest', rfl, rfl, hrest', rfl, rfl⟩
  | skip =>
    rw [hcase] at hspec
    obtain ⟨rest', hrest'⟩ := trim_cons hcapacity element rest
    exact ⟨by decide, _, element, rest', rfl, rfl, hrest', by omega, by omega⟩
  | idle =>
    rw [hcase] at hspec
    obtain ⟨rest', hrest'⟩ := trim_cons hcapacity { element with watermark := node.watermark } rest
    exact ⟨by decide, _, _, rest', rfl, rfl, hrest', hspec.2.symm, rfl⟩
  | outOfOrder | regress =>
    rw [hcase] at hspec
    omega

/-- Messages that never fall behind are all taken, and the last one is the head. -/
theorem deliver_of_le {t : OffsetTimeline} (hcapacity : 0 < t.capacity)
    (ht : t.watermarks = element :: rest) (hnodes : (element :: nodes).Pairwise Wmb.NotBehind) :
    ∃ t', t.deliver nodes = some t' ∧ ∀ last ∈ nodes.getLast?, t'.getHeadOffset = last.offset ∧
        t'.getHeadWatermark = last.watermark := by
  induction nodes generalizing t element rest with
  | nil => exact ⟨t, rfl, fun last hlast => by cases hlast⟩
  | cons node nodes ih =>
    rw [List.pairwise_cons] at hnodes
    obtain ⟨hrejects, t₁, head, rest', hput, hcapacity₁, hhead, hoffset, hwatermark⟩ :=
      put_of_notBehind hcapacity ht (hnodes.1 node List.mem_cons_self)
    have hnodes₁ : (head :: nodes).Pairwise Wmb.NotBehind := by
      obtain ⟨hall, htail⟩ := List.pairwise_cons.mp hnodes.2
      refine List.pairwise_cons.mpr ⟨fun w hw => ?_, htail⟩
      unfold Wmb.NotBehind
      rw [hoffset, hwatermark]
      exact hall w hw
    obtain ⟨t', hdeliver, hlast⟩ := ih (hcapacity₁ ▸ hcapacity) hhead hnodes₁
    refine ⟨t', ?_, fun last hmem => ?_⟩
    · simp only [deliver, List.foldlM_cons, hrejects, Bool.false_eq_true, if_false, hput]
      exact hdeliver
    · cases nodes with
      | nil =>
        cases hdeliver
        cases hmem
        simp only [getHeadOffset, getHeadWatermark, hhead, List.head?_cons, Option.elim_some]
        exact ⟨hoffset, hwatermark⟩
      | cons => exact hlast last (by rwa [List.getLast?_cons_cons] at hmem)

end OffsetTimeline

/-! ## The publisher -/

/-- The best offset and watermark of a partition and the time of the last write. -/
structure LastPublishedState where
  offset : Int := -1
  watermark : Int := -1
  lastPublishedTime : Int
  delay : Option Nat

namespace LastPublishedState

/-- The delay has passed since the last write. -/
def delayCrossed (st : LastPublishedState) (now : Int) : Bool :=
  match st.delay with
  | some delay => decide ((delay : Int) ≤ now - st.lastPublishedTime)
  | none => true

/-- Keep the highest values.  The last component tells whether the watermark of a higher
offset was lower. -/
def update (st : LastPublishedState) (offset watermark : Int) : LastPublishedState × Bool :=
  if st.offset < offset then
    ({ st with offset := offset, watermark := max st.watermark watermark },
      decide (watermark ≠ -1 ∧ watermark < st.watermark))
  else ({ st with watermark := max st.watermark watermark }, false)

end LastPublishedState

/-- The stream of a partition of a downstream vertex. -/
structure Stream where
  vertex : String
  partition : Nat
deriving DecidableEq

/-- The publisher of a processor.  A store holds what was put into it, oldest first. -/
structure ISBWatermarkPublisher where
  lastPublishedWm : HashMap String (HashMap Nat LastPublishedState)
  otStores : HashMap String (List Wmb)

/-- A call of the publisher, with the clock readings for the delay and for the time of the
write, and whether the store fails. -/
structure PublishCall where
  stream : Stream
  offset : Int
  watermark : Int
  idle : Bool
  processorCount : Option Nat := none
  now : Int
  publishedAt : Int
  storeFails : Bool := false

namespace ISBWatermarkPublisher

/-- A publisher that has not written anything. -/
def new (otStores : List String) (configs : List BucketConfig) (now : Int) :
    ISBWatermarkPublisher where
  lastPublishedWm := configs.foldl (fun m config =>
    m.insert config.vertex
      (config.partitions.foldl (fun states partition =>
        states.insert partition { lastPublishedTime := now, delay := config.delay }) ∅)) ∅
  otStores := otStores.foldl (fun m vertex => m.insert vertex []) ∅

section

variable (b : ISBWatermarkPublisher)

/-- Update the state of the stream and write its best values when the delay has passed.
The code stops when it does not know the vertex, the partition or the store; a store that
fails is ignored. -/
def publishWatermark (c : PublishCall) :
    Option ISBWatermarkPublisher :=
  match b.lastPublishedWm.lookup c.stream.vertex with
  | none => none
  | some states =>
    match states.lookup c.stream.partition with
    | none => none
    | some st =>
      let best := (st.update c.offset c.watermark).1
      let put := fun last : LastPublishedState =>
        b.lastPublishedWm.insert c.stream.vertex (states.insert c.stream.partition last)
      if best.delayCrossed c.now then
        match b.otStores.lookup c.stream.vertex with
        | none => none
        | some written =>
          let wmb : Wmb :=
            { idle := c.idle
              offset := best.offset
              watermark := best.watermark
              partition := c.stream.partition
              processorCount := c.processorCount }
          some
            { lastPublishedWm := put { best with lastPublishedTime := c.publishedAt }
              otStores :=
                if c.storeFails then b.otStores
                else b.otStores.insert c.stream.vertex (written ++ [wmb]) }
      else some { b with lastPublishedWm := put best }

/-- A call that stops the process is not followed by others. -/
def step (c : PublishCall) : ISBWatermarkPublisher :=
  (b.publishWatermark c).getD b

/-- The state of a partition. -/
def state (vertex : String) (partition : Nat) :
    Option LastPublishedState :=
  (b.lastPublishedWm.lookup vertex).bind fun states => states.lookup partition

/-- What was written for a partition, oldest first. -/
def written (vertex : String) (partition : Nat) : List Wmb :=
  ((b.otStores.lookup vertex).getD []).filter fun w => w.partition = partition

end

/-! ## One call -/

variable {b b' : ISBWatermarkPublisher} {c : PublishCall} {vertex : String}
  {states : HashMap Nat LastPublishedState} {partition : Nat}

theorem state_insert (hstates : b.lastPublishedWm.lookup vertex = some states)
    (last : LastPublishedState) (stores : HashMap String (List Wmb)) (v : String) (p : Nat) :
    state ⟨b.lastPublishedWm.insert vertex (states.insert partition last), stores⟩ v p =
      if v = vertex ∧ p = partition then some last else b.state v p :=
  HashMap.lookup_insert_insert hstates partition last v p

theorem written_insert {written : List Wmb} (hwritten : b.otStores.lookup vertex = some written)
    (wmb : Wmb) (states : HashMap String (HashMap Nat LastPublishedState)) (v : String) (p : Nat) :
    ISBWatermarkPublisher.written ⟨states, b.otStores.insert vertex (written ++ [wmb])⟩ v p =
      b.written v p ++ if v = vertex ∧ p = wmb.partition then [wmb] else [] := by
  unfold ISBWatermarkPublisher.written
  by_cases hv : v = vertex
  · subst hv
    rw [hwritten]
    by_cases hp : p = wmb.partition
    · simp [hp]
    · simp [hp, Ne.symm hp]
  · simp [hv]

/-- The effect of a call: the best values of the stream grow, and nothing or the best
values are written for the stream. -/
structure Published (c : PublishCall) (b b' : ISBWatermarkPublisher) : Prop where
  stream : ∃ st last, b.state c.stream.vertex c.stream.partition = some st ∧
    b'.state c.stream.vertex c.stream.partition = some last ∧
    last.offset = max st.offset c.offset ∧ last.watermark = max st.watermark c.watermark ∧
    (b'.written c.stream.vertex c.stream.partition =
        b.written c.stream.vertex c.stream.partition ∨
      ∃ wmb : Wmb, wmb.offset = last.offset ∧ wmb.watermark = last.watermark ∧
        b'.written c.stream.vertex c.stream.partition =
          b.written c.stream.vertex c.stream.partition ++ [wmb])
  others : ∀ v p, ¬(v = c.stream.vertex ∧ p = c.stream.partition) →
    b'.state v p = b.state v p ∧ b'.written v p = b.written v p

end ISBWatermarkPublisher

namespace LastPublishedState

theorem update_offset (st : LastPublishedState) (offset watermark : Int) :
    (st.update offset watermark).1.offset = max st.offset offset := by
  unfold update
  split_ifs with h
  · exact (max_eq_right h.le).symm
  · exact (max_eq_left (not_lt.mp h)).symm

theorem update_watermark (st : LastPublishedState) (offset watermark : Int) :
    (st.update offset watermark).1.watermark = max st.watermark watermark := by
  unfold update
  split_ifs
  · rfl
  · rfl

end LastPublishedState

namespace ISBWatermarkPublisher

variable {b b' : ISBWatermarkPublisher} {c : PublishCall}

/-- What a publication changes. -/
theorem Published.of_publishWatermark (h : b.publishWatermark c = some b') : Published c b b' := by
  unfold publishWatermark at h
  split at h
  case h_1 => cases h
  case h_2 states hstates =>
    split at h
    case h_1 => cases h
    case h_2 st hst =>
      have hstate : b.state c.stream.vertex c.stream.partition = some st := by
        rw [state, hstates, Option.bind_some, hst]
      have hoffset := st.update_offset c.offset c.watermark
      have hwatermark := st.update_watermark c.offset c.watermark
      set best := (st.update c.offset c.watermark).1
      simp only at h
      split_ifs at h with hcrossed hfails
      · split at h
        case h_1 => cases h
        case h_2 written hwritten =>
          cases h
          refine ⟨⟨st, { best with lastPublishedTime := c.publishedAt }, hstate, ?_, hoffset,
            hwatermark, .inl rfl⟩, fun v p hne => ⟨?_, rfl⟩⟩
          · rw [state_insert hstates, if_pos ⟨rfl, rfl⟩]
          · rw [state_insert hstates, if_neg hne]
      · split at h
        case h_1 => cases h
        case h_2 written hwritten =>
          cases h
          refine ⟨⟨st, { best with lastPublishedTime := c.publishedAt }, hstate, ?_, hoffset,
            hwatermark, .inr ⟨⟨c.idle, best.offset, best.watermark, c.stream.partition,
              c.processorCount⟩, rfl, rfl, ?_⟩⟩, fun v p hne => ⟨?_, ?_⟩⟩
          · rw [state_insert hstates, if_pos ⟨rfl, rfl⟩]
          · rw [written_insert hwritten, if_pos ⟨rfl, rfl⟩]
          · rw [state_insert hstates, if_neg hne]
          · rw [written_insert hwritten, if_neg hne, List.append_nil]
      · cases h
        refine ⟨⟨st, best, hstate, ?_, hoffset, hwatermark, .inl rfl⟩, fun v p hne => ⟨?_, rfl⟩⟩
        · rw [state_insert hstates, if_pos ⟨rfl, rfl⟩]
        · rw [state_insert hstates, if_neg hne]

/-! ## All calls -/

/-- What was written never decreases, starting at the default message, and the best values
are not behind it. -/
structure Ordered (b : ISBWatermarkPublisher) : Prop where
  written : ∀ v p, (({} : Wmb) :: b.written v p).Pairwise Wmb.NotBehind
  best : ∀ v p st, b.state v p = some st → ∀ w ∈ ({} : Wmb) :: b.written v p,
    w.offset ≤ st.offset ∧ w.watermark ≤ st.watermark

theorem written_new (otStores : List String) (configs : List BucketConfig) (now : Int)
    (v : String) (p : Nat) : (new otStores configs now).written v p = [] := by
  unfold written
  cases hstore : (new otStores configs now).otStores.lookup v with
  | none => rfl
  | some l =>
    have hnil := HashMap.forall_foldl_insert (P := fun l : List Wmb => l = [])
      (fun k v hk => by simp at hk) (fun _ _ => rfl) v l hstore
    rw [hnil]
    rfl

variable {configs : List BucketConfig} {now : Int} {v : String} {p : Nat} {st : LastPublishedState}

theorem state_new {otStores : List String} (hst : (new otStores configs now).state v p = some st) :
    st.offset = -1 ∧ st.watermark = -1 := by
  obtain ⟨states, hstates, hst⟩ := Option.bind_eq_some_iff.mp hst
  exact HashMap.forall_foldl_insert (P := fun states : HashMap Nat LastPublishedState =>
      ∀ p st, states.lookup p = some st → st.offset = -1 ∧ st.watermark = -1)
    (fun k v hk => by simp at hk)
    (fun config _ => HashMap.forall_foldl_insert (fun k v hk => by simp at hk)
      fun _ _ => ⟨rfl, rfl⟩) v states hstates p st hst

namespace Ordered

theorem new (otStores : List String) (configs : List BucketConfig) (now : Int) :
    (new otStores configs now).Ordered := by
  refine ⟨fun v p => ?_, fun v p st hst w hw => ?_⟩
  · rw [written_new]
    exact List.pairwise_singleton _ _
  · obtain ⟨hoffset, hwatermark⟩ := state_new hst
    rw [written_new, List.mem_singleton] at hw
    rw [hw, hoffset, hwatermark]
    exact ⟨le_refl _, le_refl _⟩

theorem published (h : b.Ordered) (hb : Published c b b') : b'.Ordered := by
  obtain ⟨st, last, hst, hlast, hoffset, hwatermark, hwritten⟩ := hb.stream
  have hbest : ∀ w ∈ ({} : Wmb) :: b.written c.stream.vertex c.stream.partition,
      w.offset ≤ last.offset ∧ w.watermark ≤ last.watermark := by
    intro w hw
    have hw := h.best _ _ st hst w hw
    omega
  refine ⟨fun v p => ?_, fun v p st' hst' w hw => ?_⟩
  · by_cases hsame : v = c.stream.vertex ∧ p = c.stream.partition
    · rw [hsame.1, hsame.2]
      rcases hwritten with hwritten | ⟨wmb, hwo, hww, hwritten⟩
      · rw [hwritten]
        exact h.written _ _
      · rw [hwritten, ← List.cons_append, List.pairwise_append]
        refine ⟨h.written _ _, List.pairwise_singleton _ _, fun w hw w' hw' => ?_⟩
        rw [List.mem_singleton.mp hw', Wmb.NotBehind, hwo, hww]
        exact hbest w hw
    · rw [(hb.others v p hsame).2]
      exact h.written v p
  · by_cases hsame : v = c.stream.vertex ∧ p = c.stream.partition
    · rw [hsame.1, hsame.2] at hst' hw
      rw [hlast, Option.some.injEq] at hst'
      subst hst'
      rcases hwritten with hwritten | ⟨wmb, hwo, hww, hwritten⟩
      · rw [hwritten] at hw
        exact hbest w hw
      · rw [hwritten, ← List.cons_append, List.mem_append, List.mem_singleton] at hw
        rcases hw with hw | rfl
        · exact hbest w hw
        · exact ⟨hwo.le, hww.le⟩
    · rw [(hb.others v p hsame).1] at hst'
      rw [(hb.others v p hsame).2] at hw
      exact h.best v p st' hst' w hw

theorem step (h : b.Ordered) : (b.step c).Ordered := by
  unfold ISBWatermarkPublisher.step
  cases hb : b.publishWatermark c with
  | none => exact h
  | some => exact h.published (Published.of_publishWatermark hb)

end Ordered

/-- Whatever is published, the pairs that are written for a partition never decrease, and a
timeline that gets some of them in order takes them all and ends with the last one. -/
theorem deliver_sublist (otStores : List String) (configs : List BucketConfig) (start : Int)
    (calls : List PublishCall) (vertex : String) (partition : Nat) {delivered : List Wmb}
    {capacity : Nat} (hcapacity : 0 < capacity)
    (hdelivered : delivered.Sublist
      ((exec step (new otStores configs start) calls).written vertex partition)) :
    ((exec step (new otStores configs start) calls).written vertex partition).Pairwise
        Wmb.NotBehind ∧
      ∃ t, (OffsetTimeline.new capacity).deliver delivered = some t ∧
        ∀ last ∈ delivered.getLast?, t.getHeadOffset = last.offset ∧
          t.getHeadWatermark = last.watermark := by
  have hordered : (exec step (new otStores configs start) calls).Ordered :=
    exec_invariant_all (fun _ _ h => Ordered.step h) (Ordered.new otStores configs start)
  have hwritten := hordered.written vertex partition
  obtain ⟨n, rfl⟩ := Nat.exists_eq_succ_of_ne_zero hcapacity.ne'
  refine ⟨(List.pairwise_cons.mp hwritten).2, ?_⟩
  exact OffsetTimeline.deliver_of_le (t := OffsetTimeline.new (n + 1)) (Nat.succ_pos n)
    List.replicate_succ (hwritten.sublist (List.cons_sublist_cons.mpr hdelivered))

/-- A call for the only stream of a vertex, without a delay. -/
def outCall (offset watermark : Int) : PublishCall where
  stream := ⟨"out", 0⟩
  offset := offset
  watermark := watermark
  idle := false
  now := 0
  publishedAt := 0

/-- The publisher of that stream after the calls. -/
def outPublisher (calls : List PublishCall) : ISBWatermarkPublisher :=
  exec step (new ["out"] [⟨"out", [0], none⟩] 0) calls

/-- The second write of three is lost; the third call brings a lower watermark. -/
theorem outPublisher_deliver :
    ((outPublisher [outCall 5 100, outCall 3 150, outCall 7 20]).written "out" 0).Pairwise
        Wmb.NotBehind ∧
      ∃ t, (OffsetTimeline.new 1).deliver
          [⟨false, 5, 100, 0, none⟩, ⟨false, 7, 150, 0, none⟩] = some t ∧
        ∀ last ∈ [(⟨false, 5, 100, 0, none⟩ : Wmb), ⟨false, 7, 150, 0, none⟩].getLast?,
          t.getHeadOffset = last.offset ∧ t.getHeadWatermark = last.watermark :=
  deliver_sublist ["out"] [⟨"out", [0], none⟩] 0 _
    "out" 0 Nat.one_pos (by decide)

/-- A timeline without capacity has no head, and the first put stops the reader. -/
theorem outPublisher_deliver_zero :
    (outPublisher [outCall 5 100]).written "out" 0 = [⟨false, 5, 100, 0, none⟩] ∧
      (OffsetTimeline.new 0).put ⟨false, 5, 100, 0, none⟩ = none ∧
      (OffsetTimeline.new 0).deliver [⟨false, 5, 100, 0, none⟩] = none := by
  decide

end ISBWatermarkPublisher
end Numaflow.Watermark
