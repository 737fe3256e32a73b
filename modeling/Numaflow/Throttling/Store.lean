import Numaflow.Lib.Fold
import Numaflow.Lib.HashMap
import Numaflow.Lib.Run

/-!
# The in-memory store of the rate limiter

The processors that share a rate limit register with a store, report to it the pool size
they believe in, and learn from it whether all of them report the same size.  The store
forgets a processor whose last heartbeat is too old.

Main results: `Refines.step`, `syncPoolSize_eq_expected_iff`.
-/

namespace Numaflow.Throttling

open Lib AList Option

/-- What the store tells a processor about the reported pool sizes. -/
inductive Consensus where
  | agree (poolSize : Nat)
  | disagree (poolSize : Nat)
deriving DecidableEq, Repr

/-- The largest machine word. -/
def usizeMax : Nat := 18446744073709551615

/-- Addition of machine words, which wraps around. -/
def wrappingAdd (a b : Nat) : Nat :=
  (a + b) % (usizeMax + 1)

theorem wrappingAdd_of_le {a b : Nat} (h : a + b ≤ usizeMax) : wrappingAdd a b = a + b :=
  Nat.mod_eq_of_lt (Nat.lt_succ_of_le h)

theorem wrappingAdd_le (a b : Nat) : wrappingAdd a b ≤ a + b :=
  Nat.mod_le _ _

/-- The store.  `F` is the type of the token rates that processors leave behind. -/
structure InMemoryStore (F : Type) where
  heartbeats : HashMap String Int
  reportedPool : HashMap String Nat
  prevMaxFilled : HashMap String (Int × F)
  staleAge : Nat

namespace InMemoryStore

variable {F : Type}

/-- An empty store. -/
def withTtl (staleAge : Nat) : InMemoryStore F :=
  ⟨∅, ∅, ∅, staleAge⟩

section

variable (s : InMemoryStore F)

/-- A heartbeat that is too old. -/
def isStale (now lastHeartbeat : Int) : Bool :=
  decide ((s.staleAge : Int) < now - lastHeartbeat)

/-- The processors whose heartbeat is too old. -/
def staleIds (now : Int) : List String :=
  (s.heartbeats.entries.filter fun e => s.isStale now e.2).map fun e => e.1

/-- Forget the processors whose heartbeat is too old. -/
def pruneStale (now : Int) : InMemoryStore F :=
  { s with
    heartbeats := (s.staleIds now).foldl (fun m id => m.erase id) s.heartbeats
    reportedPool := (s.staleIds now).foldl (fun m id => m.erase id) s.reportedPool }

/-- Forget the token rates that are too old. -/
def pruneStalePrevMaxFilled (now : Int) : InMemoryStore F :=
  { s with
    prevMaxFilled :=
      HashMap.filterMapVal (fun e => if s.isStale now e.1 then none else some e) s.prevMaxFilled }

/-- The pool sizes that the processors with a heartbeat reported. -/
def reports : List Nat :=
  s.heartbeats.keys.filterMap fun id => s.reportedPool.lookup id

/-- The consensus among the processors with a heartbeat. -/
def computeConsensus : Consensus :=
  let activeCount := s.heartbeats.keys.length
  if activeCount = 0 then .disagree 0
  else
    let minSize := s.reports.foldl min usizeMax
    let maxSize := s.reports.foldl max 0
    if s.reports.length ≠ activeCount then .disagree maxSize
    else if minSize = maxSize then .agree maxSize
    else .disagree maxSize

/-- Register a processor.  It gets the number of processors and the rate that a processor
of the same name left behind. -/
def register [Zero F] (s : InMemoryStore F) (processorId : String) (now : Int) :
    InMemoryStore F × Nat × F :=
  let pruned := (s.pruneStale now).pruneStalePrevMaxFilled now
  let heartbeats := pruned.heartbeats.insert processorId now
  let reported := ((pruned.reportedPool.lookup processorId).map fun e =>
    wrappingAdd e 1).getD 1
  ({ pruned with
      heartbeats := heartbeats
      reportedPool := pruned.reportedPool.insert processorId reported },
    heartbeats.keys.length, ((pruned.prevMaxFilled.lookup processorId).map Prod.snd).getD 0)

/-- Deregister a processor, which leaves its token rate behind. -/
def deregister (processorId : String) (prevMaxFilled : F) (now : Int) :
    InMemoryStore F :=
  { s with
    heartbeats := s.heartbeats.erase processorId
    reportedPool := s.reportedPool.erase processorId
    prevMaxFilled := s.prevMaxFilled.insert processorId (now, prevMaxFilled) }

/-- Report a pool size and learn the consensus, unless the caller is cancelled. -/
def syncPoolSize (processorId : String) (poolSize : Nat) (cancelled : Bool)
    (now : Int) : Option (InMemoryStore F × Consensus) :=
  if cancelled then none
  else
    let pruned := (s.pruneStale now).pruneStalePrevMaxFilled now
    let updated := { pruned with
      heartbeats := pruned.heartbeats.insert processorId now
      reportedPool := pruned.reportedPool.insert processorId poolSize }
    some (updated, updated.computeConsensus)

end

/-! ## Lookups -/

variable {s : InMemoryStore F} {now : Int}

theorem mem_staleIds {id : String} :
    id ∈ s.staleIds now ↔ ∃ beat, s.heartbeats.lookup id = some beat ∧ s.isStale now beat = true := by
  simp only [staleIds, List.mem_map, List.mem_filter]
  constructor
  · rintro ⟨e, ⟨he, hstale⟩, rfl⟩
    exact ⟨e.2, mem_lookup_iff.mpr he, hstale⟩
  · rintro ⟨beat, hbeat, hstale⟩
    exact ⟨⟨id, beat⟩, ⟨mem_lookup_iff.mp hbeat, hstale⟩, rfl⟩

theorem lookup_pruneStale (id : String) : (s.pruneStale now).heartbeats.lookup id =
        (if id ∈ s.staleIds now then none else s.heartbeats.lookup id) ∧
      (s.pruneStale now).reportedPool.lookup id =
        if id ∈ s.staleIds now then none else s.reportedPool.lookup id :=
  ⟨HashMap.lookup_foldl_erase _ _ id, HashMap.lookup_foldl_erase _ _ id⟩

end InMemoryStore

/-! ## What the processors said -/

/-- The last call of a processor that has not left: its time and what it reported. -/
structure Report where
  lastSeen : Int
  poolSize : Nat
deriving DecidableEq, Repr

/-- The processors that have not left, however old their last call is. -/
abbrev Members := HashMap String Report

/-- The processor called recently enough. -/
def Report.isLive (staleAge : Nat) (now : Int) (r : Report) : Bool :=
  decide (now - r.lastSeen ≤ staleAge)

namespace Members

/-- The processor reports a size. -/
def sync (m : Members) (processorId : String) (poolSize : Nat) (now : Int) : Members :=
  m.insert processorId ⟨now, poolSize⟩

/-- A new processor reports one; a live one that registers again reports one more. -/
def register (m : Members) (staleAge : Nat) (processorId : String) (now : Int) : Members :=
  m.insert processorId ⟨now,
    match m.lookup processorId with
    | some r => if r.isLive staleAge now then wrappingAdd r.poolSize 1 else 1
    | none => 1⟩

/-- What the live processors reported last. -/
def liveReports (m : Members) (staleAge : Nat) (now : Int) : List Nat :=
  (m.entries.filter fun e => e.2.isLive staleAge now).map fun e => e.2.poolSize

end Members

/-- The consensus as documented: agreement when all reports are the number of reports,
otherwise the largest report. -/
def expected (reports : List Nat) : Consensus :=
  if ∀ r ∈ reports, r = reports.length then .agree reports.length
  else .disagree (reports.foldl max 0)

/-- A call of the store. -/
inductive StoreCall (F : Type) where
  | register (processorId : String)
  | deregister (processorId : String) (prevMaxFilled : F)
  | sync (processorId : String) (poolSize : Nat) (cancelled : Bool)

/-- The reported size is a machine word. -/
def StoreCall.Fits {F : Type} : StoreCall F → Prop
  | .sync _ poolSize _ => poolSize ≤ usizeMax
  | _ => True

instance {F : Type} : DecidablePred (StoreCall.Fits (F := F)) := fun _ => by
  unfold StoreCall.Fits
  split <;> infer_instance

namespace InMemoryStore

variable {F : Type} [Zero F]

def step (s : InMemoryStore F) (c : Int × StoreCall F) : InMemoryStore F :=
  match c.2 with
  | .register processorId => (s.register processorId c.1).1
  | .deregister processorId prevMaxFilled => s.deregister processorId prevMaxFilled c.1
  | .sync processorId poolSize cancelled =>
    ((s.syncPoolSize processorId poolSize cancelled c.1).map Prod.fst).getD s

end InMemoryStore

namespace Members

variable {F : Type}

def step (staleAge : Nat) (m : Members) (c : Int × StoreCall F) : Members :=
  match c.2 with
  | .register processorId => m.register staleAge processorId c.1
  | .deregister processorId _ => m.erase processorId
  | .sync processorId poolSize cancelled =>
    if cancelled then m else m.sync processorId poolSize c.1

end Members

/-! ## The store keeps the live processors -/

variable {F : Type} {s : InMemoryStore F} {m : Members} {now : Int}

/-- The store holds exactly the processors that are live at the given time. -/
structure Exact (now : Int) (s : InMemoryStore F) (m : Members) : Prop where
  heartbeats : ∀ id, s.heartbeats.lookup id =
    ((m.lookup id).filter (Report.isLive s.staleAge now)).map Report.lastSeen
  reportedPool : ∀ id, s.reportedPool.lookup id =
    ((m.lookup id).filter (Report.isLive s.staleAge now)).map Report.poolSize

/-- The store holds the processors that are live at the given time, and perhaps others that
it has not forgotten yet. -/
structure Refines (time : Int) (s : InMemoryStore F) (m : Members) : Prop where
  present : ∀ id beat, s.heartbeats.lookup id = some beat →
    ∃ size, s.reportedPool.lookup id = some size ∧ m.lookup id = some ⟨beat, size⟩
  absent : ∀ id, s.heartbeats.lookup id = none → s.reportedPool.lookup id = none ∧
    ∀ r, m.lookup id = some r → r.isLive s.staleAge time = false

open InMemoryStore

open Report

variable {beat time : Int} {size : Nat}

theorem isLive_eq_not_isStale : (mk beat size).isLive s.staleAge now = !s.isStale now beat := by
  unfold isLive isStale
  by_cases h : now - beat ≤ s.staleAge
  · simp [h]
  · simp [h, not_le.mp h]

/-- Who is not live does not become live by waiting. -/
theorem Report.not_isLive_mono {staleAge : Nat} {r : Report} (h : r.isLive staleAge time = false)
    (hle : time ≤ now) : r.isLive staleAge now = false := by
  unfold isLive at *
  rw [decide_eq_false_iff_not] at *
  omega

theorem Exact.refines (h : Exact now s m) : Refines now s m := by
  refine ⟨fun id beat hbeat => ?_, fun id hnone => ?_⟩
  · rw [h.heartbeats, map_eq_some_iff] at hbeat
    obtain ⟨r, hr, rfl⟩ := hbeat
    refine ⟨r.poolSize, ?_, (filter_eq_some_iff.mp hr).1⟩
    rw [h.reportedPool, hr, map_some]
  · rw [h.heartbeats, map_eq_none_iff] at hnone
    refine ⟨by rw [h.reportedPool, hnone, map_none], fun r hr => ?_⟩
    rw [hr] at hnone
    simpa using hnone

/-- Pruning leaves exactly the live processors. -/
theorem Refines.pruneStale (h : Refines time s m) (hle : time ≤ now) :
    Exact now (s.pruneStale now) m := by
  have hboth : ∀ id, (s.pruneStale now).heartbeats.lookup id =
        ((m.lookup id).filter (isLive s.staleAge now)).map lastSeen ∧
      (s.pruneStale now).reportedPool.lookup id =
        ((m.lookup id).filter (isLive s.staleAge now)).map poolSize := by
    intro id
    rw [(lookup_pruneStale id).1, (lookup_pruneStale id).2]
    simp only [mem_staleIds]
    cases hbeat : s.heartbeats.lookup id with
    | none =>
      obtain ⟨hreported, hstale⟩ := h.absent id hbeat
      cases hr : m.lookup id with
      | none => simp [hreported]
      | some r => simp [hreported, filter_some, not_isLive_mono (hstale r hr) hle]
    | some beat =>
      obtain ⟨size, hsize, hr⟩ := h.present id beat hbeat
      rw [hr, hsize]
      by_cases hstale : s.isStale now beat = true
      · simp [hstale, filter_some, isLive_eq_not_isStale]
      · simp [hstale, filter_some, isLive_eq_not_isStale]
  exact ⟨fun id => (hboth id).1, fun id => (hboth id).2⟩

/-- A processor calls. -/
theorem Exact.insert (h : Exact now s m) (id : String) (size : Nat) : Exact now
      { s with
        heartbeats := s.heartbeats.insert id now
        reportedPool := s.reportedPool.insert id size }
      (m.insert id ⟨now, size⟩) := by
  have hlive : (Report.mk now size).isLive s.staleAge now = true := by simp [Report.isLive]
  refine ⟨fun id' => ?_, fun id' => ?_⟩
  · by_cases hid : id' = id
    · subst hid
      simp [filter_some, hlive]
    · simp only [lookup_insert_ne hid]
      exact h.heartbeats id'
  · by_cases hid : id' = id
    · subst hid
      simp [filter_some, hlive]
    · simp only [lookup_insert_ne hid]
      exact h.reportedPool id'

theorem Exact.pruneStalePrevMaxFilled (h : Exact now s m) (time : Int) :
    Exact now (s.pruneStalePrevMaxFilled time) m :=
  ⟨h.heartbeats, h.reportedPool⟩

namespace Refines

variable (h : Refines time s m)

include h

theorem mono (hle : time ≤ now) : Refines now s m :=
  ⟨h.present, fun id hnone =>
    ⟨(h.absent id hnone).1, fun r hr => not_isLive_mono ((h.absent id hnone).2 r hr) hle⟩⟩

omit h in
theorem withTtl (time : Int) (staleAge : Nat) :
    Refines time (withTtl staleAge : InMemoryStore F) ∅ := by
  refine ⟨fun id beat hbeat => ?_, fun id _ => ⟨rfl, fun r hr => ?_⟩⟩
  · cases hbeat
  · cases hr

theorem deregister (id : String) (rate : F) (t : Int) :
    Refines time (s.deregister id rate t) (m.erase id) := by
  refine ⟨fun id' beat hbeat => ?_, fun id' hnone => ?_⟩
  · simp only [InMemoryStore.deregister] at hbeat ⊢
    by_cases hid : id' = id
    · subst hid
      rw [lookup_erase] at hbeat
      cases hbeat
    · rw [lookup_erase_ne hid] at hbeat
      rw [lookup_erase_ne hid, lookup_erase_ne hid]
      exact h.present id' beat hbeat
  · simp only [InMemoryStore.deregister] at hnone ⊢
    by_cases hid : id' = id
    · subst hid
      rw [lookup_erase, lookup_erase]
      exact ⟨rfl, fun r hr => by cases hr⟩
    · rw [lookup_erase_ne hid] at hnone
      rw [lookup_erase_ne hid, lookup_erase_ne hid]
      exact h.absent id' hnone

variable {s' : InMemoryStore F} {consensus : Consensus} {c : Int × StoreCall F}
  {calls : List (Int × StoreCall F)}

/-- The store after a report. -/
theorem syncPoolSize (hle : time ≤ now) {id : String}
    (hsync : s.syncPoolSize id size false now = some (s', consensus)) :
    Exact now s' (m.sync id size now) ∧ consensus = s'.computeConsensus := by
  cases hsync
  exact ⟨((h.pruneStale hle).pruneStalePrevMaxFilled now).insert id size, rfl⟩

theorem register [Zero F] (hle : time ≤ now) (id : String) :
    Exact now (s.register id now).1 (m.register s.staleAge id now) := by
  have hpruned := (h.pruneStale hle).pruneStalePrevMaxFilled now
  have hreport : ((((s.pruneStale now).pruneStalePrevMaxFilled now).reportedPool.lookup id).map
      fun e => wrappingAdd e 1).getD 1 =
      match m.lookup id with
      | some r => if r.isLive s.staleAge now then wrappingAdd r.poolSize 1 else 1
      | none => 1 := by
    rw [hpruned.reportedPool]
    have hage : ((s.pruneStale now).pruneStalePrevMaxFilled now).staleAge = s.staleAge := rfl
    rw [hage]
    cases m.lookup id with
    | none => rfl
    | some r =>
      by_cases hlive : r.isLive s.staleAge now = true
      · simp [filter_some, hlive]
      · simp [filter_some, hlive]
  simp only [InMemoryStore.register, Members.register, hreport]
  exact hpruned.insert id _

/-- The store keeps exactly the processors with a recent heartbeat, each with what it reported last.
-/
theorem step [Zero F] (hle : time ≤ c.1) : Refines c.1 (s.step c) (m.step s.staleAge c) := by
  obtain ⟨now, call⟩ := c
  cases call with
  | register id => exact (h.register hle id).refines
  | deregister id rate => exact (h.mono hle).deregister id rate now
  | sync _ _ cancelled =>
    cases cancelled with
    | true => exact h.mono hle
    | false => exact (h.syncPoolSize hle rfl).1.refines

omit h in
theorem staleAge_step [Zero F] (s : InMemoryStore F) (c : Int × StoreCall F) :
    (s.step c).staleAge = s.staleAge := by
  obtain ⟨t, call⟩ := c
  cases call with
  | register | deregister => rfl
  | sync _ _ cancelled =>
    cases cancelled with
    | true | false => rfl

omit h in
theorem staleAge_exec [Zero F] (calls : List (Int × StoreCall F)) :
    (Lib.exec InMemoryStore.step s calls).staleAge = s.staleAge := by
  induction calls generalizing s with
  | nil => rfl
  | cons c _ ih => exact ih.trans (staleAge_step s c)

/-- After every sequence of calls the store refines what the processors said. -/
theorem exec [Zero F] (hsorted : (calls.map Prod.fst).Pairwise (· ≤ ·))
    (htime : ∀ c ∈ calls, time ≤ c.1) (hcalls : ∀ c ∈ calls, c.1 ≤ now) (hnow : time ≤ now) :
    Refines now (Lib.exec InMemoryStore.step s calls)
      (Lib.exec (Members.step s.staleAge) m calls) := by
  induction calls generalizing s m time with
  | nil => exact h.mono hnow
  | cons c _ ih =>
    rw [List.map_cons, List.pairwise_cons] at hsorted
    rw [List.forall_mem_cons] at htime hcalls
    have hnext := h.step htime.1
    have hlast := ih hnext hsorted.2 (fun c' hc' => hsorted.1 c'.1 (List.mem_map_of_mem hc'))
      hcalls.2 hcalls.1
    rwa [staleAge_step] at hlast

end Refines

/-! ## The consensus -/

theorem mem_liveIds {staleAge : Nat} {id : String} :
    id ∈ (m.entries.filter fun e => e.2.isLive staleAge now).map (fun e => e.1) ↔
      ∃ r, m.lookup id = some r ∧ r.isLive staleAge now = true := by
  simp only [List.mem_map, List.mem_filter]
  constructor
  · rintro ⟨e, ⟨he, hlive⟩, rfl⟩
    exact ⟨e.2, mem_lookup_iff.mpr he, hlive⟩
  · rintro ⟨r, hr, hlive⟩
    exact ⟨⟨id, r⟩, ⟨mem_lookup_iff.mp hr, hlive⟩, rfl⟩

/-- The processors of the store are the live ones. -/
theorem Exact.keys_perm (h : Exact now s m) : s.heartbeats.keys.Perm
      ((m.entries.filter fun e => e.2.isLive s.staleAge now).map fun e => e.1) := by
  rw [List.perm_ext_iff_of_nodup s.heartbeats.keys_nodup]
  · intro id
    rw [← mem_keys, ← lookup_isSome, h.heartbeats, mem_liveIds]
    cases m.lookup id with
    | none => simp
    | some => simp [filter_some]
  · exact m.nodupKeys.sublist List.filter_sublist

/-- What the store has recorded is what the live processors reported. -/
theorem Exact.reports_perm (h : Exact now s m) : s.reports.Perm (m.liveReports s.staleAge now) := by
  unfold reports Members.liveReports
  refine (h.keys_perm.filterMap _).trans (List.Perm.of_eq ?_)
  rw [List.filterMap_map]
  rw [List.filterMap_congr (g := fun e : Σ _ : String, Report => some e.2.poolSize)]
  · rw [List.filterMap_eq_map']
  · intro e he
    obtain ⟨hmem, hlive⟩ := List.mem_filter.mp he
    have hlookup : m.lookup e.1 = some e.2 := mem_lookup_iff.mpr hmem
    simp only [Function.comp, h.reportedPool, hlookup, filter_some, hlive, if_true, map_some]

/-- The consensus when every processor with a heartbeat has reported. -/
theorem computeConsensus_eq (hne : s.reports ≠ [])
    (hlen : s.reports.length = s.heartbeats.keys.length) (hmax : ∀ r ∈ s.reports, r ≤ usizeMax) :
    ((∃ k, ∀ r ∈ s.reports, r = k) → s.computeConsensus = .agree (s.reports.foldl max 0)) ∧
      ((¬∃ k, ∀ r ∈ s.reports, r = k) →
        s.computeConsensus = .disagree (s.reports.foldl max 0)) := by
  have hpos : s.reports.length ≠ 0 := fun hzero => hne (List.length_eq_zero_iff.mp hzero)
  have hiff := foldl_min_eq_foldl_max_iff hne hmax fun r _ => Nat.zero_le r
  simp only [computeConsensus, ← hlen, hpos, if_false, ne_eq, not_true_eq_false]
  exact ⟨fun hall => if_pos (hiff.mpr hall), fun hall => if_neg (hiff.not.mpr hall)⟩

/-- All reports are the same, but not the number of reports. -/
def Miscounts (reports : List Nat) : Prop :=
  ∃ k, (∀ r ∈ reports, r = k) ∧ k ≠ reports.length

/-- The consensus among the reports of the store is the documented one unless all reports
are the same wrong number. -/
theorem computeConsensus_eq_expected_iff (h : Exact now s m)
    (hne : m.liveReports s.staleAge now ≠ [])
    (hmax : ∀ r ∈ m.liveReports s.staleAge now, r ≤ usizeMax) :
    s.computeConsensus = expected (m.liveReports s.staleAge now) ↔
      ¬Miscounts (m.liveReports s.staleAge now) := by
  have hperm := h.reports_perm
  have hmem : ∀ r, r ∈ s.reports ↔ r ∈ m.liveReports s.staleAge now := fun r => hperm.mem_iff
  have hlen : s.reports.length = s.heartbeats.keys.length := by
    rw [hperm.length_eq, h.keys_perm.length_eq, Members.liveReports, List.length_map,
      List.length_map]
  have hne' : s.reports ≠ [] := by
    intro hnil
    rw [hnil, List.nil_perm] at hperm
    exact hne hperm
  obtain ⟨hagree, hdisagree⟩ := computeConsensus_eq hne' hlen fun r hr => hmax r ((hmem r).mp hr)
  set reports := m.liveReports s.staleAge now
  rw [foldl_max_congr hmem] at hagree hdisagree
  simp only [hmem] at hagree hdisagree
  by_cases hall : ∃ k, ∀ r ∈ reports, r = k
  · obtain ⟨k, hk⟩ := hall
    rw [hagree ⟨k, hk⟩, foldl_max_of_forall_eq hne hk (Nat.zero_le k)]
    obtain ⟨r, hr⟩ := List.exists_mem_of_ne_nil reports hne
    by_cases hcount : k = reports.length
    · have hexpected := hcount ▸ hk
      rw [expected, if_pos hexpected, ← hcount]
      refine iff_of_true rfl ?_
      rintro ⟨k', hk', hne'⟩
      exact hne' ((hk' r hr).symm.trans (hexpected r hr))
    · rw [expected, if_neg fun hexpected => hcount ((hk r hr).symm.trans (hexpected r hr))]
      exact iff_of_false (by simp) fun hnot => hnot ⟨k, hk, hcount⟩
  · rw [hdisagree hall, expected, if_neg fun hexpected => hall ⟨_, hexpected⟩]
    exact iff_of_true rfl fun hmis => hall ⟨hmis.choose, hmis.choose_spec.1⟩

namespace Members

/-- No report is larger than a machine word. -/
def Fits (m : Members) : Prop :=
  ∀ id r, m.lookup id = some r → r.poolSize ≤ usizeMax

variable {r : Report}

theorem Fits.insert (h : m.Fits) {id : String} (hr : r.poolSize ≤ usizeMax) :
    Fits (AList.insert id r m) := by
  intro id' r' hr'
  by_cases hid : id' = id
  · subst hid
    rw [lookup_insert, some.injEq] at hr'
    exact hr' ▸ hr
  · rw [lookup_insert_ne hid] at hr'
    exact h id' r' hr'

variable {staleAge : Nat}

theorem Fits.step {c : Int × StoreCall F} (h : m.Fits) (hc : c.2.Fits) : Fits (m.step staleAge c) := by
  obtain ⟨now, call⟩ := c
  cases call with
  | register id =>
    refine h.insert ?_
    have hone : 1 ≤ usizeMax := by decide
    cases m.lookup id with
    | none => exact hone
    | some =>
      simp only
      split_ifs
      · exact Nat.lt_succ_iff.mp (Nat.mod_lt _ (Nat.succ_pos _))
      · exact hone
  | deregister id =>
    intro id' r hr
    by_cases hid : id' = id
    · subst hid
      rw [Members.step, lookup_erase] at hr
      cases hr
    · rw [Members.step, lookup_erase_ne hid] at hr
      exact h id' r hr
  | sync _ _ cancelled =>
    cases cancelled with
    | true => exact h
    | false => exact h.insert hc

theorem Fits.liveReports_le (h : m.Fits) : ∀ r ∈ m.liveReports staleAge now, r ≤ usizeMax := by
  intro r hr
  obtain ⟨e, he, rfl⟩ := List.mem_map.mp hr
  exact h e.1 e.2 (mem_lookup_iff.mpr (List.mem_filter.mp he).1)

theorem Fits.exec (h : m.Fits) {calls : List (Int × StoreCall F)} (hcalls : ∀ c ∈ calls, c.2.Fits) :
    Fits (Lib.exec (Members.step staleAge) m calls) := by
  induction calls generalizing m with
  | nil => exact h
  | cons c _ ih =>
    rw [List.forall_mem_cons] at hcalls
    exact ih (h.step hcalls.1) hcalls.2

end Members

/-- After any calls at times that do not decrease, a report gets the documented consensus
exactly when the live processors do not all report one number that is not their count. -/
theorem syncPoolSize_eq_expected_iff [Zero F] (staleAge : Nat) (calls : List (Int × StoreCall F))
    (id : String) (size : Nat) (now : Int)
    (hsorted : (calls.map Prod.fst).Pairwise (· ≤ ·)) (hnow : ∀ c ∈ calls, c.1 ≤ now)
    (hcalls : ∀ c ∈ calls, c.2.Fits) (hsize : size ≤ usizeMax) :
    ((exec InMemoryStore.step (InMemoryStore.withTtl staleAge) calls).syncPoolSize id size false
        now).map Prod.snd =
      some (expected (((exec (Members.step staleAge) ∅ calls).sync id size now).liveReports
        staleAge now)) ↔
      ¬Miscounts (((exec (Members.step staleAge) ∅ calls).sync id size now).liveReports
        staleAge now) := by
  set time := (calls.map Prod.fst).foldl min now
  have htime : ∀ c ∈ calls, time ≤ c.1 := fun c hc =>
    foldl_min_le_of_mem (List.mem_map_of_mem hc)
  have hle : time ≤ now := (le_foldl_min.mp (le_refl time)).1
  have hrefines := (Refines.withTtl (F := F) time staleAge).exec hsorted htime hnow hle
  have hfits : ((exec (Members.step staleAge) ∅ calls).sync id size now).Fits := by
    refine Members.Fits.insert (Members.Fits.exec (fun id r hr => ?_) hcalls) hsize
    cases hr
  obtain ⟨s', hs', hage⟩ : ∃ s', (exec step (withTtl staleAge)
      calls).syncPoolSize id size false now = some (s', s'.computeConsensus) ∧
      s'.staleAge = staleAge := ⟨_, rfl, Refines.staleAge_exec calls⟩
  have hexact := (hrefines.syncPoolSize (le_refl now) hs').1
  have hcaller : size ∈ ((exec (Members.step staleAge) ∅ calls).sync id size now).liveReports
      staleAge now := by
    refine List.mem_map.mpr ⟨⟨id, now, size⟩, List.mem_filter.mpr ⟨?_, ?_⟩, rfl⟩
    · exact AList.mem_lookup_iff.mp (AList.lookup_insert _)
    · simp [Report.isLive]
  have hiff := computeConsensus_eq_expected_iff hexact (by rw [hage]; exact List.ne_nil_of_mem hcaller)
    hfits.liveReports_le
  rw [hage] at hiff
  rw [hs', map_some, some.injEq]
  exact hiff

/-- Two processors join and report that they are two. -/
def twoJoin : List (Int × StoreCall Nat) :=
  [(0, .register "a"), (1, .register "b"), (2, .sync "a" 2 false), (3, .sync "b" 2 false)]

theorem twoJoin_not_miscounts :
    ((exec InMemoryStore.step (InMemoryStore.withTtl 180) twoJoin).syncPoolSize "a" 2 false
        4).map Prod.snd = some (.agree 2) ∧
      ¬Miscounts (((exec (Members.step 180) ∅ twoJoin).sync "a" 2 4).liveReports 180 4) :=
  ⟨by decide, (syncPoolSize_eq_expected_iff 180 twoJoin "a" 2 4 (by decide) (by decide) (by decide)
      (by decide)).mp (by decide)⟩

/-- When one of two processors leaves, the other still gets agreement on two. -/
theorem twoJoin_leave_agrees : ((exec InMemoryStore.step (InMemoryStore.withTtl 180)
        (twoJoin ++ [(4, .deregister "b" 10)])).syncPoolSize "a" 2 false 5).map Prod.snd =
        some (.agree 2) ∧
      ((exec (Members.step 180) ∅ (twoJoin ++ [(4, .deregister "b" 10)])).sync "a" 2
        5).liveReports 180 5 = [2] ∧
      expected [2] = .disagree 2 := by
  decide

end Numaflow.Throttling
