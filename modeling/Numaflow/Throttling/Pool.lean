import Numaflow.Throttling.Store

/-!
# The pool of processors that share a rate limit

A processor registers with the store and reports pool sizes until the store answers with
agreement.  Then it takes its part of the tokens, one divided by the agreed pool size,
and a background task goes on reporting.  Disagreement only changes what is reported
next; the part changes with the next agreement.

Main results: `Answers.of_computeConsensus`, `Linked.step`.
-/

namespace Numaflow.Throttling

open Lib InMemoryStore AList Option

/-- Where a processor is: waiting for the first agreement, between the agreement and the
first token, or consuming. -/
inductive Phase where
  | waiting
  | admitted
  | consuming
deriving DecidableEq, Repr

/-- A processor.  The answer of the store waits with the number of its call until the
processor handles it; two further numbers record the call of the first agreement and of
the last handled answer. -/
structure Member where
  phase : Phase
  known : Nat := 0
  desired : Nat
  answer : Option (Nat × Consensus) := none
  agreedAt : Nat := 0
  completed : Nat := 0
deriving DecidableEq, Repr

namespace Member

/-- Agreement sets the known and the desired size, disagreement the desired one. -/
def updateState (m : Member) : Consensus → Member
  | .agree poolSize => { m with desired := poolSize, known := poolSize }
  | .disagree poolSize => { m with desired := poolSize }

/-- Handle an answer, in the loop that waits for the first agreement or in the background
task. -/
def handle (m : Member) (call : Nat) (consensus : Consensus) : Member :=
  match m.phase, consensus with
  | .waiting, .agree _ =>
    { m.updateState consensus with
      phase := .admitted, answer := none, agreedAt := call, completed := call }
  | _, _ => { m.updateState consensus with answer := none, completed := call }

/-- The part of the tokens that the processor takes. -/
def share (m : Member) : ℚ :=
  if m.phase = .consuming then 1 / (max m.known 1 : Nat) else 0

end Member

/-- The store and the processors, with the number of reports so far. -/
structure Pool (F : Type) where
  store : InMemoryStore F
  members : HashMap String Member
  calls : Nat := 0

/-- What a processor does next. -/
inductive PoolAction (F : Type) where
  | register (id : String) (now : Int)
  | sync (id : String) (now : Int)
  | handle (id : String)
  | start (id : String)
  | shutdown (id : String) (maxEverFilled : F) (now : Int)

namespace Pool

variable {F : Type}

/-- No processor has registered. -/
def init (staleAge : Nat) : Pool F where
  store := InMemoryStore.withTtl staleAge
  members := ∅

/-- The sum of the parts. -/
def totalShare (p : Pool F) : ℚ :=
  ((HashMap.values p.members).map Member.share).sum

variable [Zero F]

def step (p : Pool F) : PoolAction F → Pool F
  | .register id now =>
    if id ∈ p.members then p
    else
      { p with
        store := (p.store.register id now).1
        members := p.members.insert id
          { phase := .waiting, desired := (p.store.register id now).2.1 } }
  | .sync id now =>
    match p.members.lookup id with
    | none => p
    | some m =>
      if m.answer.isSome then p
      else
        match p.store.syncPoolSize id m.desired false now with
        | none => p
        | some (store, consensus) =>
          { store := store
            members := p.members.insert id
              { m with answer := some (p.calls + 1, consensus) }
            calls := p.calls + 1 }
  | .handle id =>
    match p.members.lookup id with
    | none => p
    | some m =>
      match m.answer with
      | none => p
      | some (call, consensus) =>
        { p with members := p.members.insert id (m.handle call consensus) }
  | .start id =>
    match p.members.lookup id with
    | none => p
    | some m =>
      if m.phase = .admitted then
        { p with members := p.members.insert id { m with phase := .consuming } }
      else p
  | .shutdown id maxEverFilled now =>
    match p.members.lookup id with
    | none => p
    | some m =>
      if m.phase = .consuming then
        { p with
          store := p.store.deregister id maxEverFilled now
          members := p.members.erase id }
      else p

/-- No processor is stale when the store is called, a machine word can count the
processors, and every consuming processor completes a report between the agreement of a
new processor and its first token. -/
def Timely (p : Pool F) : PoolAction F → Prop
  | .register _ now => p.store.staleIds now = [] ∧ p.members.keys.length < usizeMax
  | .sync _ now => p.store.staleIds now = []
  | .start id => ∀ m ∈ p.members.lookup id, ∀ other ∈ HashMap.values p.members,
      other.phase = .consuming → m.agreedAt < other.completed
  | _ => True

/-- A processor registers only when all others are consuming. -/
def OneByOne (p : Pool F) : PoolAction F → Prop
  | .register _ _ => ∀ other ∈ HashMap.values p.members, other.phase = .consuming
  | _ => True

instance (p : Pool F) : DecidablePred p.Timely := fun _ => by
  unfold Timely
  split <;> infer_instance

instance (p : Pool F) : DecidablePred p.OneByOne := fun _ => by
  unfold OneByOne
  split <;> infer_instance

end Pool

/-! ## Answers of the store -/

/-- The pool size that comes with an answer. -/
def Consensus.size : Consensus → Nat
  | .agree poolSize => poolSize
  | .disagree poolSize => poolSize

/-- The answer carries the largest report, and it is agreement exactly when all reports
are the same. -/
structure Answers (reported : HashMap String Nat) (c : Consensus) : Prop where
  le_size : ∀ id r, reported.lookup id = some r → r ≤ c.size
  exists_size : ∃ id, reported.lookup id = some c.size
  agree_iff : c = .agree c.size ↔ ∀ id r, reported.lookup id = some r → r = c.size

variable {F : Type}

/-- Agreement means that all reports are the same. -/
theorem Answers.of_computeConsensus {s : InMemoryStore F}
    (hkeys : ∀ id, id ∈ s.heartbeats ↔ id ∈ s.reportedPool) (hne : ∃ id, id ∈ s.heartbeats)
    (hmax : ∀ id r, s.reportedPool.lookup id = some r → r ≤ usizeMax) :
    Answers s.reportedPool s.computeConsensus := by
  have hmem : ∀ r, r ∈ s.reports ↔ ∃ id, s.reportedPool.lookup id = some r := by
    intro r
    simp only [reports, List.mem_filterMap]
    constructor
    · rintro ⟨id, -, hr⟩
      exact ⟨id, hr⟩
    · rintro ⟨id, hr⟩
      refine ⟨id, mem_keys.mp ((hkeys id).mpr (lookup_isSome.mp ?_)), hr⟩
      rw [hr]
      rfl
  have hlen : s.reports.length = s.heartbeats.keys.length := by
    refine List.filterMap_length_eq_length.mpr fun id hid => ?_
    exact lookup_isSome.mpr ((hkeys id).mp (mem_keys.mpr hid))
  have hreports : s.reports ≠ [] := by
    obtain ⟨id, hid⟩ := hne
    rw [← List.length_pos_iff, hlen]
    exact List.length_pos_of_mem (mem_keys.mp hid)
  obtain ⟨hagree, hdisagree⟩ := computeConsensus_eq hreports hlen
    fun r hr => (hmem r).mp hr |>.elim fun id hid => hmax id r hid
  have hle : ∀ id r, s.reportedPool.lookup id = some r → r ≤ s.reports.foldl max 0 :=
    fun id r hr => le_foldl_max_of_mem ((hmem r).mpr ⟨id, hr⟩)
  have hexists := (hmem _).mp (foldl_max_mem hreports fun r _ => Nat.zero_le r)
  by_cases hall : ∃ k, ∀ r ∈ s.reports, r = k
  · rw [hagree hall]
    refine ⟨hle, hexists, iff_of_true rfl fun id r hr => ?_⟩
    obtain ⟨k, hk⟩ := hall
    rw [hk r ((hmem r).mpr ⟨id, hr⟩)]
    exact (hk _ ((hmem _).mpr hexists)).symm
  · rw [hdisagree hall]
    refine ⟨hle, hexists, iff_of_false (by simp [Consensus.size]) fun heq => hall ⟨s.reports.foldl max 0, ?_⟩⟩
    intro r hr
    obtain ⟨id, hid⟩ := (hmem r).mp hr
    exact heq id r hid

/-- What the processor reports next. -/
def Member.next (m : Member) : Nat :=
  match m.answer with
  | some (_, consensus) => consensus.size
  | none => m.desired

namespace Pool

variable {p p' : Pool F}

/-! ## The store and the processors -/

/-- A processor of the pool with what it reported last. -/
def Has (p : Pool F) (id : String) (m : Member) (r : Nat) : Prop :=
  p.members.lookup id = some m ∧ p.store.reportedPool.lookup id = some r

/-- The store knows exactly the processors of the pool, reports are machine words and
answers are handled in order. -/
structure Linked (p : Pool F) : Prop where
  heartbeats : ∀ id, id ∈ p.store.heartbeats ↔ id ∈ p.members
  reported : ∀ id, id ∈ p.store.reportedPool ↔ id ∈ p.members
  fits : ∀ id m r, p.Has id m r → r ≤ usizeMax ∧ m.next ≤ usizeMax
  numbers : ∀ id m, p.members.lookup id = some m → m.completed ≤ p.calls ∧
    ∀ n c, m.answer = some (n, c) → m.completed < n ∧ n ≤ p.calls

variable {id : String} {m : Member} {r : Nat} {ν : Type}

theorem Linked.exists_row (h : p.Linked) (hm : p.members.lookup id = some m) :
    ∃ r, p.Has id m r := by
  have hmem := lookup_isSome.mp (by rw [hm]; rfl)
  obtain ⟨r, hr⟩ := isSome_iff_exists.mp (lookup_isSome.mpr ((h.reported id).mpr hmem))
  exact ⟨r, hm, hr⟩

theorem Linked.exists_member (h : p.Linked) (hr : p.store.reportedPool.lookup id = some r) :
    ∃ m, p.Has id m r := by
  have hmem := lookup_isSome.mp (by rw [hr]; rfl)
  obtain ⟨m, hm⟩ := isSome_iff_exists.mp (lookup_isSome.mpr ((h.reported id).mp hmem))
  exact ⟨m, hm, hr⟩

theorem Linked.init (staleAge : Nat) : (init staleAge : Pool F).Linked := by
  have hnone : ∀ id : String, id ∉ (∅ : HashMap String Member) := fun id =>
    lookup_eq_none.mp rfl
  refine ⟨fun id => ?_, fun id => ?_, fun id m r h => ?_, fun id m h => ?_⟩
  · exact iff_of_false (lookup_eq_none.mp rfl) (hnone id)
  · exact iff_of_false (lookup_eq_none.mp rfl) (hnone id)
  · cases h.1
  · cases h

/-- The two pools differ at most at one processor. -/
def SameBut (id : String) (p p' : Pool F) : Prop :=
  ∀ i, i ≠ id → p'.members.lookup i = p.members.lookup i ∧
    p'.store.reportedPool.lookup i = p.store.reportedPool.lookup i

variable {i : String}

theorem SameBut.has_iff (h : SameBut id p p') (hi : i ≠ id) : p'.Has i m r ↔ p.Has i m r := by
  rw [Has, Has, (h i hi).1, (h i hi).2]

/-- A processor reports its pool size and gets an answer. -/
structure Reported (id : String) (m : Member) (r : Nat) (c : Consensus) (p p' : Pool F) : Prop where
  old : p.Has id m r
  unanswered : m.answer = none
  same : SameBut id p p'
  row : p'.Has id { m with answer := some (p.calls + 1, c) } m.desired
  answers : Answers p'.store.reportedPool c
  count : p'.members.keys.length = p.members.keys.length
  calls : p'.calls = p.calls + 1

/-- What a step does to the rows of the pool. -/
inductive Effect (p p' : Pool F) : PoolAction F → Prop
  | same (a : PoolAction F) (heq : p' = p) : Effect p p' a
  | registered (id : String) (now : Int) (hnew : id ∉ p.members) (hsame : SameBut id p p')
      (hrow : p'.Has id { phase := .waiting, desired := p.members.keys.length + 1 } 1)
      (hlen : p'.members.keys.length = p.members.keys.length + 1) (hcalls : p'.calls = p.calls) :
      Effect p p' (.register id now)
  | reported (id : String) (now : Int) {m : Member} {r : Nat} {c : Consensus}
      (hreport : Reported id m r c p p') : Effect p p' (.sync id now)
  | handled (id : String) {m : Member} {r n : Nat} {c : Consensus} (hold : p.Has id m r)
      (hanswer : m.answer = some (n, c)) (hsame : SameBut id p p')
      (hrow : p'.Has id (m.handle n c) r) (hlen : p'.members.keys.length = p.members.keys.length)
      (hcalls : p'.calls = p.calls) : Effect p p' (.handle id)
  | started (id : String) {m : Member} {r : Nat} (hold : p.Has id m r) (hphase : m.phase = .admitted)
      (hsame : SameBut id p p') (hrow : p'.Has id { m with phase := .consuming } r)
      (hlen : p'.members.keys.length = p.members.keys.length) (hcalls : p'.calls = p.calls) :
      Effect p p' (.start id)
  | left (id : String) (maxEverFilled : F) (now : Int) {m : Member} {r : Nat} (hold : p.Has id m r)
      (hphase : m.phase = .consuming) (hsame : SameBut id p p') (hgone : id ∉ p'.members)
      (hlen : p'.members.keys.length + 1 = p.members.keys.length) (hcalls : p'.calls = p.calls) :
      Effect p p' (.shutdown id maxEverFilled now)

section

variable {m : HashMap String ν}

theorem keys_length_insert (hid : id ∈ m) (v : ν) :
    (m.insert id v).keys.length = m.keys.length := by
  rw [keys_insert, List.length_cons, List.length_erase_of_mem (mem_keys.mp hid)]
  have := List.length_pos_of_mem (mem_keys.mp hid)
  omega

theorem keys_length_insert_new (hid : id ∉ m) (v : ν) :
    (m.insert id v).keys.length = m.keys.length + 1 := by
  rw [keys_insert, List.length_cons, List.erase_of_not_mem fun h => hid (mem_keys.mpr h)]

theorem keys_length_erase (hid : id ∈ m) : (m.erase id).keys.length + 1 = m.keys.length := by
  rw [keys_erase, List.length_erase_of_mem (mem_keys.mp hid)]
  have := List.length_pos_of_mem (mem_keys.mp hid)
  omega

variable {v : ν}

theorem mem_of_lookup (h : m.lookup id = some v) : id ∈ m :=
  lookup_isSome.mp (by rw [h]; rfl)

end

theorem SameBut.mem_iff (h : SameBut id p p') (hrow : p'.Has id m r) (i : String) :
    (i ∈ p'.members ↔ i = id ∨ i ∈ p.members) ∧
      (i ∈ p'.store.reportedPool ↔ i = id ∨ i ∈ p.store.reportedPool) := by
  by_cases hi : i = id
  · subst hi
    exact ⟨iff_of_true (mem_of_lookup hrow.1) (.inl rfl),
      iff_of_true (mem_of_lookup hrow.2) (.inl rfl)⟩
  · simp only [← lookup_isSome, (h i hi).1, (h i hi).2, hi, false_or, and_self]

/-- A step that writes one row. -/
theorem Linked.of_row (h : p.Linked) (hsame : SameBut id p p') (hrow : p'.Has id m r)
    (hbeats : ∀ i, i ∈ p'.store.heartbeats ↔ i = id ∨ i ∈ p.store.heartbeats)
    (hfits : r ≤ usizeMax ∧ m.next ≤ usizeMax) (hnumbers : m.completed ≤ p'.calls ∧
      ∀ n c, m.answer = some (n, c) → m.completed < n ∧ n ≤ p'.calls) (hcalls : p.calls ≤ p'.calls) :
    p'.Linked := by
  refine ⟨fun i => ?_, fun i => ?_, fun i m' r' hi => ?_, fun i m' hm' => ?_⟩
  · rw [hbeats, h.heartbeats, (hsame.mem_iff hrow i).1]
  · rw [(hsame.mem_iff hrow i).2, h.reported, (hsame.mem_iff hrow i).1]
  · by_cases heq : i = id
    · subst heq
      rw [Has, hrow.1, hrow.2, some.injEq, some.injEq] at hi
      rw [← hi.1, ← hi.2]
      exact hfits
    · exact h.fits i m' r' ((hsame.has_iff heq).mp hi)
  · by_cases heq : i = id
    · subst heq
      rw [hrow.1, some.injEq] at hm'
      exact hm' ▸ hnumbers
    · rw [(hsame i heq).1] at hm'
      obtain ⟨hcompleted, hanswers⟩ := h.numbers i m' hm'
      exact ⟨hcompleted.trans hcalls, fun n c hc =>
        ⟨(hanswers n c hc).1, (hanswers n c hc).2.trans hcalls⟩⟩

theorem sameBut_insert : SameBut id p { p with members := p.members.insert id m } :=
  fun _ hi => ⟨lookup_insert_ne hi, rfl⟩

theorem Linked.mem_heartbeats (h : p.Linked) (hrow : p.Has id m r) (i : String) :
    i ∈ p.store.heartbeats ↔ i = id ∨ i ∈ p.store.heartbeats := by
  refine ⟨.inr, ?_⟩
  rintro (rfl | hi)
  · exact (h.heartbeats i).mpr (mem_of_lookup hrow.1)
  · exact hi

/-- The store counts the processors of the pool. -/
theorem Linked.heartbeats_length (h : p.Linked) :
    p.store.heartbeats.keys.length = p.members.keys.length := by
  refine ((List.perm_ext_iff_of_nodup p.store.heartbeats.keys_nodup p.members.keys_nodup).mpr
    fun id => ?_).length_eq
  rw [← mem_keys]
  exact h.heartbeats id

theorem next_handle (m : Member) (n : Nat) (c : Consensus) : (m.handle n c).next = c.size := by
  obtain ⟨phase, _, _, _, _, _⟩ := m
  cases phase <;> cases c <;> rfl

theorem completed_handle (m : Member) (n : Nat) (c : Consensus) :
    (m.handle n c).completed = n ∧ (m.handle n c).answer = none := by
  obtain ⟨phase, _, _, _, _, _⟩ := m
  cases phase <;> cases c <;> exact ⟨rfl, rfl⟩

variable {now : Int}

theorem syncPoolSize_of_fresh {s : InMemoryStore F} (id : String) (size : Nat)
    (hfresh : s.staleIds now = []) :
    ∃ s', s.syncPoolSize id size false now = some (s', s'.computeConsensus) ∧
      s'.heartbeats = s.heartbeats.insert id now ∧
      s'.reportedPool = s.reportedPool.insert id size := by
  refine ⟨_, rfl, ?_, ?_⟩
  · simp [pruneStale, pruneStalePrevMaxFilled, hfresh]
  · simp [pruneStale, pruneStalePrevMaxFilled, hfresh]

variable [Zero F]

theorem register_of_fresh {s : InMemoryStore F} (hfresh : s.staleIds now = [])
    (hnew : id ∉ s.reportedPool) : (s.register id now).1.heartbeats = s.heartbeats.insert id now ∧
      (s.register id now).1.reportedPool = s.reportedPool.insert id 1 ∧
      (s.register id now).2.1 = (s.heartbeats.insert id now).keys.length := by
  have hnone := lookup_eq_none.mpr hnew
  simp [register, pruneStale, pruneStalePrevMaxFilled, hfresh, hnone]

namespace Linked

variable (h : p.Linked)

include h

/-- A processor registers with a report of one. -/
theorem register (hok : p.Timely (.register id now)) : (p.step (.register id now)).Linked ∧
      Effect p (p.step (.register id now)) (.register id now) := by
  simp only [Pool.step]
  split_ifs with hmem
  · exact ⟨h, .same _ rfl⟩
  · have hnew : id ∉ p.store.reportedPool := fun hid => hmem ((h.reported id).mp hid)
    have hnew' : id ∉ p.store.heartbeats := fun hid => hmem ((h.heartbeats id).mp hid)
    obtain ⟨hbeats, hreported, hsize⟩ := register_of_fresh hok.1 hnew
    rw [keys_length_insert_new hnew', h.heartbeats_length] at hsize
    set p' : Pool F :=
      { p with
        store := (p.store.register id now).1
        members := p.members.insert id
          { phase := .waiting, desired := (p.store.register id now).2.1 } } with hp'
    have hsame : SameBut id p p' := fun i hi =>
      ⟨lookup_insert_ne hi, by rw [hp', hreported, lookup_insert_ne hi]⟩
    have hrow : p'.Has id { phase := .waiting, desired := p.members.keys.length + 1 } 1 :=
      ⟨by rw [hp', lookup_insert, hsize], by rw [hp', hreported, lookup_insert]⟩
    refine ⟨h.of_row hsame hrow (fun i => ?_) ⟨by decide, Nat.succ_le_of_lt hok.2⟩
      ⟨Nat.zero_le _, fun n c hc => by cases hc⟩ (le_refl _),
      .registered id now hmem hsame hrow (keys_length_insert_new hmem _) rfl⟩
    rw [hp', hbeats, mem_insert]

/-- A sync reports the desired size and gets an answer. -/
theorem sync (hok : p.Timely (.sync id now)) :
    (p.step (.sync id now)).Linked ∧ Effect p (p.step (.sync id now)) (.sync id now) := by
  simp only [Pool.step]
  cases hm : p.members.lookup id with
  | none => exact ⟨h, .same _ rfl⟩
  | some m =>
    obtain ⟨r, hold⟩ := h.exists_row hm
    simp only
    split_ifs with hanswer
    · exact ⟨h, .same _ rfl⟩
    · obtain ⟨s', hs', hbeats, hreported⟩ := syncPoolSize_of_fresh id m.desired hok
      rw [not_isSome_iff_eq_none] at hanswer
      simp only [hs']
      set p' : Pool F :=
        { store := s'
          members := p.members.insert id
            { m with answer := some (p.calls + 1, s'.computeConsensus) }
          calls := p.calls + 1 } with hp'
      have hsame : SameBut id p p' := fun i hi =>
        ⟨lookup_insert_ne hi, by rw [hp', hreported, lookup_insert_ne hi]⟩
      have hrow : p'.Has id { m with answer := some (p.calls + 1, s'.computeConsensus) }
          m.desired :=
        ⟨lookup_insert _, by rw [hp', hreported, lookup_insert]⟩
      have hmem := mem_of_lookup hm
      have hbeats' : ∀ i, i ∈ p'.store.heartbeats ↔ i = id ∨ i ∈ p.store.heartbeats := by
        intro i
        rw [hbeats, mem_insert]
      have hfits : ∀ i r', p'.store.reportedPool.lookup i = some r' → r' ≤ usizeMax := by
        intro i r' hr'
        by_cases hi : i = id
        · subst hi
          rw [hrow.2, some.injEq] at hr'
          have hnext := (h.fits i m r hold).2
          rw [Member.next, hanswer] at hnext
          exact hr' ▸ hnext
        · rw [(hsame i hi).2] at hr'
          obtain ⟨m', hm'⟩ := h.exists_member hr'
          exact (h.fits i m' r' hm').1
      have hc : Answers p'.store.reportedPool s'.computeConsensus := by
        refine Answers.of_computeConsensus (s := s') (fun i => ?_)
          ⟨id, (hbeats' id).mpr (.inl rfl)⟩ hfits
        rw [show i ∈ s'.heartbeats ↔ _ from hbeats' i, h.heartbeats,
          show i ∈ s'.reportedPool ↔ _ from (hsame.mem_iff hrow i).2, h.reported]
      obtain ⟨i, hi⟩ := hc.exists_size
      obtain ⟨hcompleted, -⟩ := h.numbers id m hm
      refine ⟨h.of_row hsame hrow hbeats' ⟨hfits id _ hrow.2, hfits i _ hi⟩
        ⟨hcompleted.trans (Nat.le_succ _), fun n c hc => ?_⟩ (Nat.le_succ _),
        .reported id now ⟨hold, hanswer, hsame, hrow, hc, keys_length_insert hmem _, rfl⟩⟩
      cases hc
      exact ⟨Nat.lt_succ_of_le hcompleted, le_refl _⟩

/-- A processor takes over the pool size of an answer. -/
theorem handle : (p.step (.handle id)).Linked ∧ Effect p (p.step (.handle id)) (.handle id) := by
  simp only [Pool.step]
  cases hm : p.members.lookup id with
  | none => exact ⟨h, .same _ rfl⟩
  | some m =>
    obtain ⟨r, hold⟩ := h.exists_row hm
    simp only
    cases hanswer : m.answer with
    | none => exact ⟨h, .same _ rfl⟩
    | some answer =>
      obtain ⟨n, c⟩ := answer
      have hrow : Has { p with members := p.members.insert id (m.handle n c) } id
          (m.handle n c) r := ⟨lookup_insert _, hold.2⟩
      have hfits := h.fits id m r hold
      simp only [Member.next, hanswer] at hfits
      obtain ⟨hcompleted, hnone⟩ := completed_handle m n c
      refine ⟨h.of_row sameBut_insert hrow (h.mem_heartbeats hold)
        ⟨hfits.1, by rw [next_handle]; exact hfits.2⟩ ⟨?_, fun n' c' hc' => ?_⟩ (le_refl _),
        .handled id hold hanswer sameBut_insert hrow (keys_length_insert (mem_of_lookup hm) _) rfl⟩
      · rw [hcompleted]
        exact ((h.numbers id m hm).2 n c hanswer).2
      · rw [hnone] at hc'
        cases hc'

theorem start : (p.step (.start id)).Linked ∧ Effect p (p.step (.start id)) (.start id) := by
  simp only [Pool.step]
  cases hm : p.members.lookup id with
  | none => exact ⟨h, .same _ rfl⟩
  | some m =>
    obtain ⟨r, hold⟩ := h.exists_row hm
    simp only
    split_ifs with hphase
    · have hrow : Has { p with members := p.members.insert id { m with phase := .consuming } } id
          { m with phase := .consuming } r := ⟨lookup_insert _, hold.2⟩
      exact ⟨h.of_row sameBut_insert hrow (h.mem_heartbeats hold) (h.fits id m r hold)
        (h.numbers id m hm) (le_refl _),
        .started id hold hphase sameBut_insert hrow (keys_length_insert (mem_of_lookup hm) _) rfl⟩
    · exact ⟨h, .same _ rfl⟩

variable {rate : F} {a : PoolAction F}

/-- A processor that leaves takes its report with it. -/
theorem shutdown : (p.step (.shutdown id rate now)).Linked ∧
      Effect p (p.step (.shutdown id rate now)) (.shutdown id rate now) := by
  simp only [Pool.step]
  cases hm : p.members.lookup id with
  | none => exact ⟨h, .same _ rfl⟩
  | some =>
    obtain ⟨r, hold⟩ := h.exists_row hm
    simp only
    split_ifs with hphase
    · set p' : Pool F :=
        { p with store := p.store.deregister id rate now, members := p.members.erase id }
      have hsame : SameBut id p p' := fun i hi =>
        ⟨lookup_erase_ne hi, lookup_erase_ne hi⟩
      have hgone : ∀ m', p'.members.lookup id ≠ some m' := fun m' hm' => by
        rw [lookup_erase] at hm'
        cases hm'
      refine ⟨⟨fun i => ?_, fun i => ?_, fun i m' r' hi => ?_, fun i m' hm' => ?_⟩,
        .left id rate now hold hphase hsame (mem_erase.not.mpr fun h => h.1 rfl)
          (keys_length_erase (mem_of_lookup hm)) rfl⟩
      · exact mem_erase.trans ((and_congr_right fun _ => h.heartbeats i).trans mem_erase.symm)
      · exact mem_erase.trans ((and_congr_right fun _ => h.reported i).trans mem_erase.symm)
      · have hne : i ≠ id := fun heq => hgone m' (heq ▸ hi.1)
        exact h.fits i m' r' ((hsame.has_iff hne).mp hi)
      · have hne : i ≠ id := fun heq => hgone m' (heq ▸ hm')
        exact h.numbers i m' ((hsame i hne).1 ▸ hm')
    · exact ⟨h, .same _ rfl⟩

/-- Every timely step keeps the store and the processors together. -/
theorem step (hok : p.Timely a) : (p.step a).Linked ∧ Effect p (p.step a) a := by
  cases a with
  | register => exact h.register hok
  | sync => exact h.sync hok
  | handle => exact h.handle
  | start => exact h.start
  | shutdown => exact h.shutdown

end Linked

end Pool
end Numaflow.Throttling
