import Numaflow.Throttling.Pool

/-!
# The parts of the processors add up to at most one

When processors join one at a time, the pool goes through three stages again and again:
all processors consume and agree; one has registered and everybody moves to its pool size;
it has obtained agreement and every consuming processor learns of it before the new one
takes its first token.

Main results: `Safe.step`, `totalShare_le_one`.
-/

namespace Numaflow.Throttling

open Lib Member HashMap List

/-! ## Rows -/

/-- A consuming processor of a pool that has agreed on `size`. -/
structure SettledRow (size : Nat) (m : Member) (r : Nat) : Prop where
  phase : m.phase = .consuming
  known : m.known = size
  report : r = size
  next : m.next = size
  answer : ∀ n c, m.answer = some (n, c) → c = .agree size

/-- A consuming processor while another one joins: it reports something between the old
size and what the joining one has reported. -/
structure MovingRow (size bound : Nat) (m : Member) (r : Nat) : Prop where
  phase : m.phase = .consuming
  known : size ≤ m.known
  report : size ≤ r
  next : r ≤ m.next
  next_le : m.next ≤ max size bound

/-- The joining processor: it reports one with its registration and then at least the number
of processors. -/
structure JoiningRow (count bound : Nat) (m : Member) (r : Nat) : Prop where
  phase : m.phase = .waiting
  answer : ∀ n k, m.answer ≠ some (n, .agree k)
  next : count ≤ m.next
  report : (r = 1 ∧ bound = 0) ∨ (bound = r ∧ count ≤ r ∧ r ≤ m.next)

/-- A consuming processor after call `call` has told the joining one that all agree on
`size`. -/
structure AgreedRow (oldSize size call : Nat) (m : Member) (r : Nat) : Prop where
  phase : m.phase = .consuming
  known : oldSize ≤ m.known
  size_le : oldSize ≤ size
  report : r = size
  next : m.next = size
  answer : ∀ n c, m.answer = some (n, c) → call < n → c = .agree size
  completed : call < m.completed → m.known = size

/-- The joining processor after that call. -/
structure AdmittedRow (size call : Nat) (m : Member) (r : Nat) : Prop where
  report : r = size
  next : m.next = size
  admitted : (m.phase = .waiting ∧ m.answer = some (call, .agree size)) ∨
    (m.phase = .admitted ∧ m.known = size ∧ m.agreedAt = call ∧
      ∀ n c, m.answer = some (n, c) → c = .agree size)

variable {size bound oldSize call r : Nat} {m : Member} {c : Consensus}

section

variable {count n : Nat}

theorem Member.next_of_answer (h : m.answer = some (n, c)) : m.next = c.size := by
  simp only [next, h]

theorem Member.next_of_none (h : m.answer = none) : m.next = m.desired := by
  simp only [next, h]

theorem Member.handle_consuming (h : m.phase = .consuming) :
    m.handle n c = { m.updateState c with answer := none, completed := n } := by
  simp only [handle, h]

variable (hanswer : m.answer = some (n, c))

include hanswer

theorem SettledRow.handle (h : SettledRow size m r) : SettledRow size (m.handle n c) r := by
  have hc := h.answer n c hanswer
  subst hc
  rw [handle_consuming h.phase]
  exact ⟨h.phase, rfl, h.report, rfl, fun _ _ hnone => (nomatch hnone)⟩

theorem MovingRow.handle (h : MovingRow size bound m r) :
    MovingRow size bound (m.handle n c) r := by
  have hnext := next_of_answer hanswer
  have hle := h.next
  have hle' := h.next_le
  have hreport := h.report
  rw [handle_consuming h.phase]
  rw [hnext] at hle hle'
  cases c with
  | agree => exact ⟨h.phase, hreport.trans hle, hreport, hle, hle'⟩
  | disagree => exact ⟨h.phase, h.known, hreport, hle, hle'⟩

theorem JoiningRow.handle (h : JoiningRow count bound m r) :
    JoiningRow count bound (m.handle n c) r := by
  have hnext := next_of_answer hanswer
  have hle := h.next
  have hreport := h.report
  rw [hnext] at hle hreport
  cases c with
  | agree k => exact absurd hanswer (h.answer n k)
  | disagree k =>
    have heq : m.handle n (.disagree k) =
        { m.updateState (.disagree k) with answer := none, completed := n } := by
      simp only [handle, h.phase]
    rw [heq]
    exact ⟨h.phase, fun _ _ hnone => (nomatch hnone), hle, hreport⟩

theorem AgreedRow.handle (h : AgreedRow oldSize size call m r) :
    AgreedRow oldSize size call (m.handle n c) r := by
  have hnext := next_of_answer hanswer
  rw [h.next] at hnext
  rw [handle_consuming h.phase]
  cases c with
  | agree =>
    have hk := hnext
    subst hk
    exact ⟨h.phase, h.size_le, h.size_le, h.report, rfl, fun _ _ hnone => (nomatch hnone),
      fun _ => rfl⟩
  | disagree =>
    have hk := hnext
    subst hk
    refine ⟨h.phase, h.known, h.size_le, h.report, rfl, fun _ _ hnone => (nomatch hnone), ?_⟩
    intro hcall
    cases h.answer n _ hanswer hcall

omit hanswer in
theorem AdmittedRow.not_consuming (h : AdmittedRow size call m r) : m.phase ≠ .consuming := by
  rcases h.admitted with ⟨hphase, -⟩ | ⟨hphase, -⟩
  · rw [hphase]
    decide
  · rw [hphase]
    decide

theorem AdmittedRow.handle (h : AdmittedRow size call m r) :
    AdmittedRow size call (m.handle n c) r := by
  rcases h.admitted with ⟨hphase, hagree⟩ | ⟨hphase, -, hat, hagree⟩
  · rw [hagree] at hanswer
    obtain ⟨rfl, rfl⟩ := hanswer
    have heq : m.handle call (.agree size) =
        { m.updateState (.agree size) with
          phase := .admitted, answer := none, agreedAt := call, completed := call } := by
      simp only [handle, hphase]
    rw [heq]
    exact ⟨h.report, rfl, .inr ⟨rfl, rfl, rfl, fun _ _ hnone => (nomatch hnone)⟩⟩
  · have hc := hagree n c hanswer
    subst hc
    have heq : m.handle n (.agree size) =
        { m.updateState (.agree size) with answer := none, completed := n } := by
      simp only [handle, hphase]
    rw [heq]
    exact ⟨h.report, rfl, .inr ⟨hphase, rfl, hat, fun _ _ hnone => (nomatch hnone)⟩⟩

end

namespace Pool

variable {F : Type} {p p' : Pool F}

/-! ## Stages -/

/-- All processors consume and have agreed. -/
structure Settled (size : Nat) (p : Pool F) : Prop where
  count : p.members.keys.length ≤ size
  rows : ∀ id m r, p.Has id m r → SettledRow size m r

/-- One processor has registered and has not obtained agreement. -/
structure Joining (size bound : Nat) (joiner : String) (p : Pool F) : Prop where
  count : p.members.keys.length ≤ size + 1
  row : ∃ m r, p.Has joiner m r ∧ JoiningRow p.members.keys.length bound m r
  rows : ∀ id m r, p.Has id m r → id ≠ joiner → MovingRow size bound m r

/-- The processor has obtained agreement and has not started to consume. -/
structure Agreed (oldSize size call : Nat) (joiner : String) (p : Pool F) : Prop where
  count : p.members.keys.length ≤ oldSize + 1
  size_le : p.members.keys.length ≤ size
  call_le : call ≤ p.calls
  row : ∃ m r, p.Has joiner m r ∧ AdmittedRow size call m r
  rows : ∀ id m r, p.Has id m r → id ≠ joiner → AgreedRow oldSize size call m r

/-- The stages of a pool that processors join one at a time. -/
inductive Safe (p : Pool F) : Prop
  | settled (size : Nat) (h : Settled size p) : Safe p
  | joining (size bound : Nat) (joiner : String) (h : Joining size bound joiner p) : Safe p
  | agreed (oldSize size call : Nat) (joiner : String) (h : Agreed oldSize size call joiner p) :
      Safe p

variable {id i : String} {m' : Member} {r' : Nat}

theorem Has.unique (h : p.Has id m r) (h' : p.Has id m' r') : m = m' ∧ r = r' := by
  rw [Has, h.1, h.2, Option.some.injEq, Option.some.injEq] at h'
  exact h'

/-- The rows after a step that writes one of them. -/
theorem SameBut.cases (h : SameBut id p p') (hrow : p'.Has id m' r') (hi : p'.Has i m r) :
    (i = id ∧ m = m' ∧ r = r') ∨ (i ≠ id ∧ p.Has i m r) := by
  by_cases heq : i = id
  · subst heq
    exact .inl ⟨rfl, hi.unique hrow⟩
  · exact .inr ⟨heq, (h.has_iff heq).mp hi⟩

variable {a : PoolAction F}

/-- When all processors have reported the same size and will report it again, the next one
to report gets agreement. -/
theorem agree_of_uniform (hrows : ∀ i m r, p.Has i m r → r = size ∧ m.next = size)
    (hlinked : p'.Linked) (h : Reported id m r c p p') : c = .agree size ∧ m.desired = size := by
  have hdesired := (next_of_none h.unanswered).symm.trans (hrows id m r h.old).2
  have hall : ∀ i r', p'.store.reportedPool.lookup i = some r' → r' = size := by
    intro i r' hr'
    obtain ⟨m', hi⟩ := hlinked.exists_member hr'
    rcases h.same.cases h.row hi with ⟨-, -, rfl⟩ | ⟨-, hi⟩
    · exact hdesired
    · exact (hrows i m' r' hi).1
  obtain ⟨i, hi⟩ := h.answers.exists_size
  have hsize := hall i _ hi
  refine ⟨?_, hdesired⟩
  rw [← hsize]
  exact h.answers.agree_iff.mpr fun i r' hr' => (hall i r' hr').trans hsize.symm

namespace Settled

/-- All processors report the same and get agreement. -/
theorem reported (h : Settled size p) (hlinked : p'.Linked) (hreport : Reported id m r c p p') :
    Settled size p' := by
  have hm := h.rows id m r hreport.old
  obtain ⟨rfl, hdesired⟩ := agree_of_uniform
    (fun i m r hi => ⟨(h.rows i m r hi).report, (h.rows i m r hi).next⟩) hlinked hreport
  refine ⟨hreport.count ▸ h.count, fun i m' r' hi => ?_⟩
  rcases hreport.same.cases hreport.row hi with ⟨-, rfl, rfl⟩ | ⟨-, hi⟩
  · refine ⟨hm.phase, hm.known, hdesired, rfl, fun n c' hc' => ?_⟩
    cases hc'
    rfl
  · exact h.rows i m' r' hi

theorem effect (h : Settled size p) (hlinked : p'.Linked) (heffect : Effect p p' a) : Safe p' := by
  cases heffect with
  | same _ heq => exact .settled size (heq ▸ h)
  | registered id _ _ hsame hrow hlen =>
    have hcount := h.count
    refine .joining size 0 id ⟨by omega, ⟨_, _, hrow, ?_⟩, ?_⟩
    · exact ⟨rfl, fun _ _ hnone => (nomatch hnone), hlen.le, .inl ⟨rfl, rfl⟩⟩
    · intro i m r hi hne
      have hm := h.rows i m r ((hsame.has_iff hne).mp hi)
      exact ⟨hm.phase, hm.known.ge, hm.report.ge, (hm.report.trans hm.next.symm).le,
        hm.next.le.trans (le_max_left _ _)⟩
  | reported _ _ hreport => exact .settled size (h.reported hlinked hreport)
  | handled id hold hanswer hsame hrow hlen =>
    refine .settled size ⟨hlen ▸ h.count, fun i m r hi => ?_⟩
    rcases hsame.cases hrow hi with ⟨-, rfl, rfl⟩ | ⟨-, hi⟩
    · exact (h.rows id _ _ hold).handle hanswer
    · exact h.rows i m r hi
  | started id hold hphase =>
    rw [(h.rows id _ _ hold).phase] at hphase
    cases hphase
  | left id _ _ _ _ hsame hgone =>
    have hcount := h.count
    refine .settled size ⟨by omega, fun i m r hi => ?_⟩
    have hne : i ≠ id := fun heq => hgone (heq ▸ mem_of_lookup hi.1)
    exact h.rows i m r ((hsame.has_iff hne).mp hi)

end Settled

variable {joiner : String}

namespace Joining

variable (h : Joining size bound joiner p)

include h

theorem ne_of_phase (hold : p.Has id m r) (hphase : m.phase ≠ .waiting) : id ≠ joiner := by
  rintro rfl
  obtain ⟨m', r', hrow, hm'⟩ := h.row
  rw [← (hold.unique hrow).1] at hm'
  exact hphase hm'.phase

variable {j : String}

omit h in
theorem two_le (hi : p.Has i m r) (hj : p.Has j m' r') (hne : i ≠ j) :
    2 ≤ p.members.keys.length := by
  have hsub : [i, j].Subperm p.members.keys := Nodup.subperm (by simp [hne]) (by
      simp [← AList.mem_keys, mem_of_lookup hi.1, mem_of_lookup hj.1])
  exact hsub.length_le

/-- The joining processor reports. -/
theorem reported_joiner (hpending : p.Linked) (hreport : Reported joiner m r c p p') : Safe p' := by
  obtain ⟨hold, hanswer, hsame, hrow, hc, hlen, hcalls⟩ := hreport
  obtain ⟨m', r', hrow', hm'⟩ := h.row
  obtain ⟨rfl, rfl⟩ := hold.unique hrow'
  have hdesired := next_of_none hanswer
  have hbound : bound ≤ m.desired := by
    rcases hm'.report with ⟨-, hzero⟩ | ⟨heq, -, hle⟩
    · omega
    · omega
  have hcount := hm'.next
  have hsize := hc.le_size joiner _ hrow.2
  have holdCount := h.count
  by_cases hagree : c = .agree c.size
  · -- all report what the joining processor reports
    have hall := hc.agree_iff.mp hagree
    have hk := hall joiner _ hrow.2
    refine .agreed size c.size (p.calls + 1) joiner
      ⟨by omega, by omega, hcalls.ge, ⟨_, _, hrow, hk, rfl, .inl ⟨hm'.phase, ?_⟩⟩, ?_⟩
    · rw [← hagree]
    · intro i m₁ r₁ hi hne
      have hold₁ := (hsame.has_iff hne).mp hi
      have hm₁ := h.rows i m₁ r₁ hold₁ hne
      have hr₁ := hall i r₁ hi.2
      have h₁ := hm₁.report
      have h₂ := hm₁.next
      have h₃ := hm₁.next_le
      obtain ⟨hcompleted, hanswers⟩ := hpending.numbers i m₁ hold₁.1
      refine ⟨hm₁.phase, hm₁.known, by omega, hr₁, ?_, fun n c' hc' hlt => ?_, fun hlt => ?_⟩
      · have hle := h₃.trans (max_le (by omega) (by omega))
        omega
      · have := (hanswers n c' hc').2
        omega
      · omega
  · refine .joining size m.desired joiner
      ⟨by omega, ⟨_, _, hrow, hm'.phase, fun n k hk => ?_, ?_, .inr ⟨rfl, by omega, hsize⟩⟩, ?_⟩
    · rw [Option.some.injEq, Prod.mk.injEq] at hk
      rw [hk.2] at hagree
      exact hagree rfl
    · have hnext : next { m with answer := some (p.calls + 1, c) } = c.size := rfl
      omega
    · intro i m₁ r₁ hi hne
      have hm₁ := h.rows i m₁ r₁ ((hsame.has_iff hne).mp hi) hne
      exact ⟨hm₁.phase, hm₁.known, hm₁.report, hm₁.next,
        hm₁.next_le.trans (max_le_max (le_refl _) hbound)⟩

/-- A consuming processor reports. -/
theorem reported (hlinked : p'.Linked) (hid : id ≠ joiner)
    (hreport : Reported id m r c p p') : Joining size bound joiner p' := by
  obtain ⟨hold, hanswer, hsame, hrow, hc, hlen, -⟩ := hreport
  obtain ⟨mj, rj, hrowj, hmj⟩ := h.row
  have hm := h.rows id m r hold hid
  have hdesired := next_of_none hanswer
  have htwo := two_le hold hrowj hid
  have hcount := h.count
  have hle : c.size ≤ max size bound := by
    obtain ⟨i, hi⟩ := hc.exists_size
    obtain ⟨m', hi⟩ := hlinked.exists_member hi
    rcases hsame.cases hrow hi with ⟨-, -, heq⟩ | ⟨hne, hi⟩
    · rw [heq, ← hdesired]
      exact hm.next_le
    · by_cases hj : i = joiner
      · subst hj
        rw [(hi.unique hrowj).2]
        rcases hmj.report with ⟨hone, -⟩ | ⟨heq, -⟩
        · exact le_trans (by omega) (le_max_left _ _)
        · exact heq ▸ le_max_right _ _
      · have hm' := h.rows i m' _ hi hj
        exact hm'.next.trans hm'.next_le
  refine ⟨hlen ▸ h.count, ⟨mj, rj, (hsame.has_iff hid.symm).mpr hrowj, hlen ▸ hmj⟩, ?_⟩
  intro i m' r' hi hne
  rcases hsame.cases hrow hi with ⟨-, rfl, rfl⟩ | ⟨-, hi⟩
  · have h₁ := hm.report
    have h₂ := hm.next
    exact ⟨hm.phase, hm.known, by omega, hc.le_size id _ hrow.2, hle⟩
  · exact h.rows i m' r' hi hne

theorem effect (hpending : p.Linked) (hlinked : p'.Linked)
    (hone : p.OneByOne a) (heffect : Effect p p' a) : Safe p' := by
  have hcount := h.count
  obtain ⟨mj, rj, hrowj, hmj⟩ := h.row
  cases heffect with
  | same _ heq => exact .joining size bound joiner (heq ▸ h)
  | registered =>
    have hphase := hone mj (mem_values.mpr ⟨joiner, hrowj.1⟩)
    rw [hmj.phase] at hphase
    cases hphase
  | reported id _ hreport =>
    by_cases hid : id = joiner
    · subst hid
      exact h.reported_joiner hpending hreport
    · exact .joining size bound joiner (h.reported hlinked hid hreport)
  | handled id hold hanswer hsame hrow hlen =>
    by_cases hid : id = joiner
    · subst hid
      obtain ⟨rfl, rfl⟩ := hold.unique hrowj
      refine .joining size bound _ ⟨hlen ▸ h.count, ⟨_, _, hrow, hlen ▸ hmj.handle hanswer⟩, ?_⟩
      intro i m r hi hne
      exact h.rows i m r ((hsame.has_iff hne).mp hi) hne
    · refine .joining size bound _ ⟨hlen ▸ h.count, ⟨mj, rj, (hsame.has_iff (Ne.symm hid)).mpr hrowj,
        hlen ▸ hmj⟩, fun i m r hi hne => ?_⟩
      rcases hsame.cases hrow hi with ⟨-, rfl, rfl⟩ | ⟨-, hi⟩
      · exact (h.rows id _ _ hold hid).handle hanswer
      · exact h.rows i m r hi hne
  | started id hold hphase =>
    have hid := h.ne_of_phase hold (by rw [hphase]; decide)
    rw [(h.rows id _ _ hold hid).phase] at hphase
    cases hphase
  | left id _ _ hold hphase hsame hgone =>
    have hid := h.ne_of_phase hold (by rw [hphase]; decide)
    refine .joining size bound _ ⟨by omega, ⟨mj, rj, (hsame.has_iff hid.symm).mpr hrowj, hmj.phase, hmj.answer,
      ?_, ?_⟩, fun i m r hi hne => ?_⟩
    · have := hmj.next
      omega
    · rcases hmj.report with hfirst | ⟨heq, hle, hnext⟩
      · exact .inl hfirst
      · exact .inr ⟨heq, by omega, hnext⟩
    · have hne' : i ≠ id := fun heq => hgone (heq ▸ mem_of_lookup hi.1)
      exact h.rows i m r ((hsame.has_iff hne').mp hi) hne

end Joining

namespace Agreed

variable (h : Agreed oldSize size call joiner p)

include h

theorem rows_uniform (hi : p.Has id m r) : r = size ∧ m.next = size := by
  obtain ⟨mj, rj, hrowj, hmj⟩ := h.row
  by_cases hj : id = joiner
  · subst hj
    obtain ⟨rfl, rfl⟩ := hi.unique hrowj
    exact ⟨hmj.report, hmj.next⟩
  · exact ⟨(h.rows id m r hi hj).report, (h.rows id m r hi hj).next⟩

theorem ne_of_consuming (hold : p.Has id m r) (hphase : m.phase = .consuming) : id ≠ joiner := by
  rintro rfl
  obtain ⟨mj, rj, hrowj, hmj⟩ := h.row
  exact hmj.not_consuming ((hold.unique hrowj).1 ▸ hphase)

/-- Every processor that reports gets agreement. -/
theorem reported (hlinked : p'.Linked)
    (hreport : Reported id m r c p p') : Agreed oldSize size call joiner p' := by
  have hcount := h.count
  have hsize := h.size_le
  have hcall := h.call_le
  obtain ⟨mj, rj, hrowj, hmj⟩ := h.row
  obtain ⟨rfl, hdesired⟩ := agree_of_uniform (fun i m r hi => h.rows_uniform hi) hlinked hreport
  obtain ⟨hold, hanswer, hsame, hrow, -, hlen, hcalls⟩ := hreport
  by_cases hid : id = joiner
  · subst hid
    obtain ⟨rfl, rfl⟩ := hold.unique hrowj
    rcases hmj.admitted with ⟨-, hsome⟩ | ⟨hphase, hknown, hat, -⟩
    · rw [hanswer] at hsome
      cases hsome
    · refine ⟨by omega, by omega, by omega,
        ⟨_, _, hrow, hdesired, rfl, .inr ⟨hphase, hknown, hat, ?_⟩⟩, fun i m' r' hi hne => ?_⟩
      · intro n c hc
        cases hc
        rfl
      · exact h.rows i m' r' ((hsame.has_iff hne).mp hi) hne
  · refine ⟨by omega, by omega, by omega,
      ⟨mj, rj, (hsame.has_iff (Ne.symm hid)).mpr hrowj, hmj⟩, fun i m' r' hi hne => ?_⟩
    rcases hsame.cases hrow hi with ⟨-, rfl, rfl⟩ | ⟨-, hi⟩
    · have hm := h.rows id m r hold hid
      refine ⟨hm.phase, hm.known, hm.size_le, hdesired, rfl, ?_, hm.completed⟩
      intro n c hc _
      cases hc
      rfl
    · exact h.rows i m' r' hi hne

/-- The new processor starts when all others have learned of the agreement. -/
theorem started (hpending : p.Linked) (hold : p.Has joiner m r) (hphase : m.phase = .admitted)
    (htimely : ∀ other ∈ values p.members, other.phase = .consuming →
      m.agreedAt < other.completed) (hsame : SameBut joiner p p')
    (hrow : p'.Has joiner { m with phase := .consuming } r)
    (hlen : p'.members.keys.length = p.members.keys.length) : Settled size p' := by
  obtain ⟨mj, rj, hrowj, hmj⟩ := h.row
  obtain ⟨rfl, rfl⟩ := hold.unique hrowj
  rcases hmj.admitted with ⟨hwaiting, -⟩ | ⟨-, hknown, hat, hagree⟩
  · rw [hwaiting] at hphase
    cases hphase
  · refine ⟨hlen ▸ h.size_le, fun i m' r' hi => ?_⟩
    rcases hsame.cases hrow hi with ⟨-, rfl, rfl⟩ | ⟨hne, hi⟩
    · exact ⟨rfl, hknown, hmj.report, hmj.next, hagree⟩
    · have hm' := h.rows i m' r' hi hne
      have hlt := htimely m' (mem_values.mpr ⟨i, hi.1⟩) hm'.phase
      rw [hat] at hlt
      refine ⟨hm'.phase, hm'.completed hlt, hm'.report, hm'.next, fun n c hc => ?_⟩
      have hlt' := ((hpending.numbers i m' hi.1).2 n c hc).1
      exact hm'.answer n c hc (by omega)

theorem effect (hpending : p.Linked) (hlinked : p'.Linked)
    [Zero F] (htimely : p.Timely a) (hone : p.OneByOne a) (heffect : Effect p p' a) : Safe p' := by
  have hcount := h.count
  have hsize := h.size_le
  have hcall := h.call_le
  obtain ⟨mj, rj, hrowj, hmj⟩ := h.row
  cases heffect with
  | same _ heq => exact .agreed oldSize size call joiner (heq ▸ h)
  | registered =>
    exact absurd (hone mj (mem_values.mpr ⟨joiner, hrowj.1⟩)) hmj.not_consuming
  | reported _ _ hreport => exact .agreed oldSize size call joiner (h.reported hlinked hreport)
  | handled id hold hanswer hsame hrow =>
    by_cases hid : id = joiner
    · subst hid
      obtain ⟨rfl, rfl⟩ := hold.unique hrowj
      refine .agreed oldSize size call _ ⟨by omega, by omega, by omega,
        ⟨_, _, hrow, hmj.handle hanswer⟩, fun i m' r' hi hne => ?_⟩
      exact h.rows i m' r' ((hsame.has_iff hne).mp hi) hne
    · refine .agreed oldSize size call joiner ⟨by omega, by omega, by omega,
        ⟨mj, rj, (hsame.has_iff (Ne.symm hid)).mpr hrowj, hmj⟩, fun i m' r' hi hne => ?_⟩
      rcases hsame.cases hrow hi with ⟨-, rfl, rfl⟩ | ⟨-, hi⟩
      · exact (h.rows id _ _ hold hid).handle hanswer
      · exact h.rows i m' r' hi hne
  | started id hold hphase hsame hrow hlen =>
    by_cases hid : id = joiner
    · subst hid
      exact .settled size (h.started hpending hold hphase (htimely _ hold.1) hsame hrow hlen)
    · rw [(h.rows id _ _ hold hid).phase] at hphase
      cases hphase
  | left id _ _ hold hphase hsame hgone =>
    have hid := h.ne_of_consuming hold hphase
    refine .agreed oldSize size call joiner ⟨by omega, by omega, by omega,
      ⟨mj, rj, (hsame.has_iff hid.symm).mpr hrowj, hmj⟩, fun i m' r' hi hne => ?_⟩
    have hne' : i ≠ id := fun heq => hgone (heq ▸ mem_of_lookup hi.1)
    exact h.rows i m' r' ((hsame.has_iff hne').mp hi) hne

end Agreed

/-- The stages follow each other. -/
theorem Safe.step [Zero F] (h : p.Safe) (hlinked : p.Linked) (htimely : p.Timely a)
    (hone : p.OneByOne a) : (p.step a).Safe := by
  obtain ⟨hlinked', heffect⟩ := hlinked.step htimely
  cases h with
  | settled _ h => exact h.effect hlinked' heffect
  | joining _ _ _ h => exact h.effect hlinked hlinked' hone heffect
  | agreed _ _ _ _ h => exact h.effect hlinked hlinked' htimely hone heffect

/-! ## The sum of the parts -/

/-- The processors that take tokens. -/
def consumers (p : Pool F) : List Member :=
  (HashMap.values p.members).filter fun m => m.phase = .consuming

/-- Members that know of at least `size` processors take `1 / size` each at most. -/
theorem sum_share_le (hsize : 0 < size) {l : List Member}
    (hknown : ∀ m ∈ l, m.phase = .consuming → size ≤ m.known) :
    (l.map share).sum ≤ (l.filter fun m => m.phase = .consuming).length * (1 / size : ℚ) := by
  induction l with
  | nil => simp
  | cons m l ih =>
    rw [forall_mem_cons] at hknown
    have ih := ih hknown.2
    rw [map_cons, sum_cons, filter_cons]
    by_cases hphase : m.phase = .consuming
    · have hshare : m.share ≤ 1 / (size : ℚ) := by
        rw [share, if_pos hphase]
        refine one_div_le_one_div_of_le (by exact_mod_cast hsize) ?_
        exact_mod_cast (hknown.1 hphase).trans (le_max_left _ _)
      simp only [hphase, decide_true, if_true, length_cons]
      push_cast
      linarith
    · have hshare : m.share = 0 := if_neg hphase
      simp only [hphase, decide_false, Bool.false_eq_true, if_false, hshare]
      linarith

/-- Processors that know at least their number share at most the whole. -/
theorem totalShare_le (size : Nat) (hcount : p.consumers.length ≤ size)
    (hknown : ∀ m ∈ values p.members, m.phase = .consuming → size ≤ m.known) :
    p.totalShare ≤ 1 := by
  rcases Nat.eq_zero_or_pos size with rfl | hpos
  · have hnone : ∀ m ∈ values p.members, m.share = 0 := by
      intro m hm
      refine if_neg fun hphase => ?_
      have hmem : m ∈ p.consumers := mem_filter.mpr ⟨hm, decide_eq_true hphase⟩
      have := length_pos_of_mem hmem
      omega
    have hzero : p.totalShare = 0 := by
      unfold totalShare
      rw [map_congr_left hnone]
      simp
    rw [hzero]
    exact zero_le_one
  · have hsum := sum_share_le hpos hknown
    have hle : (p.consumers.length : ℚ) * (1 / size : ℚ) ≤ 1 := by
      rw [mul_one_div, div_le_one (by exact_mod_cast hpos)]
      exact_mod_cast hcount
    exact hsum.trans hle

theorem values_length (p : Pool F) : (values p.members).length = p.members.keys.length := by
  simp [values, AList.keys, keys]

/-- With a processor that does not consume there are fewer consumers than processors. -/
theorem consumers_lt (hm : p.Has id m r) (hphase : m.phase ≠ .consuming) :
    p.consumers.length < p.members.keys.length := by
  rw [← values_length]
  refine length_filter_lt_length_iff_exists.mpr ⟨m, mem_values.mpr ⟨id, hm.1⟩, ?_⟩
  simpa using hphase

/-- The shares add up to one at most. -/
theorem Safe.totalShare_le (h : p.Safe) (hlinked : p.Linked) : p.totalShare ≤ 1 := by
  have hrow : ∀ m ∈ values p.members, ∃ id r, p.Has id m r := by
    intro m hm
    obtain ⟨id, hid⟩ := mem_values.mp hm
    obtain ⟨r, hr⟩ := hlinked.exists_row hid
    exact ⟨id, r, hr⟩
  cases h with
  | settled size h =>
    refine Pool.totalShare_le size ?_ fun m hm _ => ?_
    · exact (length_filter_le _ _).trans (by rw [values_length]; exact h.count)
    · obtain ⟨id, r, hr⟩ := hrow m hm
      exact (h.rows id m r hr).known.ge
  | joining size _ _ h =>
    obtain ⟨mj, rj, hrowj, hmj⟩ := h.row
    have hlt := consumers_lt hrowj (by rw [hmj.phase]; decide)
    have hcount := h.count
    refine Pool.totalShare_le size (by omega) fun m hm hphase => ?_
    obtain ⟨id, r, hr⟩ := hrow m hm
    exact (h.rows id m r hr (h.ne_of_phase hr (by rw [hphase]; decide))).known
  | agreed oldSize _ _ _ h =>
    obtain ⟨mj, rj, hrowj, hmj⟩ := h.row
    have hlt := consumers_lt hrowj hmj.not_consuming
    have hcount := h.count
    refine Pool.totalShare_le oldSize (by omega) fun m hm hphase => ?_
    obtain ⟨id, r, hr⟩ := hrow m hm
    exact (h.rows id m r hr (h.ne_of_consuming hr hphase)).known

/-- In every run of timely steps in which processors join one at a time, the parts of the
consuming processors add up to at most one. -/
theorem totalShare_le_one [Zero F] (staleAge : Nat) (actions : List (PoolAction F))
    (hrun : Along (fun p a => p.Timely a ∧ p.OneByOne a) step (init staleAge : Pool F) actions) :
    (exec step (init staleAge : Pool F) actions).totalShare ≤ 1 := by
  have hinit : Safe (init staleAge : Pool F) := by
    refine .settled 0 ⟨le_refl 0, fun id m r h => ?_⟩
    cases h.1
  have hboth := exec_invariant (I := fun p : Pool F => p.Linked ∧ p.Safe)
    (fun p a h hok => ⟨(h.1.step hok.1).1, h.2.step h.1 hok.1 hok.2⟩)
    ⟨Linked.init staleAge, hinit⟩ hrun
  exact hboth.2.totalShare_le hboth.1

/-- A consumes alone, B joins, and both consume half of the tokens. -/
def twoProcessors : List (PoolAction Nat) :=
  [.register "a" 0, .sync "a" 0, .handle "a", .start "a",
    .register "b" 1, .sync "b" 1, .handle "b", .sync "a" 2, .handle "a", .sync "a" 2, .handle "a",
    .sync "b" 2, .handle "b", .sync "a" 3, .handle "a", .start "b"]

theorem twoProcessors_totalShare : (exec step (init 180 : Pool Nat) twoProcessors).totalShare = 1 ∧
      (exec step (init 180 : Pool Nat) twoProcessors).totalShare ≤ 1 :=
  ⟨by decide +kernel, totalShare_le_one 180 twoProcessors (by decide +kernel)⟩

/-- A consumes alone; B and C register, and when B has obtained agreement on three, D
registers.  A's next report gets disagreement, so A keeps a pool size of one when B starts. -/
def lateJoin : List (PoolAction Nat) :=
  [.register "a" 0, .sync "a" 0, .handle "a", .start "a",
    .register "b" 1, .register "c" 1, .sync "c" 1, .handle "c",
    .sync "a" 2, .handle "a", .sync "a" 2, .handle "a",
    .sync "b" 2, .handle "b", .sync "b" 3, .handle "b",
    .register "d" 3, .sync "a" 3, .handle "a", .start "b"]

theorem lateJoin_totalShare : Along Timely step (init 180 : Pool Nat) lateJoin ∧
    (exec step (init 180 : Pool Nat) lateJoin).totalShare = 4 / 3 := by
  decide +kernel

end Pool
end Numaflow.Throttling
