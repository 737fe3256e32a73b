import Mathlib

/-!
# Runs of a transition function

A system is given by a transition function on states and actions.  An action
that is not enabled leaves the state as it is, so every list of actions is a
run and every interleaving of several parties is such a list.  A condition on
the single steps is a predicate on the action and the state it is taken in.

Main results: `exec_invariant`, `collect_simulates`, `foldlM_iff`.
-/

namespace Numaflow.Lib

open List

variable {σ ι : Type}

/-- The state reached from `s` by a list of actions. -/
def exec (step : σ → ι → σ) (s : σ) : List ι → σ
  | [] => s
  | a :: as => exec step (step s a) as

/-- Every action of the run is admitted in the state it is taken in. -/
def Along (ok : σ → ι → Prop) (step : σ → ι → σ) : σ → List ι → Prop
  | _, [] => True
  | s, a :: as => ok s a ∧ Along ok step (step s a) as

section

variable {ok : σ → ι → Prop} {step : σ → ι → σ} {s : σ}

@[simp]
theorem Along.nil : Along ok step s [] :=
  trivial

variable {a : ι} {as : List ι} {ok' : σ → ι → Prop} {I : σ → Prop}

@[simp]
theorem Along.cons : Along ok step s (a :: as) ↔ ok s a ∧ Along ok step (step s a) as :=
  Iff.rfl

variable {bs : List ι}

theorem exec_append : exec step s (as ++ bs) = exec step (exec step s as) bs := by
  induction as generalizing s with
  | nil => rfl
  | cons a _ ih => exact ih

theorem Along.append :
    Along ok step s (as ++ bs) ↔ Along ok step s as ∧ Along ok step (exec step s as) bs := by
  induction as generalizing s with
  | nil => simp [exec]
  | cons a _ ih => rw [cons_append, Along.cons, Along.cons, ih, exec, and_assoc]

theorem Along.imp (h : ∀ s a, ok s a → ok' s a) (hrun : Along ok step s as) :
    Along ok' step s as := by
  induction as generalizing s with
  | nil => trivial
  | cons a _ ih => exact ⟨h s a hrun.1, ih hrun.2⟩

theorem Along.and (h : Along ok step s as) (h' : Along ok' step s as) :
    Along (fun s a => ok s a ∧ ok' s a) step s as := by
  induction as generalizing s with
  | nil => trivial
  | cons a _ ih => exact ⟨⟨h.1, h'.1⟩, ih h.2 h'.2⟩

instance Along.decidable [∀ s a, Decidable (ok s a)] :
    ∀ (s : σ) (as : List ι), Decidable (Along ok step s as)
  | _, [] => isTrue trivial
  | s, a :: as =>
    have := Along.decidable (step s a) as
    inferInstanceAs (Decidable (ok s a ∧ Along ok step (step s a) as))

/-- What an invariant of the admitted steps implies holds of every step of an admitted run. -/
theorem Along.of_invariant (hstep : ∀ s a, I s → ok s a → I (step s a)) (hok : ∀ s a, I s → ok' s a)
    (hs : I s) (hrun : Along ok step s as) : Along ok' step s as := by
  induction as generalizing s with
  | nil => trivial
  | cons a _ ih => exact ⟨hok s a hs, ih (hstep s a hs hrun.1) hrun.2⟩

/-- An invariant of the admitted steps holds after every admitted run. -/
theorem exec_invariant (hstep : ∀ s a, I s → ok s a → I (step s a)) (hs : I s)
    (hrun : Along ok step s as) : I (exec step s as) := by
  induction as generalizing s with
  | nil => exact hs
  | cons a _ ih => exact ih (hstep s a hs hrun.1) hrun.2

/-- An invariant of all steps holds after every run. -/
theorem exec_invariant_all (hstep : ∀ s a, I s → I (step s a)) (hs : I s) : I (exec step s as) := by
  induction as generalizing s with
  | nil => exact hs
  | cons a _ ih => exact ih (hstep s a hs)

/-- What holds after a run held before, or one of the steps has brought it about. -/
theorem exec_iff_exists {P : σ → Prop} {Q : σ → ι → Prop}
    (hstep : ∀ s a, P (step s a) ↔ P s ∨ Q s a) (s : σ) (as : List ι) :
    P (exec step s as) ↔ P s ∨
      ∃ before a after, as = before ++ a :: after ∧ Q (exec step s before) a := by
  induction as generalizing s with
  | nil => simp [exec]
  | cons a as ih =>
    rw [exec, ih, hstep, or_assoc]
    refine or_congr_right ⟨fun h => ?_, fun h => ?_⟩
    · rcases h with hfirst | ⟨before, b, after, rfl, hlater⟩
      · exact ⟨[], a, as, rfl, hfirst⟩
      · exact ⟨a :: before, b, after, rfl, hlater⟩
    · obtain ⟨before, b, after, heq, hadds⟩ := h
      cases before with
      | nil =>
        cases heq
        exact .inl hadds
      | cons =>
        cases heq
        exact .inr ⟨_, b, after, rfl, hadds⟩

end

/-! ## Tasks in a list -/

section

variable {τ : Type} {tasks : List τ} {i j : Nat} {task found : τ}

/-- After one task has changed, a task is the changed one or one of the others. -/
theorem getElem?_set_cases (h : (tasks.set i task)[j]? = some found) :
    j = i ∧ found = task ∨ j ≠ i ∧ tasks[j]? = some found := by
  by_cases hj : j = i
  · subst hj
    rw [getElem?_set_self'] at h
    obtain ⟨old, -, hfound⟩ := Option.map_eq_some_iff.mp h
    exact .inl ⟨rfl, hfound.symm⟩
  · rw [getElem?_set_ne (Ne.symm hj)] at h
    exact .inr ⟨hj, h⟩

theorem mem_set_cases (h : found ∈ tasks.set i task) :
    found = task ∨ ∃ j, j ≠ i ∧ tasks[j]? = some found := by
  obtain ⟨j, hj⟩ := getElem?_of_mem h
  exact (getElem?_set_cases hj).imp And.right fun h => ⟨j, h⟩

variable {old : τ} {β : Type}

theorem mem_set_self (h : tasks[i]? = some old) : task ∈ tasks.set i task :=
  List.mem_set (List.getElem?_eq_some_iff.mp h).1 task

/-- After a task was started, a task is an old one or the new one. -/
theorem getElem?_append_singleton_cases (h : (tasks ++ [task])[i]? = some found) :
    tasks[i]? = some found ∨ i = tasks.length ∧ found = task := by
  rcases Nat.lt_or_ge i tasks.length with hlt | hge
  · rw [getElem?_append_left hlt] at h
    exact .inl h
  · rw [getElem?_append_right hge, getElem?_singleton] at h
    split_ifs at h with hi
    exact .inr ⟨by omega, (Option.some.inj h).symm⟩

/-- What holds of a list with one item more. -/
theorem forall_mem_concat {p : τ → Prop} :
    (∀ x ∈ tasks ++ [task], p x) ↔ (∀ x ∈ tasks, p x) ∧ p task := by
  rw [forall_mem_append, forall_mem_singleton]

/-- What the tasks hold is what one of them holds and what the others hold. -/
theorem exists_flatMap_set (h : tasks[i]? = some found) (f : τ → List β) :
    ∃ rest, (tasks.flatMap f).Perm (f found ++ rest) ∧
      ∀ task, ((tasks.set i task).flatMap f).Perm (f task ++ rest) := by
  induction tasks generalizing i with
  | nil => cases h
  | cons head tasks ih =>
    cases i with
    | zero =>
      cases h
      exact ⟨tasks.flatMap f, Perm.refl _, fun _ => Perm.refl _⟩
    | succ =>
      obtain ⟨rest, hold, hnew⟩ := ih h
      refine ⟨f head ++ rest, ?_, fun task => ?_⟩
      · exact (hold.append_left (f head)).trans (perm_append_comm_assoc ..)
      · exact ((hnew task).append_left (f head)).trans (perm_append_comm_assoc ..)

/-- After one task has changed, the others are still there. -/
theorem eq_or_mem_set (h : tasks[i]? = some old) (hfound : found ∈ tasks) :
    found = old ∨ found ∈ tasks.set i task := by
  obtain ⟨j, hj⟩ := getElem?_of_mem hfound
  by_cases hji : j = i
  · subst hji
    exact .inl (Option.some.inj (hj.symm.trans h))
  · exact .inr (mem_of_getElem? ((getElem?_set_ne (Ne.symm hji)).trans hj))

end

/-! ## Steps that emit outputs -/

variable {α ω : Type}

/-- Thread a state through a list and concatenate what the steps emit. -/
def collect (f : σ → α → σ × List ω) (s : σ) : List α → σ × List ω
  | [] => (s, [])
  | a :: as =>
    let head := f s a
    let tail := collect f head.1 as
    (tail.1, head.2 ++ tail.2)

variable {f : σ → α → σ × List ω} {s : σ}

@[simp]
theorem collect_nil : collect f s [] = (s, []) :=
  rfl

variable {a : α} {as l : List α} {δ : Type} {g : δ → ω → δ} {d : δ}

@[simp]
theorem collect_cons : collect f s (a :: as) =
      ((collect f (f s a).1 as).1, (f s a).2 ++ (collect f (f s a).1 as).2) :=
  rfl

/-- An observer that applies the emitted outputs stays related to the loop when
every iteration keeps them related; the relation may mention the items that are
still to come. -/
theorem collect_simulates {R : List α → σ → δ → Prop}
    (hstep : ∀ a l s d, R (a :: l) s d → R l (f s a).1 ((f s a).2.foldl g d))
    (h : R l s d) : R [] (collect f s l).1 ((collect f s l).2.foldl g d) := by
  induction l generalizing s d with
  | nil => exact h
  | cons a l ih =>
    rw [collect_cons, foldl_append]
    exact ih (hstep a l s d h)

/-! ## Loops that may stop early -/

section

variable {β : Type} {f : β → α → Option β} {b b' : β}

/-- A loop runs to its end when none of its rounds stops. -/
theorem foldlM_isSome (h : ∀ a ∈ l, ∀ b, (f b a).isSome = true) : (l.foldlM f b).isSome = true := by
  induction l generalizing b with
  | nil => rfl
  | cons a l ih =>
    obtain ⟨c, hc⟩ := Option.isSome_iff_exists.mp (h a mem_cons_self b)
    rw [foldlM_cons, hc]
    exact ih fun a ha => h a (mem_cons_of_mem _ ha)

/-- A property that every round restricts by a condition on its item holds at the
end when it holds at the start and every item meets its condition. -/
theorem foldlM_iff {P : β → Prop} {Q : α → Prop}
    (hround : ∀ b a b', f b a = some b' → (P b' ↔ P b ∧ Q a)) (h : l.foldlM f b = some b') :
    P b' ↔ P b ∧ ∀ a ∈ l, Q a := by
  induction l generalizing b with
  | nil =>
    cases h
    simp
  | cons a l ih =>
    obtain ⟨c, hc, hrest⟩ := Option.bind_eq_some_iff.mp h
    rw [ih hrest, hround b a c hc, forall_mem_cons, and_assoc]

end

end Numaflow.Lib
