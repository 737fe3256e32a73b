import Mathlib

/-!
# Searches along paths

Two recursive searches in a directed graph that keep the nodes of the current path only.
The first one collects the nodes at which a path comes back to itself, the second one looks
for a node with a property.  A call is for a node and the path that leads to it, and goes
on only when the node is not on the path.  The depth of the calls is an argument.

Main results: `acc_calls`, `cyclesFrom_eq`, `search_eq`, `mem_cyclesFrom`,
`exists_mem_cyclesFrom`, `search_iff`.
-/

namespace Numaflow.Lib.PathSearch

open Relation List ReflTransGen

variable {α : Type} {r : α → α → Prop} {a b : α}

/-- A way that does not end where it starts leaves the start for a last time. -/
theorem exists_step_avoiding (h : ReflTransGen r a b) (hne : b ≠ a) :
    ∃ c, r a c ∧ c ≠ a ∧ ReflTransGen (fun x y => r x y ∧ y ≠ a) c b := by
  induction h with
  | refl => exact absurd rfl hne
  | @tail b c _ hbc ih =>
    by_cases hb : b = a
    · subst hb
      exact ⟨c, hbc, hne, refl⟩
    · rcases ih hb with ⟨d, had, hd, hrest⟩
      exact ⟨d, had, hd, hrest.tail ⟨hbc, hne⟩⟩

variable (succ : α → List α)

/-- There is an edge between two nodes. -/
def Step (a b : α) : Prop :=
  b ∈ succ a

variable [DecidableEq α]

/-- The nodes at which a path that starts at `start` comes back to itself. -/
def cyclesFrom : Nat → α → List α → List α
  | 0, _, _ => []
  | depth + 1, start, path =>
    if succ start = [] then []
    else if start ∈ path then [start]
    else (succ start).flatMap fun next => cyclesFrom depth next (start :: path)

/-- Whether a node with the property is found from `start`. -/
def search (found : α → Bool) : Nat → α → List α → Bool
  | 0, _, _ => false
  | depth + 1, start, path =>
    if found start then true
    else if start ∈ path then false
    else (succ start).any fun next => search found depth next (start :: path)

/-- The calls that a call makes, callee first. -/
def Calls (callee caller : α × List α) : Prop :=
  caller.1 ∉ caller.2 ∧ callee.1 ∈ succ caller.1 ∧ callee.2 = caller.1 :: caller.2

/-- Number of nodes that are not on the path. -/
def fresh (nodes path : List α) : Nat :=
  (nodes.filter (· ∉ path)).length

theorem fresh_nil (nodes : List α) : fresh nodes [] = nodes.length := by
  simp [fresh]

/-- A node that joins the path is no longer fresh. -/
theorem fresh_cons_lt {nodes path : List α} (ha : a ∈ nodes) (hpath : a ∉ path) :
    fresh nodes (a :: path) < fresh nodes path := by
  unfold fresh
  have hfilter : nodes.filter (· ∉ a :: path) = (nodes.filter (· ∉ path)).filter (· ≠ a) := by
    rw [filter_filter]
    apply filter_congr
    intro b _
    simp [mem_cons, not_or]
  rw [hfilter]
  apply length_filter_lt_length_iff_exists.mpr
  exact ⟨a, mem_filter.mpr ⟨ha, by simpa using hpath⟩, by simp⟩

variable {found : α → Bool} {path : List α} {c : α}

section

variable {succ} {nodes : List α} (hnodes : ∀ a, ∀ b ∈ succ a, a ∈ nodes)

include hnodes

/-- Every chain of calls ends. -/
theorem acc_calls (call : α × List α) : Acc (Calls succ) call := by
  induction hn : fresh nodes call.2 using Nat.strongRecOn generalizing call with
  | ind n ih =>
    constructor
    rintro ⟨next, path⟩ ⟨hpath, hnext, hcons⟩
    subst hcons
    apply ih _ _ _ rfl
    rw [← hn]
    exact fresh_cons_lt (hnodes _ next hnext) hpath

variable {depth depth' : Nat} {start x : α}

/-- The depth does not matter once it exceeds the number of nodes off the path. -/
theorem cyclesFrom_eq (h : fresh nodes path < depth) (h' : fresh nodes path < depth') :
    cyclesFrom succ depth start path = cyclesFrom succ depth' start path := by
  induction depth generalizing depth' start path with
  | zero => omega
  | succ _ ih =>
    rcases Nat.exists_eq_succ_of_ne_zero (Nat.ne_zero_of_lt h') with ⟨depth', rfl⟩
    simp only [cyclesFrom]
    split_ifs with _ hpath
    · rfl
    · rfl
    · apply flatMap_congr
      intro next hnext
      have hlt := fresh_cons_lt (hnodes start next hnext) hpath
      apply ih
      · omega
      · omega

/-- Nor does it matter for the search. -/
theorem search_eq (h : fresh nodes path < depth)
    (h' : fresh nodes path < depth') :
    search succ found depth start path = search succ found depth' start path := by
  induction depth generalizing depth' start path with
  | zero => omega
  | succ depth ih =>
    rcases Nat.exists_eq_succ_of_ne_zero (Nat.ne_zero_of_lt h') with ⟨depth', rfl⟩
    simp only [search]
    split_ifs with _ hpath
    · rfl
    · rfl
    · rw [Bool.eq_iff_iff, any_eq_true, any_eq_true]
      refine exists_congr fun next => and_congr_right fun hnext => ?_
      have hlt := fresh_cons_lt (hnodes start next hnext) hpath
      have hdepth : fresh nodes (start :: path) < depth := by omega
      have hdepth' : fresh nodes (start :: path) < depth' := by omega
      rw [ih hdepth hdepth']

/-- Every cycle that is reached is reached from a node that is collected. -/
theorem exists_mem_cyclesFrom (hdepth : fresh nodes path < depth)
    (hreach : ReflTransGen (Step succ) start x) (hcycle : TransGen (Step succ) x x) :
    ∃ c ∈ cyclesFrom succ depth start path, ReflTransGen (Step succ) c x := by
  induction depth generalizing start path with
  | zero => omega
  | succ depth ih =>
    -- the cycle makes the path to the node at least one edge long
    rcases TransGen.head'_iff.mp (hcycle.trans_right hreach) with ⟨next, hnext, hrest⟩
    rw [cyclesFrom, if_neg (ne_nil_of_mem hnext)]
    by_cases hpath : start ∈ path
    · rw [if_pos hpath]
      exact ⟨start, mem_singleton_self start, hreach⟩
    · rw [if_neg hpath]
      have hlt := fresh_cons_lt (hnodes start next hnext) hpath
      have hdepth' : fresh nodes (start :: path) < depth := by omega
      rcases ih hdepth' hrest with ⟨c, hc, hreach'⟩
      exact ⟨c, mem_flatMap.mpr ⟨next, hnext, hc⟩, hreach'⟩

/-- The search finds a node that is reached along nodes off the path. -/
theorem search_of_reach (hdepth : fresh nodes path < depth)
    (hstart : start ∉ path) (hreach : ReflTransGen (fun a b => Step succ a b ∧ b ∉ path) start x)
    (hx : found x = true) : search succ found depth start path = true := by
  induction depth generalizing start path with
  | zero => omega
  | succ depth ih =>
    rw [search]
    by_cases hfound : found start = true
    · rw [if_pos hfound]
    · have hne : x ≠ start := by
        rintro rfl
        exact hfound hx
      rw [if_neg hfound, if_neg hstart, any_eq_true]
      -- after the node is left for the last time, it is off the rest of the way
      rcases exists_step_avoiding hreach hne with ⟨next, ⟨hnext, hpath⟩, hne', hrest⟩
      have hlt := fresh_cons_lt (hnodes start next hnext) hstart
      have hdepth' : fresh nodes (start :: path) < depth := by omega
      refine ⟨next, hnext, ih hdepth' ?_ ?_⟩
      · rw [mem_cons, not_or]
        exact ⟨hne', hpath⟩
      · refine mono ?_ _ _ hrest
        rintro a b ⟨⟨hstep, hb⟩, hb'⟩
        refine ⟨hstep, ?_⟩
        rw [mem_cons, not_or]
        exact ⟨hb', hb⟩

end

variable {succ} {depth : Nat} {start : α}

/-- What is collected is reached and lies on a cycle, when the path leads to the start. -/
theorem mem_cyclesFrom (hpath : ∀ a ∈ path, TransGen (Step succ) a start)
    (hc : c ∈ cyclesFrom succ depth start path) :
    ReflTransGen (Step succ) start c ∧ TransGen (Step succ) c c := by
  induction depth generalizing start path with
  | zero => exact absurd hc not_mem_nil
  | succ _ ih =>
    rw [cyclesFrom] at hc
    split_ifs at hc with _ hmem
    · exact absurd hc not_mem_nil
    · rw [mem_singleton] at hc
      subst hc
      exact ⟨refl, hpath c hmem⟩
    · rcases mem_flatMap.mp hc with ⟨next, hnext, hc⟩
      have hpath' : ∀ a ∈ start :: path, TransGen (Step succ) a next := by
        intro a ha
        rcases mem_cons.mp ha with rfl | ha
        · exact TransGen.single hnext
        · exact (hpath a ha).tail hnext
      rcases ih hpath' hc with ⟨hreach, hcycle⟩
      exact ⟨head hnext hreach, hcycle⟩

theorem reach_of_search (h : search succ found depth start path = true) :
    ∃ x, ReflTransGen (Step succ) start x ∧ found x = true := by
  induction depth generalizing start path with
  | zero => cases h
  | succ _ ih =>
    rw [search] at h
    split_ifs at h with hfound hmem
    · exact ⟨start, refl, hfound⟩
    · rcases any_eq_true.mp h with ⟨next, hnext, hsearch⟩
      rcases ih hsearch with ⟨x, hreach, hx⟩
      exact ⟨x, head hnext hreach, hx⟩

/-- From a call with an empty path the search finds a node exactly when one is reachable. -/
theorem search_iff {nodes : List α} (hnodes : ∀ a, ∀ b ∈ succ a, a ∈ nodes)
    (hdepth : nodes.length < depth) : search succ found depth start [] = true ↔
      ∃ x, ReflTransGen (Step succ) start x ∧ found x = true := by
  constructor
  · exact reach_of_search
  · rintro ⟨x, hreach, hx⟩
    rw [← fresh_nil nodes] at hdepth
    apply search_of_reach hnodes hdepth not_mem_nil _ hx
    exact mono (fun a b hstep => ⟨hstep, not_mem_nil⟩) _ _ hreach

end Numaflow.Lib.PathSearch
