import Numaflow.Lib.PathSearch

/-!
# Collecting what is reachable

A recursive walk that visits every node once and collects the items (the edges) that leave
the nodes it visits, each before the node it leads to.  The depth of the calls is an argument.

Main results: `walk_spec`, `mem_walk_iff`, `walk_collects`, `walk_eq_of_lt`.
-/

namespace Numaflow.Lib.Traversal

open Relation PathSearch List

variable {α ε : Type}

/-- What was collected and visited so far. -/
structure Progress (α ε : Type) where
  items : List ε
  visited : List α

/-- Collect one item. -/
def Progress.add (s : Progress α ε) (e : ε) : Progress α ε :=
  { s with items := s.items ++ [e] }

/-- Visit a node, unless it was visited. -/
def walk [DecidableEq α] (leaving : α → List ε) (target : ε → α) :
    Nat → α → Progress α ε → Progress α ε
  | 0, _, s => s
  | depth + 1, a, s =>
    if a ∈ s.visited then s
    else (leaving a).foldl (fun s e => walk leaving target depth (target e) (s.add e))
      { s with visited := a :: s.visited }

/-- One item leads from the first node to the second. -/
def Leads (leaving : α → List ε) (target : ε → α) (a b : α) : Prop :=
  ∃ e ∈ leaving a, target e = b

/-- The progress made from a node: nothing is lost, every node visited is finished unless it
was visited before, and what is added leaves nodes reachable from the given one. -/
structure Extends (leaving : α → List ε) (target : ε → α) (a : α) (s s' : Progress α ε) :
    Prop where
  items : ∀ e ∈ s.items, e ∈ s'.items
  visited : ∀ b ∈ s.visited, b ∈ s'.visited
  finished : ∀ b ∈ s'.visited, b ∉ s.visited → ∀ e ∈ leaving b,
    e ∈ s'.items ∧ target e ∈ s'.visited
  sound : ∀ e ∈ s'.items, e ∈ s.items ∨
    ∃ b, ReflTransGen (Leads leaving target) a b ∧ e ∈ leaving b

section

variable {leaving : α → List ε} {target : ε → α} {a : α} {s s' s'' : Progress α ε}

theorem Extends.refl (a : α) (s : Progress α ε) : Extends leaving target a s s :=
  ⟨fun _ => id, fun _ => id, fun _ h h' => absurd h h', fun _ h => .inl h⟩

theorem Extends.trans (h : Extends leaving target a s s') (h' : Extends leaving target a s' s'') :
    Extends leaving target a s s'' where
  items := fun e he => h'.items e (h.items e he)
  visited := fun b hb => h'.visited b (h.visited b hb)
  finished := by
    intro b hb hnew e he
    by_cases hmid : b ∈ s'.visited
    · rcases h.finished b hmid hnew e he with ⟨hitem, hvisited⟩
      exact ⟨h'.items e hitem, h'.visited _ hvisited⟩
    · exact h'.finished b hb hmid e he
  sound := by
    intro e he
    rcases h'.sound e he with he | hreach
    · exact h.sound e he
    · exact .inr hreach

variable {e : ε} {path path' : List α} {depth depth' : Nat} {b : α}

/-- An item is collected, and then its target visited. -/
theorem Extends.of_target (he : e ∈ leaving a)
    (h : Extends leaving target (target e) (s.add e) s') : Extends leaving target a s s' where
  items := fun x hx => h.items x (mem_append_left _ hx)
  visited := h.visited
  finished := h.finished
  sound := by
    intro x hx
    rcases h.sound x hx with hx | ⟨b, hreach, hx⟩
    · rcases mem_append.mp hx with hx | hx
      · exact .inl hx
      · rw [mem_singleton] at hx
        subst hx
        exact .inr ⟨a, ReflTransGen.refl, he⟩
    · exact .inr ⟨b, ReflTransGen.head ⟨e, he, rfl⟩ hreach, hx⟩

/-- The loop over items that leave a node, when each call in it makes progress. -/
theorem extends_foldl {visit : α → Progress α ε → Progress α ε} {base : List α}
    (hvisit : ∀ e ∈ leaving a, ∀ t : Progress α ε, (∀ b ∈ base, b ∈ t.visited) →
      Extends leaving target (target e) t (visit (target e) t) ∧
        target e ∈ (visit (target e) t).visited)
    {es : List ε} (hes : ∀ e ∈ es, e ∈ leaving a) (hbase : ∀ b ∈ base, b ∈ s.visited) :
    Extends leaving target a s (es.foldl (fun s e => visit (target e) (s.add e)) s) ∧
      ∀ e ∈ es, e ∈ (es.foldl (fun s e => visit (target e) (s.add e)) s).items ∧
        target e ∈ (es.foldl (fun s e => visit (target e) (s.add e)) s).visited := by
  induction es generalizing s with
  | nil => exact ⟨Extends.refl a s, by simp⟩
  | cons e _ ih =>
    have he := hes e mem_cons_self
    rcases hvisit e he (s.add e) hbase with ⟨hext, hmem⟩
    have hitem := hext.items e (mem_append_right _ (mem_singleton_self e))
    rcases ih (fun x hx => hes x (mem_cons_of_mem e hx))
      (fun b hb => hext.visited b (hbase b hb)) with ⟨hrest, hall⟩
    refine ⟨(hext.of_target he).trans hrest, ?_⟩
    intro x hx
    rcases mem_cons.mp hx with rfl | hx
    · exact ⟨hrest.items x hitem, hrest.visited _ hmem⟩
    · exact hall x hx

variable [DecidableEq α] {nodes : List α} (hnodes : ∀ a, ∀ e ∈ leaving a, a ∈ nodes)

/-- Fewer nodes are fresh when more are visited. -/
theorem fresh_mono (h : ∀ a ∈ path, a ∈ path') : fresh nodes path' ≤ fresh nodes path := by
  apply List.Sublist.length_le
  apply monotone_filter_right
  intro a ha
  simp only [decide_not, Bool.not_eq_true', decide_eq_false_iff_not] at ha ⊢
  exact fun hmem => ha (h a hmem)

omit hnodes in
/-- A call visits each node at most once, and collects the items of the nodes it visits. -/
theorem walk_collects (depth : Nat) (hs : s.visited.Nodup) :
    (walk leaving target depth a s).visited.Nodup ∧
      ∃ new, (walk leaving target depth a s).visited.Perm (new ++ s.visited) ∧
        (walk leaving target depth a s).items.Perm (s.items ++ new.flatMap leaving) := by
  induction depth generalizing a s with
  | zero => exact ⟨hs, [], .rfl, by rw [walk, flatMap_nil, append_nil]⟩
  | succ depth ih =>
    rw [walk]
    split_ifs with hvisited
    · exact ⟨hs, [], .rfl, by rw [flatMap_nil, append_nil]⟩
    · have hloop : ∀ (es : List ε) (t : Progress α ε), t.visited.Nodup →
          (es.foldl (fun s e => walk leaving target depth (target e) (s.add e)) t).visited.Nodup ∧
            ∃ new,
              (es.foldl (fun s e => walk leaving target depth (target e) (s.add e)) t).visited.Perm
                (new ++ t.visited) ∧
              (es.foldl (fun s e => walk leaving target depth (target e) (s.add e)) t).items.Perm
                (t.items ++ (es ++ new.flatMap leaving)) := by
        intro es
        induction es with
        | nil => exact fun t ht => ⟨ht, [], .rfl, by simp⟩
        | cons e _ ih' =>
          intro t ht
          obtain ⟨hnodup, new, hvisit, hitems⟩ := ih (a := target e) (s := t.add e) ht
          obtain ⟨hnodup', new', hvisit', hitems'⟩ := ih' _ hnodup
          refine ⟨hnodup', new' ++ new, ?_, ?_⟩
          · rw [append_assoc]
            exact hvisit'.trans (hvisit.append_left new')
          · refine hitems'.trans ((hitems.append_right _).trans ?_)
            simp only [Progress.add, flatMap_append, append_assoc, cons_append, nil_append]
            exact .append_left _ (.cons e (perm_append_comm.trans (.of_eq (append_assoc ..))))
      obtain ⟨hnodup, new, hvisit, hitems⟩ := hloop (leaving a) { s with visited := a :: s.visited }
        (nodup_cons.mpr ⟨hvisited, hs⟩)
      refine ⟨hnodup, new ++ [a], ?_, ?_⟩
      · rw [append_assoc, singleton_append]
        exact hvisit
      · rw [flatMap_append, flatMap_singleton]
        exact hitems.trans (perm_append_comm.append_left _)

include hnodes

/-- A call visits its node and everything that is reachable and new. -/
theorem walk_spec (hdepth : fresh nodes s.visited < depth) :
    Extends leaving target a s (walk leaving target depth a s) ∧
      a ∈ (walk leaving target depth a s).visited := by
  induction depth generalizing a s with
  | zero => omega
  | succ depth ih =>
    rw [walk]
    by_cases hvisited : a ∈ s.visited
    · rw [if_pos hvisited]
      exact ⟨Extends.refl a s, hvisited⟩
    · rw [if_neg hvisited]
      -- while the node is being visited it counts as visited, so every call is for less
      have hvisit : ∀ e ∈ leaving a, ∀ t : Progress α ε, (∀ b ∈ a :: s.visited, b ∈ t.visited) →
          Extends leaving target (target e) t (walk leaving target depth (target e) t) ∧
            target e ∈ (walk leaving target depth (target e) t).visited := by
        intro e he t ht
        have hle : fresh nodes t.visited ≤ fresh nodes (a :: s.visited) := fresh_mono ht
        have hlt := fresh_cons_lt (hnodes a e he) hvisited
        apply ih
        omega
      rcases extends_foldl hvisit (fun e he => he)
        (s := { s with visited := a :: s.visited }) (fun b hb => hb) with ⟨hext, hall⟩
      refine ⟨⟨hext.items, fun b hb => hext.visited b (mem_cons_of_mem a hb), ?_,
        hext.sound⟩, hext.visited a mem_cons_self⟩
      intro b hb hnew e he
      by_cases hba : b = a
      · subst hba
        exact hall e he
      · refine hext.finished b hb ?_ e he
        rw [mem_cons, not_or]
        exact ⟨hba, hnew⟩

/-- Calls end before the depth is used up. -/
theorem walk_eq_of_lt (hdepth : fresh nodes s.visited < depth) (hle : depth ≤ depth') :
    walk leaving target depth' a s = walk leaving target depth a s := by
  induction depth generalizing depth' a s with
  | zero => omega
  | succ depth ih =>
    obtain ⟨depth', rfl⟩ := Nat.exists_eq_succ_of_ne_zero (Nat.ne_of_gt (Nat.zero_lt_of_lt hle))
    rw [walk, walk]
    split_ifs with hvisited
    · rfl
    -- the calls of the loop are for states in which the node is visited
    · have hloop : ∀ es ⊆ leaving a, ∀ t : Progress α ε, (∀ b ∈ a :: s.visited, b ∈ t.visited) →
          es.foldl (fun s e => walk leaving target depth' (target e) (s.add e)) t =
            es.foldl (fun s e => walk leaving target depth (target e) (s.add e)) t := by
        intro es hes
        induction es with
        | nil => exact fun _ _ => rfl
        | cons e _ ih' =>
          intro t ht
          rw [cons_subset] at hes
          have hle' : fresh nodes (t.add e).visited ≤ fresh nodes (a :: s.visited) := fresh_mono ht
          have hlt := fresh_cons_lt (hnodes a e hes.1) hvisited
          have hfresh : fresh nodes (t.add e).visited < depth := by omega
          rw [foldl_cons, foldl_cons, ih hfresh (Nat.le_of_succ_le_succ hle)]
          exact ih' hes.2 _ fun b hb => (walk_spec hnodes hfresh).1.visited b (ht b hb)
      exact hloop _ (Subset.refl _) _ fun _ hb => hb

theorem walk_nil_spec (target : ε → α) (hdepth : nodes.length < depth) (a : α) :
    Extends leaving target a ⟨[], []⟩ (walk leaving target depth a ⟨[], []⟩) ∧
      a ∈ (walk leaving target depth a ⟨[], []⟩).visited :=
  walk_spec hnodes (by rwa [fresh_nil])

/-- The walk visits everything that is reachable. -/
theorem mem_visited_of_reach (hdepth : nodes.length < depth)
    (h : ReflTransGen (Leads leaving target) a b) :
    b ∈ (walk leaving target depth a ⟨[], []⟩).visited := by
  have hspec := walk_nil_spec hnodes target hdepth a
  induction h with
  | refl => exact hspec.2
  | tail _ hstep ih =>
    rcases hstep with ⟨x, hx, rfl⟩
    exact (hspec.1.finished _ ih not_mem_nil x hx).2

/-- The walk collects exactly the items that leave reachable nodes. -/
theorem mem_walk_iff (hdepth : nodes.length < depth) (a : α) (e : ε) :
    e ∈ (walk leaving target depth a ⟨[], []⟩).items ↔
      ∃ b, ReflTransGen (Leads leaving target) a b ∧ e ∈ leaving b := by
  rcases walk_nil_spec hnodes target hdepth a with ⟨hext, -⟩
  constructor
  · intro he
    rcases hext.sound e he with hnil | hreach
    · exact absurd hnil not_mem_nil
    · exact hreach
  · rintro ⟨b, hreach, he⟩
    exact (hext.finished b (mem_visited_of_reach hnodes hdepth hreach) not_mem_nil e he).1

end

end Numaflow.Lib.Traversal
