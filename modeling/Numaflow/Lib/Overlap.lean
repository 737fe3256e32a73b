import Mathlib

/-!
# Clusters of overlapping half-open intervals

Every item occupies a nonempty half-open interval `[lo, hi)`.  Two items
are adjacent when their intervals intersect, and the components of this graph
are the clusters of the items.  The file characterises a cluster by a window
that is covered exactly by the intervals of its items: two such clusters can be
joined when their windows intersect, and a division of the items into clusters
with disjoint windows is the division into connected components.

Main results: `IsCluster.merge`, `IsCluster.extend`, `components_of_clusters`.
-/

namespace Numaflow.Lib

variable {T M : Type} [LinearOrder T]

/-- The half-open intervals `[a, b)` and `[c, d)` intersect. -/
def Overlaps (a b c d : T) : Prop :=
  a < d ∧ c < b
deriving Decidable

variable {a b c d : T}

theorem Overlaps.symm (h : Overlaps a b c d) : Overlaps c d a b :=
  ⟨h.2, h.1⟩

/-- Intersecting intervals share the larger of their left ends. -/
theorem Overlaps.max_mem (hab : a < b) (hcd : c < d) (h : Overlaps a b c d) :
    (a ≤ max a c ∧ max a c < b) ∧ (c ≤ max a c ∧ max a c < d) :=
  ⟨⟨le_max_left a c, max_lt hab h.2⟩, ⟨le_max_right a c, max_lt h.1 hcd⟩⟩

variable {x : T}

/-- A common point makes two half-open intervals intersect. -/
theorem Overlaps.of_mem (hab : a ≤ x ∧ x < b) (hcd : c ≤ x ∧ x < d) : Overlaps a b c d :=
  ⟨hab.1.trans_lt hcd.2, hcd.1.trans_lt hab.2⟩

/-- The span of two intersecting intervals contains no point outside both. -/
theorem Overlaps.span_iff (h : Overlaps a b c d) :
    min a c ≤ x ∧ x < max b d ↔ (a ≤ x ∧ x < b) ∨ (c ≤ x ∧ x < d) := by
  rw [min_le_iff, lt_max_iff]
  constructor
  · rintro ⟨hlo, hhi⟩
    rcases hlo with ha | hc
    · rcases lt_or_ge x b with hb | hb
      · exact .inl ⟨ha, hb⟩
      · have hd := hhi.resolve_left (not_lt.mpr hb)
        exact .inr ⟨h.2.le.trans hb, hd⟩
    · rcases lt_or_ge x d with hd | hd
      · exact .inr ⟨hc, hd⟩
      · have hb := hhi.resolve_right (not_lt.mpr hd)
        exact .inl ⟨h.1.le.trans hd, hb⟩
  · rintro (⟨ha, hb⟩ | ⟨hc, hd⟩)
    · exact ⟨.inl ha, .inl hb⟩
    · exact ⟨.inr hc, .inr hd⟩

variable (lo hi : M → T)

/-- Two items of the list whose intervals intersect. -/
def Adjacent (ms : List M) (a b : M) : Prop :=
  a ∈ ms ∧ b ∈ ms ∧ Overlaps (lo a) (hi a) (lo b) (hi b)

/-- Items connected by a chain of adjacent items of the list. -/
def Linked (ms : List M) : M → M → Prop :=
  Relation.ReflTransGen (Adjacent lo hi ms)

/-- The items `ms` form one cluster that covers exactly `[s, e)`. -/
structure IsCluster (s e : T) (ms : List M) : Prop where
  nonempty : ms ≠ []
  cover : ∀ x, s ≤ x ∧ x < e ↔ ∃ m ∈ ms, lo m ≤ x ∧ x < hi m
  linked : ∀ a ∈ ms, ∀ b ∈ ms, Linked lo hi ms a b

section

variable {lo hi} {a b m : M} {ms ns : List M}

theorem Adjacent.symm (h : Adjacent lo hi ms a b) : Adjacent lo hi ms b a :=
  ⟨h.2.1, h.1, h.2.2.symm⟩

theorem Linked.symm (h : Linked lo hi ms a b) : Linked lo hi ms b a := by
  induction h with
  | refl => exact Relation.ReflTransGen.refl
  | tail _ hstep ih => exact Relation.ReflTransGen.head hstep.symm ih

/-- Chains survive in a larger list of items. -/
theorem Linked.mono (hsub : ∀ m ∈ ms, m ∈ ns) (h : Linked lo hi ms a b) : Linked lo hi ns a b := by
  refine Relation.ReflTransGen.mono ?_ _ _ h
  intro x y hxy
  exact ⟨hsub x hxy.1, hsub y hxy.2.1, hxy.2.2⟩

/-- A chain cannot leave a set of items that adjacency does not leave. -/
theorem Linked.mem_of_closed {P : M → Prop} (hclosed : ∀ a b, P a → Adjacent lo hi ms a b → P b)
    (ha : P a) (h : Linked lo hi ms a b) : P b := by
  induction h with
  | refl => exact ha
  | tail _ hstep ih => exact hclosed _ _ ih hstep

variable {s e s' e' : T} (h : IsCluster lo hi s e ms)

include h

/-- A cluster only depends on which items it holds. -/
theorem IsCluster.congr (hne : ns ≠ []) (hmem : ∀ m, m ∈ ms ↔ m ∈ ns) : IsCluster lo hi s e ns where
  nonempty := hne
  cover := by
    intro x
    rw [h.cover x]
    simp only [hmem]
  linked := by
    intro a ha b hb
    have hab := h.linked a ((hmem a).mpr ha) b ((hmem b).mpr hb)
    exact hab.mono fun m hm => (hmem m).mp hm

omit h in
/-- One item alone is a cluster. -/
theorem IsCluster.single : IsCluster lo hi (lo m) (hi m) [m] where
  nonempty := by simp
  cover := by simp
  linked := by
    intro a ha b hb
    rw [List.mem_singleton] at ha hb
    subst ha
    subst hb
    exact Relation.ReflTransGen.refl

/-- The window of a cluster is not empty. -/
theorem IsCluster.lt (hms : ∀ m ∈ ms, lo m < hi m) : s < e := by
  obtain ⟨m, hm⟩ := List.exists_mem_of_ne_nil ms h.nonempty
  have hlo := (h.cover (lo m)).mpr ⟨m, hm, le_rfl, hms m hm⟩
  exact hlo.1.trans_lt hlo.2

/-- Every item of a cluster starts inside its window. -/
theorem IsCluster.start_le (hm : m ∈ ms) (hlt : lo m < hi m) : s ≤ lo m :=
  ((h.cover (lo m)).mpr ⟨m, hm, le_rfl, hlt⟩).1

/-- Every item of a cluster ends inside its window. -/
theorem IsCluster.le_end (hm : m ∈ ms) (hlt : lo m < hi m) : hi m ≤ e := by
  by_contra hgt
  rw [not_le] at hgt
  have hlo := (h.cover (lo m)).mpr ⟨m, hm, le_rfl, hlt⟩
  exact lt_irrefl e ((h.cover e).mpr ⟨m, hm, hlo.2.le, hgt⟩).2

section

variable (h' : IsCluster lo hi s' e' ns)

include h'

/-- Windows that intersect contain items that intersect. -/
theorem IsCluster.exists_overlap (hms : ∀ m ∈ ms, lo m < hi m) (hns : ∀ m ∈ ns, lo m < hi m)
    (hov : Overlaps s e s' e') : ∃ a ∈ ms, ∃ b ∈ ns, Overlaps (lo a) (hi a) (lo b) (hi b) := by
  obtain ⟨hx, hy⟩ := hov.max_mem (h.lt hms) (h'.lt hns)
  obtain ⟨a, ha, hax⟩ := (h.cover _).mp hx
  obtain ⟨b, hb, hbx⟩ := (h'.cover _).mp hy
  exact ⟨a, ha, b, hb, Overlaps.of_mem hax hbx⟩

/-- Items that intersect make the windows of their clusters intersect. -/
theorem IsCluster.overlaps_of_items
    (ha : a ∈ ms) (hb : b ∈ ns) (hlta : lo a < hi a) (hltb : lo b < hi b)
    (hov : Overlaps (lo a) (hi a) (lo b) (hi b)) : Overlaps s e s' e' := by
  obtain ⟨hx, hy⟩ := hov.max_mem hlta hltb
  exact Overlaps.of_mem ((h.cover _).mpr ⟨a, ha, hx⟩) ((h'.cover _).mpr ⟨b, hb, hy⟩)

/-- Clusters with intersecting windows join to one cluster. -/
theorem IsCluster.merge (hms : ∀ m ∈ ms, lo m < hi m) (hns : ∀ m ∈ ns, lo m < hi m)
    (hov : Overlaps s e s' e') : IsCluster lo hi (min s s') (max e e') (ms ++ ns) where
  nonempty := by simp [h.nonempty]
  cover := by
    intro x
    rw [hov.span_iff, h.cover x, h'.cover x]
    simp only [List.mem_append, or_and_right, exists_or]
  linked := by
    obtain ⟨a₀, ha₀, b₀, hb₀, hab⟩ := h.exists_overlap h' hms hns hov
    have hleft : ∀ m ∈ ms, m ∈ ms ++ ns := fun m hm => List.mem_append_left ns hm
    have hright : ∀ m ∈ ns, m ∈ ms ++ ns := fun m hm => List.mem_append_right ms hm
    have hbridge : Linked lo hi (ms ++ ns) a₀ b₀ :=
      Relation.ReflTransGen.single ⟨hleft a₀ ha₀, hright b₀ hb₀, hab⟩
    -- every item of either part reaches the bridge
    have hreach : ∀ m ∈ ms ++ ns, Linked lo hi (ms ++ ns) a₀ m := by
      intro m hm
      rcases List.mem_append.mp hm with hm | hm
      · exact (h.linked a₀ ha₀ m hm).mono hleft
      · exact hbridge.trans ((h'.linked b₀ hb₀ m hm).mono hright)
    intro a ha b hb
    exact (hreach a ha).symm.trans (hreach b hb)

end

/-- An item whose interval meets the window of a cluster joins it. -/
theorem IsCluster.extend (hms : ∀ m ∈ ms, lo m < hi m)
    (hm : lo m < hi m) (hov : Overlaps (lo m) (hi m) s e) :
    IsCluster lo hi (min (lo m) s) (max (hi m) e) (ms ++ [m]) := by
  have hsingle : IsCluster lo hi (lo m) (hi m) [m] := IsCluster.single
  have hmerge := hsingle.merge h (by simpa using hm) hms hov
  refine hmerge.congr (by simp) ?_
  intro x
  simp only [List.mem_append, List.mem_singleton]
  exact Or.comm

/-! ## Disjoint clusters are the connected components -/

variable {ι : Type} {first last : ι → T} {members : ι → List M}

/-- The groups `gs` are the connected components of the items: each holds
one component with its multiplicities and spans exactly its intervals, and each
item lies in one group. -/
structure Components (lo hi : M → T) (all : List M) (first last : ι → T)
    (members : ι → List M) (gs : List ι) : Prop where
  component : ∀ g ∈ gs, ∃ m ∈ all, ∀ n, n ∈ members g ↔ n ∈ all ∧ Linked lo hi all m n
  perm : (gs.flatMap members).Perm all
  union : ∀ g ∈ gs, ∀ x, first g ≤ x ∧ x < last g ↔
    ∃ m ∈ members g, lo m ≤ x ∧ x < hi m
  once : ∀ m ∈ all, ∃ l₁ g l₂, gs = l₁ ++ g :: l₂ ∧ m ∈ members g ∧
    ∀ g' ∈ l₁ ++ l₂, m ∉ members g'

variable {all : List M} {gs : List ι}

omit h in
/-- Clusters that exhaust the items and have pairwise disjoint windows are the
connected components of the items. -/
theorem components_of_clusters (hproper : ∀ m ∈ all, lo m < hi m)
    (hcluster : ∀ g ∈ gs, IsCluster lo hi (first g) (last g) (members g))
    (hdisjoint : gs.Pairwise fun g g' => ¬ Overlaps (first g) (last g) (first g') (last g'))
    (hperm : (gs.flatMap members).Perm all) : Components lo hi all first last members gs := by
  have hmemAll : ∀ g ∈ gs, ∀ m ∈ members g, m ∈ all := by
    intro g hg m hm
    exact hperm.subset (List.mem_flatMap.mpr ⟨g, hg, hm⟩)
  -- two groups that hold adjacent items are the same place of the list
  have hsep : ∀ l₁ g l₂, gs = l₁ ++ g :: l₂ → ∀ g' ∈ l₁ ++ l₂,
      ∀ a ∈ members g, ∀ b ∈ members g', ¬ Overlaps (lo a) (hi a) (lo b) (hi b) := by
    intro l₁ g l₂ hgs g' hg' a ha b hb hov
    have hg : g ∈ gs := by simp [hgs]
    have hg'' : g' ∈ gs := by
      rw [hgs]
      rcases List.mem_append.mp hg' with h | h
      · exact List.mem_append_left _ h
      · exact List.mem_append_right _ (List.mem_cons_of_mem _ h)
    have hwin := (hcluster g hg).overlaps_of_items (hcluster g' hg'') ha hb
      (hproper a (hmemAll g hg a ha)) (hproper b (hmemAll g' hg'' b hb)) hov
    subst hgs
    rw [List.pairwise_append, List.pairwise_cons] at hdisjoint
    rcases List.mem_append.mp hg' with h | h
    · exact hdisjoint.2.2 g' h g List.mem_cons_self hwin.symm
    · exact hdisjoint.2.1.1 g' h hwin
  refine ⟨?_, hperm, fun g hg => (hcluster g hg).cover, ?_⟩
  · intro g hg
    obtain ⟨l₁, l₂, hgs⟩ := List.append_of_mem hg
    obtain ⟨m, hm⟩ := List.exists_mem_of_ne_nil _ (hcluster g hg).nonempty
    refine ⟨m, hmemAll g hg m hm, ?_⟩
    intro n
    constructor
    · intro hn
      exact ⟨hmemAll g hg n hn, ((hcluster g hg).linked m hm n hn).mono (hmemAll g hg)⟩
    · rintro ⟨-, hlink⟩
      refine Linked.mem_of_closed (P := fun x => x ∈ members g) ?_ hm hlink
      intro a b ha hab
      obtain ⟨g', hg', hb⟩ := List.mem_flatMap.mp (hperm.symm.subset hab.2.1)
      rw [hgs] at hg'
      rcases List.mem_append.mp hg' with h | h
      · exact absurd hab.2.2 (hsep l₁ g l₂ hgs g' (List.mem_append_left _ h) a ha b hb)
      · rcases List.mem_cons.mp h with rfl | h
        · exact hb
        · exact absurd hab.2.2 (hsep l₁ g l₂ hgs g' (List.mem_append_right _ h) a ha b hb)
  · intro m hm
    obtain ⟨g, hg, hmg⟩ := List.mem_flatMap.mp (hperm.symm.subset hm)
    obtain ⟨l₁, l₂, hgs⟩ := List.append_of_mem hg
    refine ⟨l₁, g, l₂, hgs, hmg, ?_⟩
    intro g' hg' hm'
    exact hsep l₁ g l₂ hgs g' hg' m hmg m hm' ⟨hproper m hm, hproper m hm⟩

end
end Numaflow.Lib
