import Mathlib

/-!
# Hash maps with an unspecified iteration order

A hash map is an association list with distinct keys.  Iterating over a hash
map visits every entry once in an order that the program cannot rely on; here
the order is an argument, so that a statement about every argument is a
statement about every iteration order.

Main results: `HashMap.lookup_filterMapVal`, `HashMap.lookup_insertAll_of_mem`,
`HashMap.iterIn_perm`.
-/

namespace Numaflow.Lib

variable {κ ν μ : Type}

/-- A map with distinct keys. -/
abbrev HashMap (κ ν : Type) := AList (fun _ : κ => ν)

open List

namespace HashMap

/-- The values of a map. -/
def values (m : HashMap κ ν) : List ν :=
  m.entries.map fun e => e.2

theorem nodupKeys_filterMapVal (f : ν → Option μ) {l : List (Σ _ : κ, ν)} (hl : l.NodupKeys) :
    (l.filterMap fun e => (f e.2).map fun v => (⟨e.1, v⟩ : Σ _ : κ, μ)).NodupKeys := by
  induction l with
  | nil => simp
  | cons e l ih =>
    rw [nodupKeys_cons] at hl
    rw [filterMap_cons]
    cases hf : f e.2 with
    | none => simpa [hf] using ih hl.2
    | some =>
      simp only [Option.map_some]
      rw [nodupKeys_cons]
      refine ⟨?_, ih hl.2⟩
      intro hmem
      apply hl.1
      rw [mem_keys] at hmem ⊢
      obtain ⟨b, hb⟩ := hmem
      rw [mem_filterMap] at hb
      obtain ⟨e', he', heq⟩ := hb
      rw [Option.map_eq_some_iff] at heq
      obtain ⟨u, -, hu⟩ := heq
      have hkey := congrArg (fun p : Σ _ : κ, μ => p.1) hu
      exact ⟨e'.2, by rw [← hkey]; exact he'⟩

/-- Map every value and drop the entries whose value maps to nothing. -/
def filterMapVal (f : ν → Option μ) (m : HashMap κ ν) : HashMap κ μ :=
  ⟨m.entries.filterMap fun e => (f e.2).map fun v => ⟨e.1, v⟩,
    nodupKeys_filterMapVal f m.nodupKeys⟩

variable {m : HashMap κ ν} {k : κ} {entries : List (Σ _ : κ, ν)} {f : ν → Option μ} {v : ν}
  {e : (_ : κ) × ν} {p : (_ : κ) × ν → Bool} {ι α : Type} {row : HashMap ι ν} {order : List κ}

theorem mem_entries_filterMapVal {v : μ} : (⟨k, v⟩ : Σ _ : κ, μ) ∈ (filterMapVal f m).entries ↔
      ∃ u, (⟨k, u⟩ : Σ _ : κ, ν) ∈ m.entries ∧ f u = some v := by
  simp only [filterMapVal, mem_filterMap, Option.map_eq_some_iff]
  constructor
  · rintro ⟨e, he, u, hu, heq⟩
    cases heq
    exact ⟨e.2, he, hu⟩
  · rintro ⟨u, hu, hf⟩
    exact ⟨⟨k, u⟩, hu, v, hf, rfl⟩

variable [DecidableEq κ]

/-- Mapping and dropping values acts on the looked-up value. -/
theorem lookup_filterMapVal (f : ν → Option μ) (m : HashMap κ ν) (k : κ) :
    (filterMapVal f m).lookup k = (m.lookup k).bind f := by
  apply Option.ext
  intro v
  rw [← Option.mem_def, AList.mem_lookup_iff, mem_entries_filterMapVal]
  rw [Option.bind_eq_some_iff]
  constructor
  · rintro ⟨u, hu, hf⟩
    exact ⟨u, AList.mem_lookup_iff.mpr hu, hf⟩
  · rintro ⟨u, hu, hf⟩
    exact ⟨u, AList.mem_lookup_iff.mp hu, hf⟩

theorem mem_values : v ∈ values m ↔ ∃ k, m.lookup k = some v := by
  unfold values
  rw [mem_map]
  constructor
  · intro h
    rcases h with ⟨e, he, rfl⟩
    exact ⟨e.1, AList.mem_lookup_iff.mpr he⟩
  · intro h
    rcases h with ⟨k, hk⟩
    exact ⟨⟨k, v⟩, AList.mem_lookup_iff.mp hk, rfl⟩

/-- Insert a list of entries one after the other. -/
def insertAll (m : HashMap κ ν) (entries : List (Σ _ : κ, ν)) : HashMap κ ν :=
  entries.foldl (fun m e => m.insert e.1 e.2) m

/-- Keys that are not inserted keep their value. -/
theorem lookup_insertAll_of_not_mem (hk : ∀ e ∈ entries, e.1 ≠ k) :
    (insertAll m entries).lookup k = m.lookup k := by
  unfold insertAll
  induction entries generalizing m with
  | nil => rfl
  | cons e _ ih =>
    rw [foldl_cons, ih fun e' he' => hk e' (mem_cons_of_mem e he')]
    exact AList.lookup_insert_ne (hk e mem_cons_self).symm

/-- What is found was there before or has been inserted. -/
theorem mem_of_lookup_insertAll (h : (insertAll m entries).lookup k = some v) :
    m.lookup k = some v ∨ ⟨k, v⟩ ∈ entries := by
  induction entries generalizing m with
  | nil => exact .inl h
  | cons e _ ih =>
    rcases ih h with hfound | hmem
    · by_cases hk : k = e.1
      · subst hk
        rw [AList.lookup_insert] at hfound
        cases hfound
        exact .inr mem_cons_self
      · rw [AList.lookup_insert_ne hk] at hfound
        exact .inl hfound
    · exact .inr (mem_cons_of_mem e hmem)

/-- An inserted entry is found when no key is inserted twice. -/
theorem lookup_insertAll_of_mem (hdistinct : entries.Pairwise fun e e' => e.1 ≠ e'.1)
    (he : e ∈ entries) : (insertAll m entries).lookup e.1 = some e.2 := by
  induction entries generalizing m with
  | nil => exact absurd he not_mem_nil
  | cons a _ ih =>
    rw [pairwise_cons] at hdistinct
    rcases mem_cons.mp he with rfl | he
    · have hrest := lookup_insertAll_of_not_mem (m := m.insert e.1 e.2)
        (fun e' he' => (hdistinct.1 e' he').symm)
      rw [insertAll, foldl_cons]
      rw [insertAll] at hrest
      rw [hrest, AList.lookup_insert]
    · exact ih hdistinct.2 he

/-- Erase a list of keys one after the other. -/
theorem lookup_foldl_erase (keys : List κ) (m : HashMap κ ν) (k : κ) :
    (keys.foldl (fun m key => m.erase key) m).lookup k = if k ∈ keys then none else m.lookup k := by
  induction keys generalizing m with
  | nil => simp
  | cons a _ ih =>
    rw [foldl_cons, ih]
    by_cases ha : k = a
    · subst ha
      simp
    · simp [ha, AList.lookup_erase_ne ha]

/-- Erasing a key keeps the selected entries when none of them has the key. -/
theorem filter_kerase {l : List (Σ _ : κ, ν)} (h : ∀ e ∈ l, p e = true → e.1 ≠ k) :
    (l.kerase k).filter p = l.filter p := by
  induction l with
  | nil => rfl
  | cons e l ih =>
    obtain ⟨he, hl⟩ := forall_mem_cons.mp h
    by_cases hk : k = e.1
    · have hdrop := Bool.eq_false_iff.mpr fun hp => he hp hk.symm
      rw [kerase_cons_eq hk, filter_cons_of_neg (Bool.eq_false_iff.mp hdrop)]
    · rw [kerase_cons_ne hk, filter_cons, filter_cons, ih hl]

/-- Insert into a map that is a value of a map. -/
theorem lookup_insert_insert [DecidableEq ι] {m : HashMap κ (HashMap ι ν)}
    (hrow : m.lookup k = some row) (i : ι) (v : ν) (k' : κ) (i' : ι) :
    ((m.insert k (row.insert i v)).lookup k').bind (fun inner => inner.lookup i') =
      if k' = k ∧ i' = i then some v else (m.lookup k').bind fun inner => inner.lookup i' := by
  by_cases hk : k' = k
  · subst hk
    rw [AList.lookup_insert, hrow, Option.bind_some, Option.bind_some]
    by_cases hi : i' = i
    · subst hi
      rw [AList.lookup_insert, if_pos ⟨rfl, rfl⟩]
    · rw [AList.lookup_insert_ne hi, if_neg fun h => hi h.2]
  · rw [AList.lookup_insert_ne hk, if_neg fun h => hk h.1]

/-- What holds of the values of a map and of the inserted values holds of all values in
the end. -/
theorem forall_foldl_insert {P : ν → Prop} {key : α → κ} {val : α → ν} {l : List α}
    (hm : ∀ k v, m.lookup k = some v → P v) (hval : ∀ a ∈ l, P (val a)) :
    ∀ k v, (l.foldl (fun m a => m.insert (key a) (val a)) m).lookup k = some v → P v := by
  induction l generalizing m with
  | nil => exact hm
  | cons a l ih =>
    refine ih (fun k v hk => ?_) fun a' ha' => hval a' (mem_cons_of_mem _ ha')
    by_cases hkey : k = key a
    · subst hkey
      rw [AList.lookup_insert, Option.some.injEq] at hk
      exact hk ▸ hval a mem_cons_self
    · rw [AList.lookup_insert_ne hkey] at hk
      exact hm k v hk

/-- The entries in the order of `order`, followed by the entries that it
does not mention. -/
def iterIn (order : List κ) (m : HashMap κ ν) : List (Σ _ : κ, ν) :=
  order.dedup.filterMap (fun k => (m.lookup k).map fun v => ⟨k, v⟩) ++
    m.entries.filter fun e => decide (e.1 ∉ order)

theorem mem_iterIn : e ∈ iterIn order m ↔ e ∈ m.entries := by
  unfold iterIn
  rw [mem_append, mem_filterMap, mem_filter]
  constructor
  · rintro (⟨k, -, hk⟩ | ⟨he, -⟩)
    · obtain ⟨v, hv, rfl⟩ := Option.map_eq_some_iff.mp hk
      exact AList.mem_lookup_iff.mp hv
    · exact he
  · intro he
    by_cases hord : e.1 ∈ order
    · refine .inl ⟨e.1, mem_dedup.mpr hord, ?_⟩
      have hlook := AList.mem_lookup_iff.mpr he
      rw [hlook]
      rfl
    · exact .inr ⟨he, decide_eq_true hord⟩

variable (order : List κ) (m : HashMap κ ν)

theorem nodup_iterIn : (iterIn order m).Nodup := by
  unfold iterIn
  rw [nodup_append]
  refine ⟨?_, m.nodupKeys.nodup.filter _, ?_⟩
  · refine (nodup_dedup order).filterMap ?_
    intro k k' e hk hk'
    obtain ⟨v, -, rfl⟩ := Option.map_eq_some_iff.mp hk
    obtain ⟨v', -, heq⟩ := Option.map_eq_some_iff.mp hk'
    exact (congrArg (fun p : Σ _ : κ, ν => p.1) heq).symm
  · rintro e he e' he' rfl
    obtain ⟨k, hk, hmap⟩ := mem_filterMap.mp he
    obtain ⟨v, -, rfl⟩ := Option.map_eq_some_iff.mp hmap
    have hnot := of_decide_eq_true (mem_filter.mp he').2
    exact hnot (mem_dedup.mp hk)

/-- Every iteration order visits every entry exactly once. -/
theorem iterIn_perm : (iterIn order m).Perm m.entries :=
  (perm_ext_iff_of_nodup (nodup_iterIn order m) m.nodupKeys.nodup).mpr fun _ => mem_iterIn

/-- No key is visited twice. -/
theorem pairwise_iterIn : (iterIn order m).Pairwise fun e e' => e.1 ≠ e'.1 := by
  rw [← nodupKeys_iff_pairwise]
  exact (perm_nodupKeys (iterIn_perm order m)).mpr m.nodupKeys

end HashMap
end Numaflow.Lib
