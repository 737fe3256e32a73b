import Mathlib

/-!
# Consuming the items of a forest

Work comes in tasks; every task is met by one item, and an item calls for further tasks.  The
items that meet a list of tasks and all the tasks that follow from them form a forest.  A
depth-first search meets every task with the first item of a pool that claims it, before it
turns to the tasks that the item calls for.

A pool is balanced for some tasks when it has, for every task, as many items as the task is
due: once for each time it is asked for, and once for each time an item of the pool calls for
it.  Which of the items meets which of several equal tasks makes no difference to that.

Main results: `Forest.prune`, `Forest.balanced`, `Balanced.perm_of_subperm`,
`Balanced.of_consumeAll`, `Balanced.consumeAll`.
-/

namespace Numaflow.Lib

variable {α τ : Type}

/-- The items that meet some tasks, each followed by the items that meet what it calls for. -/
inductive Forest (meets : τ → α → Prop) (emits : α → List τ) : List τ → List α → Prop
  | nil : Forest meets emits [] []
  | cons {t : τ} {ts : List τ} {a : α} {below rest : List α} (hmeets : meets t a)
      (hbelow : Forest meets emits (emits a) below) (hrest : Forest meets emits ts rest) :
      Forest meets emits (t :: ts) (a :: (below ++ rest))

/-- As many items for every task as it is due. -/
def Balanced (key : α → τ) (emits : α → List τ) (pool : List α) (tasks : List τ) : Prop :=
  (pool.map key).Perm (tasks ++ pool.flatMap emits)

/-- Meet a task with the first item that claims it, then the tasks that the item calls for.
The result is what is left of the pool.  A search that starts with as much fuel as there are
items does not run out of it before it runs out of items. -/
def consume (claims : τ → α → Bool) (emits : α → List τ) : Nat → τ → List α → Option (List α)
  | 0, _, _ => none
  | fuel + 1, t, pool =>
    match pool.find? (claims t) with
    | none => none
    | some a =>
      (emits a).foldlM (fun pool t => consume claims emits fuel t pool)
        (pool.eraseP (claims t))

/-- Meet the tasks of a list one after the other. -/
def consumeAll (claims : τ → α → Bool) (emits : α → List τ) (fuel : Nat) (ts : List τ)
    (pool : List α) : Option (List α) :=
  ts.foldlM (fun pool t => consume claims emits fuel t pool) pool

open List

variable {fuel : Nat} {rest items pool : List α} {meets : τ → α → Prop} {claims : τ → α → Bool}
  {key : α → τ} {emits : α → List τ} {ts : List τ}

section

variable {t : τ} {a : α}

/-- An item that calls for nothing. -/
theorem Forest.leaf (hmeets : meets t a) (hemits : emits a = [])
    (hrest : Forest meets emits ts rest) : Forest meets emits (t :: ts) (a :: rest) := by
  have hbelow : Forest meets emits (emits a) [] := by
    rw [hemits]
    exact Forest.nil
  exact Forest.cons hmeets hbelow hrest

variable {emits' : α → List τ} {β γ δ : Type} {p : α → Bool} {pool' used spare : List α}
  {ts' l : List τ}

/-- A single tree. -/
theorem Forest.tree {below : List α} (hmeets : meets t a)
    (hbelow : Forest meets emits (emits a) below) : Forest meets emits [t] (a :: below) := by
  have h := Forest.cons hmeets hbelow Forest.nil
  rwa [append_nil] at h

/-- A forest depends on what its own items call for. -/
theorem Forest.congr (h : Forest meets emits ts items) (hemits : ∀ a ∈ items, emits a = emits' a) :
    Forest meets emits' ts items := by
  induction h with
  | nil => exact Forest.nil
  | @cons t _ a _ _ hmeet _ _ ihbelow ihrest =>
    have hbelow := ihbelow fun b hb =>
      hemits b (mem_cons_of_mem _ (mem_append_left _ hb))
    rw [hemits a mem_cons_self] at hbelow
    exact Forest.cons hmeet hbelow
      (ihrest fun b hb => hemits b (mem_cons_of_mem _ (mem_append_right _ hb)))

/-- No item meets no task. -/
theorem Forest.eq_nil (h : Forest meets emits ts []) : ts = [] := by
  cases h
  rfl

/-- When some items call for nothing any more, the items that are still called for are a part of
the forest, and a proper one unless nothing has changed. -/
theorem Forest.prune (h : Forest meets emits ts items)
    (hemits : ∀ a, emits' a = emits a ∨ emits' a = []) :
    ∃ pruned : List α, pruned.Sublist items ∧ Forest meets emits' ts pruned ∧
      (pruned.length = items.length → ∀ a ∈ items, emits' a = emits a) := by
  induction h with
  | nil => exact ⟨[], Sublist.refl _, .nil, fun _ a ha => absurd ha not_mem_nil⟩
  | @cons _ _ a below rest hmeets hbelow _ ihbelow ihrest =>
    obtain ⟨pbelow, hsub, hforest, hsame⟩ := ihbelow
    obtain ⟨prest, hsub', hforest', hsame'⟩ := ihrest
    have hle := hsub.length_le
    have hle' := hsub'.length_le
    rcases hemits a with heq | hnil
    · refine ⟨a :: (pbelow ++ prest), (hsub.append hsub').cons_cons a,
        .cons hmeets (heq ▸ hforest) hforest', fun hlength => ?_⟩
      simp only [length_cons, length_append] at hlength
      refine forall_mem_cons.mpr ⟨heq, forall_mem_append.mpr ⟨?_, ?_⟩⟩
      · exact hsame (by omega)
      · exact hsame' (by omega)
    · refine ⟨a :: prest, (hsub'.trans (sublist_append_right _ _)).cons_cons a,
        .leaf hmeets hnil hforest', fun hlength => ?_⟩
      simp only [length_cons, length_append] at hlength
      obtain rfl : below = [] := eq_nil_of_length_eq_zero (by omega)
      refine forall_mem_cons.mpr ⟨hnil.trans hbelow.eq_nil.symm, ?_⟩
      exact hsame' (by omega)

/-! ## Loops that may stop -/

/-- Two nested loops are one loop over what the inner one visits. -/
theorem foldlM_flatMap (f : β → List α) (g : γ → α → Option γ) (l : List β) (init : γ) :
    (l.flatMap f).foldlM g init = l.foldlM (fun c b => (f b).foldlM g c) init := by
  induction l generalizing init with
  | nil => rfl
  | cons b l ih =>
    rw [flatMap_cons, foldlM_append]
    exact congrArg ((f b).foldlM g init).bind (funext ih)

/-- A loop on states is a loop on what is seen of them, when every round is. -/
theorem map_foldlM {g : γ → α → Option γ} {g' : δ → α → Option δ} {view : γ → δ} {l : List α}
    (h : ∀ a ∈ l, ∀ c, (g c a).map view = g' (view c) a) (init : γ) :
    (l.foldlM g init).map view = l.foldlM g' (view init) := by
  induction l generalizing init with
  | nil => rfl
  | cons a l ih =>
    rw [foldlM_cons, foldlM_cons, ← h a mem_cons_self init]
    cases g init a with
    | none => rfl
    | some c => exact ih (fun b hb => h b (mem_cons_of_mem _ hb)) c

/-! ## The search -/

theorem consumeAll_cons (fuel : Nat) (t : τ) (ts : List τ) (pool : List α) :
    consumeAll claims emits fuel (t :: ts) pool =
      (consume claims emits fuel t pool).bind (consumeAll claims emits fuel ts) :=
  foldlM_cons

theorem consume_succ (fuel : Nat) (t : τ) (pool : List α) : consume claims emits (fuel + 1) t pool =
      (pool.find? (claims t)).bind fun a =>
        consumeAll claims emits fuel (emits a) (pool.eraseP (claims t)) := by
  rw [consume]
  cases pool.find? _ <;> rfl

/-- The item that is found is the one that is erased. -/
theorem perm_cons_eraseP (h : pool.find? p = some a) : pool.Perm (a :: pool.eraseP p) := by
  induction pool with
  | nil => simp at h
  | cons b _ ih =>
    by_cases hb : p b = true
    · rw [find?_cons_of_pos hb, Option.some.injEq] at h
      rw [eraseP_cons_of_pos hb, h]
    · rw [find?_cons_of_neg hb] at h
      rw [eraseP_cons_of_neg hb]
      exact ((ih h).cons b).trans (Perm.swap a b _)

/-- A search only takes items away. -/
theorem sublist_of_consumeAll (h : consumeAll claims emits fuel ts pool = some rest) :
    rest.Sublist pool := by
  -- the outer induction is on the depth of the search, the inner one on the tasks of a level
  induction fuel generalizing ts pool rest with
  | zero =>
    cases ts with
    | nil => exact Option.some.inj h ▸ Sublist.refl pool
    | cons => simp [consumeAll_cons, consume] at h
  | succ _ ihfuel =>
    induction ts generalizing pool with
    | nil => exact Option.some.inj h ▸ Sublist.refl pool
    | cons t _ ih =>
      rw [consumeAll_cons, Option.bind_eq_some_iff] at h
      obtain ⟨mid, hmid, hrest⟩ := h
      rw [consume_succ, Option.bind_eq_some_iff] at hmid
      obtain ⟨a, -, hmid⟩ := hmid
      exact (ih hrest).trans ((ihfuel hmid).trans eraseP_sublist)

theorem consumeAll_singleton (fuel : Nat) (t : τ) (pool : List α) :
    consumeAll claims emits fuel [t] pool = consume claims emits fuel t pool := by
  rw [consumeAll_cons]
  cases consume claims emits fuel t pool <;> rfl

/-- A search takes an item at every level, so more fuel than there are items changes nothing. -/
theorem consumeAll_fuel {n : Nat} (hn : pool.length ≤ n) (hfuel : pool.length ≤ fuel) :
    consumeAll claims emits fuel ts pool = consumeAll claims emits n ts pool := by
  induction n generalizing ts pool fuel with
  | zero =>
    obtain rfl := eq_nil_of_length_eq_zero (Nat.le_zero.mp hn)
    cases ts with
    | nil => rfl
    | cons t ts =>
      rw [consumeAll_cons, consumeAll_cons]
      cases fuel <;> rfl
  | succ n ihn =>
    induction ts generalizing pool with
    | nil => rfl
    | cons t ts ih =>
      have hlevel : consume claims emits fuel t pool = consume claims emits (n + 1) t pool := by
        cases hfind : pool.find? (claims t) with
        | none => cases fuel <;> simp [consume, hfind]
        | some a =>
          have hlength := (perm_cons_eraseP hfind).length_eq
          rw [length_cons] at hlength
          obtain ⟨fuel, rfl⟩ : ∃ k, fuel = k + 1 := ⟨fuel - 1, by omega⟩
          rw [consume_succ, consume_succ, hfind, Option.bind_some, Option.bind_some]
          exact ihn (by omega) (by omega)
      rw [consumeAll_cons, consumeAll_cons, hlevel]
      refine Option.bind_congr fun mid hmid => ?_
      rw [← consumeAll_singleton] at hmid
      have hle := (sublist_of_consumeAll hmid).length_le
      exact ih (hle.trans hn) (hle.trans hfuel)

/-! ## Balanced pools -/

theorem balanced_nil : Balanced key emits [] [] :=
  Perm.refl _

theorem Balanced.perm (h : Balanced key emits pool ts) (hperm : pool.Perm pool') :
    Balanced key emits pool' ts :=
  (hperm.map key).symm.trans (h.trans ((hperm.flatMap_right emits).append_left ts))

theorem Balanced.append (h : Balanced key emits pool ts) (h' : Balanced key emits pool' ts') :
    Balanced key emits (pool ++ pool') (ts ++ ts') := by
  have hperm := Perm.append h h'
  unfold Balanced
  rw [map_append, flatMap_append]
  refine hperm.trans ?_
  rw [append_assoc, append_assoc]
  exact (perm_append_comm_assoc _ _ _).append_left ts

/-- An item and a pool for what it calls for make a pool for the task that the item meets. -/
theorem balanced_cons_iff :
    Balanced key emits (a :: pool) (key a :: ts) ↔ Balanced key emits pool (emits a ++ ts) := by
  have hswap : (ts ++ (emits a ++ pool.flatMap emits)).Perm
      (emits a ++ (ts ++ pool.flatMap emits)) := perm_append_comm_assoc _ _ _
  unfold Balanced
  rw [map_cons, cons_append, perm_cons, append_assoc]
  exact ⟨fun h => h.trans hswap, fun h => h.trans hswap.symm⟩

theorem Balanced.cons (h : Balanced key emits pool (emits a)) :
    Balanced key emits (a :: pool) [key a] :=
  balanced_cons_iff.mpr (by rwa [append_nil])

/-- What is over when a balanced part is taken from a balanced pool calls for exactly
itself. -/
theorem Balanced.map_perm_flatMap (hused : Balanced key emits used ts)
    (h : Balanced key emits (used ++ spare) ts) : (spare.map key).Perm (spare.flatMap emits) := by
  unfold Balanced at h
  rw [map_append, flatMap_append, ← append_assoc] at h
  exact (perm_append_left_iff _).mp ((hused.symm.append_right _).trans h)

/-- In a strict order, a list in which every task has an earlier one is empty: the number of
tasks before a task goes down with every step to an earlier one. -/
theorem eq_nil_of_forall_earlier {r : τ → τ → Prop} (hirrefl : ∀ t, ¬ r t t)
    (htrans : ∀ t u v, r t u → r u v → r t v) (h : ∀ t ∈ l, ∃ s ∈ l, r s t) : l = [] := by
  classical
  have hnone : ∀ n t, t ∈ l → (l.filter fun s => r s t).length = n → False := by
    intro n
    induction n using Nat.strongRecOn with
    | ind n ih =>
      intro t ht hn
      obtain ⟨s, hs, hst⟩ := h t ht
      have hfilter : (l.filter fun u => r u s) =
          (l.filter fun u => r u t).filter fun u => r u s := by
        rw [filter_filter]
        refine filter_congr fun u _ => ?_
        rw [Bool.eq_iff_iff, Bool.and_eq_true, decide_eq_true_eq, decide_eq_true_eq]
        exact ⟨fun hus => ⟨hus, htrans u s t hus hst⟩, fun hus => hus.1⟩
      have hlt : (l.filter fun u => r u s).length < n := by
        rw [hfilter, ← hn, length_filter_lt_length_iff_exists]
        exact ⟨s, mem_filter.mpr ⟨hs, by simpa using hst⟩, by simpa using hirrefl s⟩
      exact ih _ hlt s hs rfl
  exact eq_nil_iff_forall_not_mem.mpr fun t ht => hnone _ t ht rfl

/-- When items call for later tasks only, no proper part of a balanced pool is balanced for
the same tasks. -/
theorem Balanced.perm_of_subperm {r : τ → τ → Prop} (hirrefl : ∀ t, ¬ r t t)
    (htrans : ∀ t u v, r t u → r u v → r t v) (hused : Balanced key emits used ts)
    (hpool : Balanced key emits pool ts) (hsub : used.Subperm pool)
    (hlater : ∀ a ∈ pool, ∀ t ∈ emits a, r (key a) t) : used.Perm pool := by
  obtain ⟨part, hpart, hsublist⟩ := hsub
  obtain ⟨spare, hspare⟩ := hsublist.exists_perm_append
  have hperm := hspare.trans (hpart.append_right spare)
  have hself := hused.map_perm_flatMap (hpool.perm hperm)
  have hempty : spare.map key = [] := by
    refine eq_nil_of_forall_earlier hirrefl htrans fun t ht => ?_
    obtain ⟨b, hb, htb⟩ := mem_flatMap.mp (hself.subset ht)
    have hb' : b ∈ pool := hperm.symm.subset (mem_append_right used hb)
    exact ⟨key b, mem_map_of_mem hb, hlater b hb' t htb⟩
  rw [map_eq_nil_iff.mp hempty, append_nil] at hperm
  exact hperm.symm

end

/-! ## Forests and searches of balanced pools

The tasks that come up are those of a predicate, and so are the items of the pools. -/

section

variable {Due : τ → Prop} {Known : α → Prop}

/-- What is known of the items that meet due tasks is known of all items of a forest. -/
theorem Forest.known (hmeets : ∀ t a, Due t → meets t a → Known a)
    (hemits : ∀ a, Known a → ∀ t ∈ emits a, Due t) (h : Forest meets emits ts items)
    (hts : ∀ t ∈ ts, Due t) : ∀ a ∈ items, Known a := by
  induction h with
  | nil => exact fun a ha => absurd ha not_mem_nil
  | @cons t _ a _ _ hmeet _ _ ihbelow ihrest =>
    have ha := hmeets t a (hts t mem_cons_self) hmeet
    intro b hb
    rcases mem_cons.mp hb with rfl | hb
    · exact ha
    · rcases mem_append.mp hb with hb | hb
      · exact ihbelow (hemits a ha) b hb
      · exact ihrest (fun t ht => hts t (mem_cons_of_mem _ ht)) b hb

/-- The items of a forest are balanced for its tasks. -/
theorem Forest.balanced (hmeets : ∀ t a, Due t → meets t a → Known a ∧ key a = t)
    (hemits : ∀ a, Known a → ∀ t ∈ emits a, Due t) (h : Forest meets emits ts items)
    (hts : ∀ t ∈ ts, Due t) : Balanced key emits items ts := by
  induction h with
  | nil => exact balanced_nil
  | @cons t _ a _ _ hmeet _ _ ihbelow ihrest =>
    obtain ⟨ha, rfl⟩ := hmeets t a (hts t mem_cons_self) hmeet
    exact (ihbelow (hemits a ha)).cons.append (ihrest fun t ht => hts t (mem_cons_of_mem _ ht))

variable (hclaims : ∀ t, Due t → ∀ a, Known a → (claims t a = true ↔ key a = t))
  (hemits : ∀ a, Known a → ∀ t ∈ emits a, Due t)

include hclaims hemits

variable {later : List τ}

/-- What a search has consumed is balanced for its tasks. -/
theorem Balanced.of_consumeAll (h : consumeAll claims emits fuel ts pool = some rest)
    (hts : ∀ t ∈ ts, Due t) (hpool : ∀ a ∈ pool, Known a) :
    ∃ used : List α, pool.Perm (used ++ rest) ∧ Balanced key emits used ts := by
  induction fuel generalizing ts pool rest with
  | zero =>
    cases ts with
    | nil => exact ⟨[], Option.some.inj h ▸ Perm.refl _, balanced_nil⟩
    | cons => simp [consumeAll_cons, consume] at h
  | succ _ ihfuel =>
    induction ts generalizing pool with
    | nil => exact ⟨[], Option.some.inj h ▸ Perm.refl _, balanced_nil⟩
    | cons t _ ih =>
      rw [consumeAll_cons, Option.bind_eq_some_iff] at h
      obtain ⟨mid, hmid, hrest⟩ := h
      rw [consume_succ, Option.bind_eq_some_iff] at hmid
      obtain ⟨a, hfind, hmid⟩ := hmid
      have ha := hpool a (mem_of_find?_eq_some hfind)
      have hkey := (hclaims t (hts t mem_cons_self) a ha).mp (find?_some hfind)
      have herase : ∀ b ∈ pool.eraseP (claims t), Known b := fun b hb =>
        hpool b (eraseP_sublist.subset hb)
      obtain ⟨below, hbelow, hbalanced⟩ := ihfuel hmid (hemits a ha) herase
      obtain ⟨used, hused, hbalanced'⟩ :=
        ih hrest (fun t ht => hts t (mem_cons_of_mem _ ht)) fun b hb =>
          herase b ((sublist_of_consumeAll hmid).subset hb)
      refine ⟨a :: below ++ used, ?_, ?_⟩
      · calc pool.Perm (a :: pool.eraseP (claims t)) := perm_cons_eraseP hfind
          Perm _ (a :: (below ++ mid)) := hbelow.cons a
          Perm _ (a :: (below ++ _)) := (hused.append_left below).cons a
          _ = a :: below ++ used ++ rest := by simp
      · subst hkey
        exact hbalanced.cons.append hbalanced'

/-- A search of a balanced pool finds every item that it needs, and leaves a pool that is
balanced for the other tasks. -/
theorem Balanced.consumeAll (h : Balanced key emits pool (ts ++ later)) (hfuel : pool.length ≤ fuel)
    (hts : ∀ t ∈ ts, Due t) (hpool : ∀ a ∈ pool, Known a) :
    ∃ rest : List α, consumeAll claims emits fuel ts pool = some rest ∧
      Balanced key emits rest later := by
  induction fuel generalizing ts later pool with
  | zero =>
    have hempty := eq_nil_of_length_eq_zero (Nat.le_zero.mp hfuel)
    subst hempty
    have hnil : ts = [] := by
      have hlength := h.length_eq
      simp only [map_nil, length_nil, length_append] at hlength
      exact eq_nil_of_length_eq_zero (by omega)
    subst hnil
    exact ⟨[], rfl, h⟩
  | succ _ ihfuel =>
    induction ts generalizing pool with
    | nil => exact ⟨pool, rfl, h⟩
    | cons t ts ih =>
      have ht := hts t mem_cons_self
      have hmem := h.symm.subset mem_cons_self
      obtain ⟨b, hb, hkeyb⟩ := mem_map.mp hmem
      have hclaimed := (hclaims t ht b (hpool b hb)).mpr hkeyb
      obtain ⟨a, hfind⟩ : ∃ a, pool.find? (claims t) = some a :=
        Option.isSome_iff_exists.mp (find?_isSome.mpr ⟨b, hb, hclaimed⟩)
      have ha := hpool a (mem_of_find?_eq_some hfind)
      have hkey := (hclaims t ht a ha).mp (find?_some hfind)
      have hperm := perm_cons_eraseP hfind
      have hlength := hperm.length_eq
      rw [length_cons] at hlength
      have hbelow : Balanced key emits (pool.eraseP (claims t)) (emits a ++ (ts ++ later)) := by
        subst hkey
        exact balanced_cons_iff.mp (h.perm hperm)
      obtain ⟨mid, hmid, hbalanced⟩ := ihfuel hbelow (by omega) (hemits a ha) fun b hb =>
        hpool b (eraseP_sublist.subset hb)
      have hsublist := (sublist_of_consumeAll hmid).trans eraseP_sublist
      obtain ⟨rest, hrest, hfinal⟩ := ih hbalanced (Nat.le_trans hsublist.length_le hfuel)
        (fun t ht => hts t (mem_cons_of_mem _ ht)) fun b hb =>
          hpool b (hsublist.subset hb)
      refine ⟨rest, ?_, hfinal⟩
      rw [consumeAll_cons, consume_succ, hfind, Option.bind_some, hmid]
      exact hrest

end

end Numaflow.Lib
