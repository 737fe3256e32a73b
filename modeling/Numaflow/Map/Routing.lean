import Numaflow.Map.Connection

/-!
# Which attempt a response belongs to

Senders and responses are matched by the identity of the message alone.  As long as a call is
made only when nothing is under way with its identity, at most one attempt of an identity is
under way, and so the sender that is found is the one of the attempt that is answered.

Main results: `Clear.not_active`, `Routing.opened`, `Routing.sender_eq_origin`.
-/

namespace Numaflow.Map.Connection

open Lib List Option

/-! ## Which attempts are under way -/

def idOf (c : Connection) (a : Nat) : Option String :=
  (c.attempts[a]?).map fun attempt => attempt.id

/-- Something of the attempt is still under way: its sender is in the map, the function has to
answer it or will be asked to, or a response is on the wire or in the hands of the receiving
task. -/
def Active (c : Connection) (a : Nat) : Prop :=
  (∃ id, c.senders.lookup id = some a) ∨
    (∃ attempt, c.attempts[a]? = some attempt ∧ attempt.stage.isOpen = true) ∨
    (∃ item ∈ c.wire, item.1 = a) ∨ ∃ d ∈ c.receiver.hand, d.origin = a ∨ d.sender = a

/-- Nothing is under way with the identity. -/
structure Clear (c : Connection) (id : String) : Prop where
  senders : c.senders.lookup id = none
  attempts : ∀ attempt ∈ c.attempts, attempt.id = id → attempt.stage.isOpen = false
  wire : ∀ item ∈ c.wire, item.2.id ≠ id
  hand : ∀ d ∈ c.receiver.hand, d.resp.id ≠ id

instance (c : Connection) (id : String) : Decidable (c.Clear id) :=
  decidable_of_iff
    (c.senders.lookup id = none ∧
      (∀ attempt ∈ c.attempts, attempt.id = id → attempt.stage.isOpen = false) ∧
      (∀ item ∈ c.wire, item.2.id ≠ id) ∧ ∀ d ∈ c.receiver.hand, d.resp.id ≠ id)
    ⟨fun h => ⟨h.1, h.2.1, h.2.2.1, h.2.2.2⟩, fun h => ⟨h.1, h.2, h.3, h.4⟩⟩

/-- Whatever goes under an identity belongs to an attempt with that identity, and one attempt of
an identity is under way at most. -/
structure Routing (c : Connection) : Prop where
  senders : ∀ id a, c.senders.lookup id = some a → c.idOf a = some id
  wire : ∀ item ∈ c.wire, c.idOf item.1 = some item.2.id
  hand : ∀ d ∈ c.receiver.hand,
    c.idOf d.origin = some d.resp.id ∧ c.idOf d.sender = some d.resp.id
  unique : ∀ a b id, c.Active a → c.Active b → c.idOf a = some id → c.idOf b = some id → a = b
  last : c.wire.Pairwise fun x y => x.2.eot = true → y.1 ≠ x.1
  ended : ∀ item ∈ c.wire, item.2.eot = true → item.2.results = [] ∧
    ∃ attempt, c.attempts[item.1]? = some attempt ∧ attempt.stage = .ended
  dead : ∀ d, c.receiver = .removing d → ∀ attempt, c.attempts[d.sender]? = some attempt →
    attempt.alive = false

theorem routing_new : Routing {} where
  senders _ _ h := by cases h
  wire _ h := by cases h
  hand _ h := by cases h
  unique _ _ _ _ _ h := by cases h
  last := Pairwise.nil
  ended _ h := by cases h
  dead _ h := by cases h

variable {a b : Nat} {f : Attempt → Attempt} {attempt : Attempt}

theorem getElem?_update {c : Connection} : (c.update a f).attempts[b]? = some attempt ↔
      ∃ old, c.attempts[b]? = some old ∧ attempt = if a = b then f old else old := by
  rw [update, getElem?_modify, Option.map_eq_map, Option.map_eq_some_iff]
  exact exists_congr fun old => and_congr_right fun _ => eq_comm

/-- What no change to an attempt touches or turns back. -/
structure Keeps (old new : Attempt) : Prop where
  id : new.id = old.id
  isOpen : new.stage.isOpen = true → old.stage.isOpen = true
  ended : old.stage = .ended → new.stage = .ended
  dead : old.alive = false → new.alive = false

section

variable {c : Connection}

theorem Keeps.refl (old : Attempt) : Keeps old old :=
  ⟨rfl, fun h => h, fun h => h, fun h => h⟩

variable (hf : ∀ old, c.attempts[a]? = some old → Keeps old (f old))

include hf

variable {old new : Attempt}

theorem exists_update (h : c.attempts[b]? = some old) :
    ∃ new, (c.update a f).attempts[b]? = some new ∧ Keeps old new := by
  refine ⟨if a = b then f old else old, getElem?_update.mpr ⟨old, h, rfl⟩, ?_⟩
  split_ifs with hab
  · subst hab
    exact hf old h
  · exact Keeps.refl old

theorem keeps_update (h : (c.update a f).attempts[b]? = some new) :
    ∃ old, c.attempts[b]? = some old ∧ Keeps old new := by
  obtain ⟨old, hold, -⟩ := getElem?_update.mp h
  obtain ⟨new', hnew', hkeeps⟩ := exists_update hf hold
  cases h.symm.trans hnew'
  exact ⟨old, hold, hkeeps⟩

theorem idOf_update (b : Nat) : (c.update a f).idOf b = c.idOf b := by
  cases hb : c.attempts[b]? with
  | none =>
    rw [idOf, idOf, update, getElem?_modify, hb]
    rfl
  | some =>
    obtain ⟨new, hnew, hkeeps⟩ := exists_update hf hb
    rw [idOf, idOf, hnew, hb, map_some, map_some, hkeeps.id]

theorem active_update (h : (c.update a f).Active b) : c.Active b := by
  rcases h with h | ⟨new, hnew, hopen⟩ | h | h
  · exact .inl h
  · obtain ⟨old, hold, hkeeps⟩ := keeps_update hf hnew
    exact .inr (.inl ⟨old, hold, hkeeps.isOpen hopen⟩)
  · exact .inr (.inr (.inl h))
  · exact .inr (.inr (.inr h))

theorem Routing.update (h : Routing c) : Routing (c.update a f) where
  senders id b hb := by
    rw [idOf_update hf]
    exact h.senders id b hb
  wire item hitem := by
    rw [idOf_update hf]
    exact h.wire item hitem
  hand d hd := by
    rw [idOf_update hf, idOf_update hf]
    exact h.hand d hd
  unique b b' id hb hb' hid hid' := by
    rw [idOf_update hf] at hid hid'
    exact h.unique b b' id (active_update hf hb) (active_update hf hb') hid hid'
  last := h.last
  ended item hitem heot := by
    obtain ⟨hresults, old, hold, hended⟩ := h.ended item hitem heot
    obtain ⟨new, hnew, hkeeps⟩ := exists_update hf hold
    exact ⟨hresults, new, hnew, hkeeps.ended hended⟩
  dead d hd new hnew := by
    obtain ⟨old, hold, hkeeps⟩ := keeps_update hf hnew
    exact hkeeps.dead (h.dead d hd old hold)

end

variable {resp : MapResponse} {c c' : Connection} {id' : String}

/-- The function answers the attempt that is under way with an identity. -/
theorem Routing.append (h : Routing c) (hid : c.idOf a = some resp.id)
    (hactive : ∀ b, c.Active b → c.idOf b = some resp.id → b = a)
    (hlast : ∀ item ∈ c.wire, item.2.eot = true → item.1 ≠ a)
    (heot : resp.eot = true → resp.results = [] ∧
      ∃ attempt, c.attempts[a]? = some attempt ∧ attempt.stage = .ended) :
    Routing { c with wire := c.wire ++ [(a, resp)] } := by
  have hcases : ∀ b, Active { c with wire := c.wire ++ [(a, resp)] } b → b = a ∨ c.Active b := by
    rintro b (hb | hb | ⟨item, hitem, rfl⟩ | hb)
    · exact .inr (.inl hb)
    · exact .inr (.inr (.inl hb))
    · rcases mem_append.mp hitem with hitem | hitem
      · exact .inr (.inr (.inr (.inl ⟨item, hitem, rfl⟩)))
      · rw [mem_singleton.mp hitem]
        exact .inl rfl
    · exact .inr (.inr (.inr (.inr hb)))
  refine ⟨h.senders, forall_mem_concat.mpr ⟨h.wire, hid⟩,
    h.hand, ?_, ?_, forall_mem_concat.mpr ⟨h.ended, heot⟩,
    h.dead⟩
  · intro b b' id hb hb' hidb hidb'
    rcases hcases b hb with hba | hold
    · subst hba
      cases hid.symm.trans hidb
      rcases hcases b' hb' with hba' | hold'
      · exact hba'.symm
      · exact (hactive b' hold' hidb').symm
    · rcases hcases b' hb' with hba' | hold'
      · subst hba'
        cases hid.symm.trans hidb'
        exact hactive b hold hidb
      · exact h.unique b b' id hold hold' hidb hidb'
  · refine pairwise_append.mpr ⟨h.last, pairwise_singleton _ _, ?_⟩
    intro x hx y hy heot
    rw [mem_singleton.mp hy]
    exact (hlast x hx heot).symm

/-- The receiving task moves senders and responses on without making an attempt active. -/
theorem Routing.reroute (h : Routing c) {senders : HashMap String Nat}
    {wire : List (Nat × MapResponse)} {receiver : Receiver} {closed : Bool}
    (hsenders : ∀ id a, senders.lookup id = some a → c.idOf a = some id ∧ c.Active a)
    (hwire : wire <:+ c.wire)
    (hhand : ∀ d ∈ receiver.hand, (c.idOf d.origin = some d.resp.id ∧ c.Active d.origin) ∧
      c.idOf d.sender = some d.resp.id ∧ c.Active d.sender)
    (hdead : ∀ d, receiver = .removing d → ∀ attempt, c.attempts[d.sender]? = some attempt →
      attempt.alive = false) : Routing ⟨c.attempts, senders, closed, wire, receiver⟩ := by
  have hactive : ∀ a, Active ⟨c.attempts, senders, closed, wire, receiver⟩ a → c.Active a := by
    rintro a (⟨id, ha⟩ | ha | ⟨item, hitem, rfl⟩ | ⟨d, hd, rfl | rfl⟩)
    · exact (hsenders id a ha).2
    · exact .inr (.inl ha)
    · exact .inr (.inr (.inl ⟨item, hwire.subset hitem, rfl⟩))
    · exact (hhand d hd).1.2
    · exact (hhand d hd).2.2
  exact ⟨fun id a ha => (hsenders id a ha).1, fun item hitem => h.wire item (hwire.subset hitem),
    fun d hd => ⟨(hhand d hd).1.1, (hhand d hd).2.1⟩,
    fun a b id ha hb => h.unique a b id (hactive a ha) (hactive b hb),
    h.last.sublist hwire.sublist, fun item hitem => h.ended item (hwire.subset hitem), hdead⟩

section

variable (h : Routing c)

include h

theorem Routing.hand_active : ∀ d ∈ c.receiver.hand,
    (c.idOf d.origin = some d.resp.id ∧ c.Active d.origin) ∧
      c.idOf d.sender = some d.resp.id ∧ c.Active d.sender :=
  fun d hd => ⟨⟨(h.hand d hd).1, .inr (.inr (.inr ⟨d, hd, .inl rfl⟩))⟩,
    (h.hand d hd).2, .inr (.inr (.inr ⟨d, hd, .inr rfl⟩))⟩

theorem Routing.senders_active (id : String) (a : Nat)
    (ha : c.senders.lookup id = some a) : c.idOf a = some id ∧ c.Active a :=
  ⟨h.senders id a ha, .inl ⟨id, ha⟩⟩

theorem Routing.senders_erase_active (id id' : String) (a : Nat)
    (ha : (c.senders.erase id).lookup id' = some a) : c.idOf a = some id' ∧ c.Active a := by
  by_cases hid : id' = id
  · rw [hid, AList.lookup_erase] at ha
    cases ha
  · rw [AList.lookup_erase_ne hid] at ha
    exact h.senders_active id' a ha

/-- Senders that are taken out of the map do not change the routing. -/
theorem Routing.erase (id : String) : Routing { c with senders := c.senders.erase id } := by
  exact h.reroute (h.senders_erase_active id) (suffix_refl _) h.hand_active h.dead

variable {d : Delivery} {origin : Nat}

/-- The sender in the hands of the receiving task is that of the attempt that is answered. -/
theorem Routing.sender_eq_origin (hd : d ∈ c.receiver.hand) : d.sender = d.origin := by
  obtain ⟨⟨hido, hactiveo⟩, hids, hactives⟩ := h.hand_active d hd
  exact h.unique d.sender d.origin d.resp.id hactives hactiveo hids hido

/-- An attempt whose sender is found under the identity of a response is the one that the
response answers. -/
theorem Routing.eq_of_lookup (ha : c.senders.lookup resp.id = some a)
    (hitem : (origin, resp) ∈ c.wire) : origin = a :=
  h.unique origin a resp.id (.inr (.inr (.inl ⟨_, hitem, rfl⟩))) (.inl ⟨_, ha⟩)
    (h.wire _ hitem) (h.senders _ _ ha)

end

variable {task : Nat} {id : String}

theorem getElem?_of_idOf (h : c.idOf a = some id) :
    ∃ attempt, c.attempts[a]? = some attempt ∧ attempt.id = id :=
  map_eq_some_iff.mp h

/-- An attempt with an identity that nothing is under way with is not active. -/
theorem Clear.not_active (h : c.Clear id) (hrouting : Routing c) (hid : c.idOf a = some id) :
    ¬ c.Active a := by
  rintro (⟨id', ha⟩ | ⟨attempt, ha, hopen⟩ | ⟨item, hitem, rfl⟩ | ⟨d, hd, rfl | rfl⟩)
  · cases (hrouting.senders id' a ha).symm.trans hid
    rw [h.senders] at ha
    cases ha
  · obtain ⟨attempt', ha', hid'⟩ := getElem?_of_idOf hid
    cases ha.symm.trans ha'
    rw [h.attempts attempt (mem_of_getElem? ha) hid'] at hopen
    cases hopen
  · exact h.wire item hitem (some.inj ((hrouting.wire item hitem).symm.trans hid))
  · exact h.hand d hd (some.inj ((hrouting.hand d hd).1.symm.trans hid))
  · exact h.hand d hd (some.inj ((hrouting.hand d hd).2.symm.trans hid))

/-! ## A call keeps the routing -/

/-- The connection after a call has put its sender into the map. -/
def opened (c : Connection) (task : Nat) (id : String) : Connection :=
  { c with
    attempts := c.attempts ++ [{ task := task, id := id }]
    senders := c.senders.insert id c.attempts.length }

theorem stream_eq_ok (h : c.stream task id = .ok (c', a)) :
    c' = c.opened task id ∧ a = c.attempts.length := by
  unfold stream at h
  split_ifs at h
  cases h
  exact ⟨rfl, rfl⟩

theorem idOf_opened (c : Connection) (task : Nat) (id : String) (a : Nat) :
    (c.opened task id).idOf a = if a = c.attempts.length then some id else c.idOf a := by
  unfold idOf opened
  split_ifs with ha
  · subst ha
    simp
  · rcases Nat.lt_or_ge a c.attempts.length with hlt | hge
    · rw [getElem?_append_left hlt]
    · rw [getElem?_eq_none (by simp; omega), getElem?_eq_none hge]

theorem ne_length_of_idOf (h : c.idOf a = some id) : a ≠ c.attempts.length := by
  obtain ⟨attempt, ha, -⟩ := getElem?_of_idOf h
  exact Nat.ne_of_lt (List.getElem?_eq_some_iff.mp ha).1

theorem idOf_opened_of_some (h : c.idOf a = some id') : (c.opened task id).idOf a = some id' := by
  rw [idOf_opened, if_neg (ne_length_of_idOf h), h]

theorem active_opened (h : (c.opened task id).Active a) : a = c.attempts.length ∨ c.Active a := by
  rcases h with ⟨id', ha⟩ | ⟨attempt, ha, hopen⟩ | ha | ha
  · change (c.senders.insert id c.attempts.length).lookup id' = some a at ha
    by_cases hid : id' = id
    · rw [hid, AList.lookup_insert] at ha
      exact .inl (some.inj ha).symm
    · rw [AList.lookup_insert_ne hid] at ha
      exact .inr (.inl ⟨id', ha⟩)
  · rcases getElem?_append_singleton_cases ha with ha | ⟨ha, -⟩
    · exact .inr (.inr (.inl ⟨attempt, ha, hopen⟩))
    · exact .inl ha
  · exact .inr (.inr (.inr (.inl ha)))
  · exact .inr (.inr (.inr (.inr ha)))

/-- A call under a free identity takes no sender away. -/
theorem Routing.opened (h : Routing c) (hclear : c.Clear id) (task : Nat) :
    Routing (c.opened task id) where
  senders id' a ha := by
    change (c.senders.insert id c.attempts.length).lookup id' = some a at ha
    by_cases hid : id' = id
    · subst hid
      rw [AList.lookup_insert] at ha
      rw [idOf_opened, if_pos (some.inj ha).symm]
    · rw [AList.lookup_insert_ne hid] at ha
      exact idOf_opened_of_some (h.senders id' a ha)
  wire item hitem := idOf_opened_of_some (h.wire item hitem)
  hand d hd := (h.hand d hd).imp idOf_opened_of_some idOf_opened_of_some
  unique a b id' ha hb hida hidb := by
    rw [idOf_opened] at hida hidb
    -- an older attempt with the identity of the new one is not active
    have hold : ∀ a, c.Active a → c.idOf a = some id' → id' ≠ id := by
      rintro old hactive hidold rfl
      exact hclear.not_active h hidold hactive
    split_ifs at hida hidb with hna hnb hnb
    · rw [hna, hnb]
    · cases hida
      exact absurd rfl (hold b ((active_opened hb).resolve_left hnb) hidb)
    · cases hidb
      exact absurd rfl (hold a ((active_opened ha).resolve_left hna) hida)
    · exact h.unique a b id' ((active_opened ha).resolve_left hna)
        ((active_opened hb).resolve_left hnb) hida hidb
  last := h.last
  ended item hitem heot := by
    obtain ⟨hresults, attempt, hattempt, hended⟩ := h.ended item hitem heot
    refine ⟨hresults, attempt, ?_, hended⟩
    change (c.attempts ++ [_])[item.1]? = some attempt
    rw [List.getElem?_append_left (List.getElem?_eq_some_iff.mp hattempt).1, hattempt]
  dead d hd attempt hattempt := by
    have hne := ne_length_of_idOf (h.hand d (by rw [show c.receiver = .removing d from hd]; rfl)).2
    rcases getElem?_append_singleton_cases hattempt with hattempt | ⟨heq, -⟩
    · exact h.dead d hd attempt hattempt
    · exact absurd heq hne

end Numaflow.Map.Connection
