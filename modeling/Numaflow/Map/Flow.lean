import Numaflow.Map.Routing

/-!
# What a task receives from its channel

What the function answers in an attempt is received by the task, or queued, or on its way, in
this order; and the channel stays connected until the end of the transmission is through, or
the task is told about an error.

Main results: `Sound.advance`, `Sound.opened`, `Sound.recv_closed`.
-/

namespace Numaflow.Map

open Lib Receiver List AList

/-- The results in a queue. -/
def queued (queue : List (Except MapError (List MapResult))) : List MapResult :=
  queue.flatMap fun item =>
    match item with
    | .ok results => results
    | .error _ => []

/-- The sender of the attempt is in the hands of the receiving task and not in the map. -/
def Receiver.holds (a : Nat) : Receiver → Prop
  | .holding d => d.sender = a
  | _ => False

variable {a : Nat}

theorem Receiver.exists_hand {r : Receiver} (h : r.holds a) : ∃ d ∈ r.hand, d.sender = a := by
  cases r with
  | holding d => exact ⟨d, rfl, h⟩
  | _ => exact h.elim

/-- The results that are still to be sent. -/
def Receiver.carried (a : Nat) : Receiver → List MapResult
  | .holding d | .sending d => if d.origin = a then d.resp.results else []
  | _ => []

namespace Connection

/-- The results of an attempt that are on the wire or in the hands of the receiving task. -/
def transit (c : Connection) (a : Nat) : List MapResult :=
  c.receiver.carried a ++ (c.wire.filter fun item => item.1 = a).flatMap fun item => item.2.results

section

variable (c : Connection) (a : Nat) (attempt : Attempt)

/-- The task will get an error. -/
def Doomed : Prop :=
  (∃ e, .error e ∈ attempt.queue) ∨ c.receiver.dooms a

/-- The receiving task finds the sender of the attempt, or has it in its hands. -/
def Connected : Prop :=
  c.senders.lookup attempt.id = some a ∨ c.receiver.holds a

/-- The receiving task is through with the end of the transmission. -/
def Finished : Prop :=
  attempt.stage = .ended ∧ (∀ item ∈ c.wire, item.1 ≠ a) ∧ ∀ d ∈ c.receiver.hand, d.origin ≠ a

/-- What the function answered has been received, is queued or on its way, in this order. -/
def Complete : Prop :=
  attempt.answers.flatten = attempt.consumed ++ queued attempt.queue ++ c.transit a

def Flows : Prop :=
  c.Doomed a attempt ∨
    c.Complete a attempt ∧ (c.Connected a attempt ∨ c.Finished a attempt)

end

/-- The invariant of the connection. -/
structure Sound (c : Connection) : Prop where
  routing : Routing c
  flow : ∀ a attempt, c.attempts[a]? = some attempt → attempt.alive = true → c.Flows a attempt

theorem sound_new : Sound {} where
  routing := routing_new
  flow _ _ h := by cases h

variable {c c' : Connection} {attempt : Attempt}

theorem idOf_eq (h : c.attempts[a]? = some attempt) : c.idOf a = some attempt.id := by
  rw [idOf, h, Option.map_some]

theorem Finished.transit_eq_nil (h : c.Finished a attempt) : c.transit a = [] := by
  have hwire : c.wire.filter (fun item => item.1 = a) = [] :=
    filter_eq_nil_iff.mpr (by simpa using h.2.1)
  have hhand : c.receiver.carried a = [] := by
    have hhand := h.2.2
    unfold carried
    split <;> simp_all [hand]
  rw [transit, hwire, hhand]
  rfl

/-- What carries over to another state of the connection. -/
theorem Flows.imp (h : c.Flows a attempt) (hdoomed : c.receiver.dooms a → c'.receiver.dooms a)
    (htransit : c'.transit a = c.transit a) (hend : c.Connected a attempt ∨ c.Finished a attempt →
      c'.Connected a attempt ∨ c'.Finished a attempt) : c'.Flows a attempt := by
  refine Or.imp (Or.imp_right hdoomed) (fun ⟨hcomplete, h⟩ => ⟨?_, hend h⟩) h
  rw [Complete, htransit]
  exact hcomplete

/-- An attempt whose sender the receiving task has is under way. -/
theorem Connected.active (h : c.Connected a attempt) : c.Active a := by
  rcases h with h | h
  · exact .inl ⟨_, h⟩
  · obtain ⟨d, hd, hsender⟩ := exists_hand h
    exact .inr (.inr (.inr ⟨d, hd, .inr hsender⟩))

variable (h : Sound c)

include h

/-- After everything has been received the channel is at its end. -/
theorem Sound.recv_closed (ha : c.attempts[a]? = some attempt)
    (halive : attempt.alive = true) (hrecv : c.recv a = some (.closed, c')) :
    attempt.stage = .ended ∧ attempt.consumed = attempt.answers.flatten := by
  simp only [recv, ha] at hrecv
  split at hrecv
  · cases hrecv
  · cases hrecv
  · rename_i hqueue
    split_ifs at hrecv with hsenderless
    obtain ⟨hvalues, hdooms, hhand⟩ := hsenderless
    rcases h.flow a attempt ha halive with (⟨e, he⟩ | hdoomed) | ⟨hcomplete, hconnected | hfinished⟩
    · rw [hqueue] at he
      cases he
    · exact absurd hdoomed hdooms
    · rcases hconnected with hlookup | hheld
      · exact absurd (HashMap.mem_values.mpr ⟨_, hlookup⟩) hvalues
      · obtain ⟨d, hd, hsender⟩ := exists_hand hheld
        exact absurd hsender (hhand d hd)
    · rw [Complete, hfinished.transit_eq_nil, hqueue] at hcomplete
      refine ⟨hfinished.1, ?_⟩
      simpa [queued] using hcomplete.symm

/-! ## The calls of the tasks and the answers keep the invariant -/

variable {f : Attempt → Attempt} {received : Received} {resp : MapResponse} {origin : Nat}
  {item : Except MapError (List MapResult)} {e : MapError}

theorem Sound.update (hf : ∀ old, c.attempts[a]? = some old → Keeps old (f old))
    (hflow : ∀ old, c.attempts[a]? = some old → (f old).alive = true → c.Flows a old →
      c.Flows a (f old)) : Sound (c.update a f) := by
  refine ⟨h.routing.update hf, fun b new hnew halive => ?_⟩
  obtain ⟨old, hold, heq⟩ := getElem?_update.mp hnew
  obtain ⟨old', hold', hkeeps⟩ := keeps_update hf hnew
  cases hold.symm.trans hold'
  have hflows := h.flow b old hold (by
    by_contra hdead
    rw [hkeeps.dead (Bool.not_eq_true _ ▸ hdead)] at halive
    cases halive)
  split_ifs at heq with hab
  · subst hab
    subst heq
    exact hflow old hold halive hflows
  · rw [heq]
    exact hflows

theorem Sound.dropReceiver (a : Nat) : Sound (c.dropReceiver a) :=
  h.update (fun _ _ => ⟨rfl, fun h => h, fun h => h, fun _ => rfl⟩) fun _ _ halive => by
    cases halive

/-- A task takes results from its channel. -/
theorem Sound.recv (hrecv : c.recv a = some (received, c')) : Sound c' := by
  unfold Connection.recv at hrecv
  split at hrecv
  · cases hrecv
  · rename_i attempt ha
    split at hrecv
    · rename_i results queue hqueue
      cases hrecv
      refine h.update (fun _ _ => ⟨rfl, fun h => h, fun h => h, fun h => h⟩) ?_
      intro old hold _ hflows
      cases ha.symm.trans hold
      rcases hflows with (⟨e, he⟩ | hdoomed) | ⟨hcomplete, hend⟩
      · rw [hqueue] at he
        exact .inl (.inl ⟨e, (mem_cons.mp he).resolve_left nofun⟩)
      · exact .inl (.inr hdoomed)
      · refine .inr ⟨?_, hend⟩
        rw [Complete, hqueue] at hcomplete
        rw [Complete, hcomplete]
        simp [queued]
    · cases hrecv
      exact h.dropReceiver a
    · split_ifs at hrecv
      cases hrecv
      exact h.dropReceiver a

omit h in
/-- An attempt stays connected when another sender leaves the map. -/
theorem Flows.erase {id : String} (h : c.Flows a attempt)
    (hne : c.senders.lookup attempt.id = some a → attempt.id ≠ id) :
    Flows { c with senders := c.senders.erase id } a attempt := by
  rcases h with hdoomed | ⟨hcomplete, (hlookup | hholding) | hfinished⟩
  · exact .inl hdoomed
  · refine .inr ⟨hcomplete, .inl (.inl ?_)⟩
    rw [lookup_erase_ne (hne hlookup)]
    exact hlookup
  · exact .inr ⟨hcomplete, .inl (.inr hholding)⟩
  · exact .inr ⟨hcomplete, .inr hfinished⟩

/-- A task sends its request. -/
theorem Sound.request (a : Nat) (sent : Bool) : Sound (c.request a sent) := by
  unfold Connection.request
  split
  · exact h
  · rename_i attempt ha
    split_ifs with hpending hsent
    · exact h
    · rw [not_not] at hpending
      refine h.update (fun old hold => ?_) fun old hold _ hflows => ?_
      · cases ha.symm.trans hold
        refine ⟨rfl, fun _ => by rw [hpending]; rfl, fun hended => ?_, fun h => h⟩
        rw [hpending] at hended
        cases hended
      · cases ha.symm.trans hold
        rcases hflows with hdoomed | ⟨hcomplete, hconnected | ⟨hended, -⟩⟩
        · exact .inl hdoomed
        · exact .inr ⟨hcomplete, .inl hconnected⟩
        · rw [hpending] at hended
          cases hended
    · rw [not_not] at hpending
      have hkeeps : ∀ old, c.attempts[a]? = some old →
          Keeps old { old with stage := .refused, alive := false } := by
        intro old hold
        cases ha.symm.trans hold
        refine ⟨rfl, nofun, fun hended => ?_, fun _ => rfl⟩
        rw [hpending] at hended
        cases hended
      have hsound := h.update hkeeps fun old _ halive => by cases halive
      refine ⟨hsound.routing.erase attempt.id, fun b new hnew halive => ?_⟩
      refine (hsound.flow b new hnew halive).erase fun hlookup hid => ?_
      -- the sender under the identity belongs to the attempt that gives up
      have hactive : c.Active a := .inr (.inl ⟨attempt, ha, by rw [hpending]; rfl⟩)
      have hsame := h.routing.unique b a attempt.id (.inl ⟨new.id, hlookup⟩) hactive
        (hid ▸ h.routing.senders new.id b hlookup) (idOf_eq ha)
      obtain ⟨old, -, heq⟩ := getElem?_update.mp hnew
      rw [if_pos hsame.symm] at heq
      rw [heq] at halive
      cases halive

omit h in
theorem transit_append (c : Connection) (a b : Nat) (resp : MapResponse) :
    transit { c with wire := c.wire ++ [(a, resp)] } b =
      c.transit b ++ if a = b then resp.results else [] := by
  unfold transit
  rw [filter_append]
  split_ifs with hab
  · simp [hab]
  · simp [hab]

/-- The function answers an attempt. -/
theorem Sound.answer (ha : c.attempts[a]? = some attempt)
    (hasked : attempt.stage = .asked) (hid : resp.id = attempt.id)
    (hf : (f attempt).id = attempt.id ∧ (f attempt).queue = attempt.queue ∧
      (f attempt).consumed = attempt.consumed ∧ (f attempt).alive = attempt.alive)
    (hanswers : (f attempt).answers.flatten = attempt.answers.flatten ++ resp.results)
    (heot : resp.eot = true → resp.results = [] ∧ (f attempt).stage = .ended) :
    Sound { c.update a f with wire := c.wire ++ [(a, resp)] } := by
  have hkeeps : ∀ old, c.attempts[a]? = some old → Keeps old (f old) := by
    intro old hold
    cases ha.symm.trans hold
    refine ⟨hf.1, fun _ => by rw [hasked]; rfl, fun hended => ?_, fun hdead => ?_⟩
    · rw [hasked] at hended
      cases hended
    · rw [hf.2.2.2, hdead]
  have hactive : c.Active a := .inr (.inl ⟨attempt, ha, by rw [hasked]; rfl⟩)
  have hida : c.idOf a = some resp.id := by rw [idOf_eq ha, hid]
  have hnew := getElem?_update (f := f) |>.mpr ⟨attempt, ha, (if_pos (rfl : a = a)).symm⟩
  refine ⟨(h.routing.update hkeeps).append ?_ (fun b hb hidb => ?_) (fun item hitem hlast heq => ?_)
    (fun hresp => ⟨(heot hresp).1, f attempt, hnew, (heot hresp).2⟩), fun b new hb halive => ?_⟩
  · rw [idOf_update hkeeps, hida]
  · rw [idOf_update hkeeps] at hidb
    exact h.routing.unique b a resp.id (active_update hkeeps hb) hactive hidb hida
  · obtain ⟨-, old, hold, hended⟩ := h.routing.ended item hitem hlast
    rw [heq, ha] at hold
    obtain rfl := Option.some.inj hold
    rw [hasked] at hended
    cases hended
  · obtain ⟨old, hold, heq⟩ := getElem?_update.mp hb
    have hcomplete : ∀ {new : Attempt}, new.answers.flatten =
        old.answers.flatten ++ (if a = b then resp.results else []) →
        new.queue = old.queue → new.consumed = old.consumed → c.Complete b old →
        Complete { c.update a f with wire := c.wire ++ [(a, resp)] } b new := by
      intro new hanswers hqueue hconsumed hcomplete
      rw [Complete, hanswers, hcomplete, hqueue, hconsumed]
      change _ = _ ++ transit { c with wire := c.wire ++ [(a, resp)] } b
      rw [transit_append, append_assoc]
    split_ifs at heq with hab
    · subst hab
      cases ha.symm.trans hold
      subst heq
      rw [hf.2.2.2] at halive
      rcases h.flow a attempt ha halive with hdoomed | ⟨hold, hconnected | ⟨hended, -⟩⟩
      · rw [Doomed, ← hf.2.1] at hdoomed
        exact .inl hdoomed
      · refine .inr ⟨hcomplete ?_ hf.2.1 hf.2.2.1 hold, .inl ?_⟩
        · rw [if_pos rfl, hanswers]
        · rw [Connected, ← hf.1] at hconnected
          exact hconnected
      · rw [hasked] at hended
        cases hended
    · subst heq
      rcases h.flow b new hold halive with hdoomed | ⟨hold, hconnected | ⟨hended, hwire, hhand⟩⟩
      · exact .inl hdoomed
      · refine .inr ⟨hcomplete ?_ rfl rfl hold, .inl hconnected⟩
        rw [if_neg hab, append_nil]
      · refine .inr ⟨hcomplete ?_ rfl rfl hold, .inr ⟨hended, ?_, hhand⟩⟩
        · rw [if_neg hab, append_nil]
        · exact forall_mem_concat.mpr ⟨hwire, hab⟩

theorem Sound.respond (a : Nat) (results : List MapResult) : Sound (c.respond a results) := by
  unfold Connection.respond
  split
  · exact h
  · rename_i attempt ha
    split_ifs with hasked
    · exact h
    · exact h.answer ha (not_not.mp hasked) rfl ⟨rfl, rfl, rfl, rfl⟩ (by simp) nofun

theorem Sound.eot (a : Nat) : Sound (c.eot a) := by
  unfold Connection.eot
  split
  · exact h
  · rename_i attempt ha
    split_ifs with hasked
    · exact h
    · exact h.answer ha (not_not.mp hasked) rfl ⟨rfl, rfl, rfl, rfl⟩ (by simp) fun _ => ⟨rfl, rfl⟩

/-- A call keeps the invariant when nothing is under way with its identity. -/
theorem Sound.opened {id : String} (hclear : c.Clear id) (task : Nat) :
    Sound (c.opened task id) := by
  refine ⟨h.routing.opened hclear task, fun a attempt ha halive => ?_⟩
  rcases getElem?_append_singleton_cases ha with ha | ⟨rfl, rfl⟩
  · rcases h.flow a attempt ha halive with hdoomed | ⟨hcomplete, (hlookup | hholding) | hfinished⟩
    · exact .inl hdoomed
    · refine .inr ⟨hcomplete, .inl (.inl ?_)⟩
      have hne : attempt.id ≠ id := by
        rintro rfl
        rw [hclear.senders] at hlookup
        cases hlookup
      change (c.senders.insert id c.attempts.length).lookup attempt.id = some a
      rw [lookup_insert_ne hne, hlookup]
    · exact .inr ⟨hcomplete, .inl (.inr hholding)⟩
    · exact .inr ⟨hcomplete, .inr hfinished⟩
  · refine .inr ⟨?_, .inl (.inl (lookup_insert _))⟩
    -- nothing of the new attempt is under way
    have hfinished : c.Finished c.attempts.length ⟨task, id, .ended, [], [], true, []⟩ :=
      ⟨rfl, fun item hitem => ne_length_of_idOf (h.routing.wire item hitem),
        fun d hd => ne_length_of_idOf (h.routing.hand d hd).1⟩
    change [] = [] ++ queued [] ++ c.transit c.attempts.length
    rw [hfinished.transit_eq_nil]
    rfl

/-! ## The receiving task keeps the invariant -/

omit h in
/-- What flows through an attempt while the receiving task is idle: the next response and the
rest of the wire. -/
theorem transit_cons (hidle : c.receiver = .idle) {wire : List (Nat × MapResponse)}
    (hwire : c.wire = (origin, resp) :: wire) (a : Nat) :
    c.transit a = (if origin = a then resp.results else []) ++
      (wire.filter fun item => item.1 = a).flatMap fun item => item.2.results := by
  rw [transit]
  split_ifs with ha <;> simp_all [carried]

omit h in
theorem Connected.lookup_of_idle (hidle : c.receiver = .idle) (h : c.Connected a attempt) :
    c.senders.lookup attempt.id = some a := by
  refine h.resolve_right fun hholds => ?_
  rw [hidle] at hholds
  exact hholds

section Next

variable {wire : List (Nat × MapResponse)} (hwire : c.wire = (origin, resp) :: wire)

include hwire

omit h in
theorem Routing.next (h : Routing c) :
    Routing { c with wire := wire, senders := c.senders.erase resp.id } :=
  h.reroute (h.senders_erase_active resp.id) (hwire ▸ suffix_cons _ _) h.hand_active h.dead

omit h in
/-- What is finished stays so when the task goes on to a response of another attempt. -/
theorem Finished.next (h : c.Finished a attempt) {senders : HashMap String Nat}
    {receiver : Receiver} (hhand : ∀ d ∈ receiver.hand, d.origin ≠ a) :
    Finished { c with wire := wire, senders := senders, receiver := receiver } a attempt := by
  refine ⟨h.1, fun item hitem => h.2.1 item ?_, hhand⟩
  rw [hwire]
  exact mem_cons_of_mem _ hitem

variable (hidle : c.receiver = .idle)

include hidle

/-- The end of a transmission takes the sender out of the map. -/
theorem Sound.next_eot (heot : resp.eot = true) :
    Sound { c with wire := wire, senders := c.senders.erase resp.id } := by
  have hmem := hwire ▸ mem_cons_self
  obtain ⟨hresults, ended, hended, hstage⟩ := h.routing.ended _ hmem heot
  refine ⟨h.routing.next hwire, fun a attempt ha halive => ?_⟩
  refine (h.flow a attempt ha halive).imp id ?_ ?_
  · rw [transit_cons hidle hwire, hresults, transit, hidle]
    simp [carried]
  · rintro (hconnected | hfinished)
    · have hlookup := hconnected.lookup_of_idle hidle
      by_cases hid : attempt.id = resp.id
      · obtain rfl := h.routing.eq_of_lookup (hid ▸ hlookup) hmem
        cases ha.symm.trans hended
        refine .inr ⟨hstage, fun item hitem => ?_, ?_⟩
        · have hlast := h.routing.last
          rw [hwire, pairwise_cons] at hlast
          exact hlast.1 item hitem heot
        · rw [hidle]
          exact nofun
      · refine .inl (.inl ?_)
        rw [lookup_erase_ne hid]
        exact hlookup
    · exact .inr (hfinished.next hwire hfinished.2.2)

/-- A response without a sender is not one of an attempt that still waits. -/
theorem Sound.next_unknown (hnone : c.senders.lookup resp.id = none) :
    Sound { c with wire := wire, senders := c.senders.erase resp.id } := by
  have hmem := hwire ▸ mem_cons_self
  refine ⟨h.routing.next hwire, fun a attempt ha halive => ?_⟩
  rcases h.flow a attempt ha halive with hdoomed | ⟨hcomplete, hend⟩
  · exact .inl hdoomed
  have hid : c.Connected a attempt → attempt.id ≠ resp.id := by
    intro hconnected hid
    rw [← hid, hconnected.lookup_of_idle hidle] at hnone
    cases hnone
  have hother : origin ≠ a := by
    rintro rfl
    rcases hend with hconnected | hfinished
    · exact hid hconnected (Option.some.inj ((idOf_eq ha).symm.trans (h.routing.wire _ hmem)))
    · exact hfinished.2.1 _ hmem rfl
  refine Flows.imp (.inr ⟨hcomplete, hend⟩) id ?_ ?_
  · rw [transit_cons hidle hwire, if_neg hother, hidle]
    rfl
  · rintro (hconnected | hfinished)
    · refine .inl (.inl ?_)
      rw [lookup_erase_ne (hid hconnected)]
      exact hconnected.lookup_of_idle hidle
    · exact .inr (hfinished.next hwire hfinished.2.2)

variable {sender : Nat}

/-- The sender of the attempt that is answered is taken. -/
theorem Sound.next_hold (hsender : c.senders.lookup resp.id = some sender) : Sound { c with
      wire := wire, senders := c.senders.erase resp.id
      receiver := .holding ⟨origin, resp, sender⟩ } := by
  have hmem := hwire ▸ mem_cons_self
  obtain rfl := h.routing.eq_of_lookup hsender hmem
  have hrouting : Routing { c with
      wire := wire, senders := c.senders.erase resp.id
      receiver := .holding ⟨origin, resp, origin⟩ } := by
    refine h.routing.reroute (h.routing.senders_erase_active resp.id)
      (hwire ▸ suffix_cons _ _) ?_ nofun
    rintro d ⟨⟩
    exact ⟨h.routing.senders_active _ _ hsender, h.routing.senders_active _ _ hsender⟩
  refine ⟨hrouting, fun a attempt ha halive => ?_⟩
  refine (h.flow a attempt ha halive).imp (fun hdooms => ?_) ?_ fun hend => ?_
  · rw [hidle] at hdooms
    exact hdooms.elim
  · rw [transit_cons hidle hwire]
    rfl
  · by_cases hother : origin = a
    · exact .inl (.inr hother)
    rcases hend with hconnected | hfinished
    · have hlookup := hconnected.lookup_of_idle hidle
      have hid : attempt.id ≠ resp.id := by
        intro hid
        rw [hid, hsender] at hlookup
        exact hother (Option.some.inj hlookup)
      refine .inl (.inl ?_)
      rw [lookup_erase_ne hid]
      exact hlookup
    · refine .inr (hfinished.next hwire ?_)
      rintro d ⟨⟩
      exact hother

end Next

/-! ### The response is passed on -/

variable {d : Delivery}

/-- The sender is put back. -/
theorem Sound.reinsert (hd : c.receiver = .holding d) :
    Sound { c with senders := c.senders.insert d.resp.id d.sender, receiver := .sending d } := by
  have hmem : d ∈ c.receiver.hand := by rw [hd]; rfl
  obtain ⟨horigin, hsender⟩ := h.routing.hand_active d hmem
  refine ⟨h.routing.reroute (fun id a ha => ?_) (suffix_refl _) (fun d' hd' => ?_) nofun,
    fun a attempt ha halive => (h.flow a attempt ha halive).imp (fun hdooms => ?_) ?_ ?_⟩
  · by_cases hid : id = d.resp.id
    · subst hid
      rw [lookup_insert] at ha
      obtain rfl := Option.some.inj ha
      exact hsender
    · rw [lookup_insert_ne hid] at ha
      exact h.routing.senders_active id a ha
  · cases hd'
    exact ⟨horigin, hsender⟩
  · rw [hd] at hdooms
    exact hdooms.elim
  · rw [transit, transit, hd]
    rfl
  · rintro (hconnected | ⟨hdone, hwired, hhand⟩)
    · refine .inl (.inl ?_)
      by_cases hid : attempt.id = d.resp.id
      · have hsame := h.routing.unique _ _ attempt.id hsender.2 hconnected.active
          (hid ▸ hsender.1) (idOf_eq ha)
        rw [hid, lookup_insert, hsame]
      · rw [lookup_insert_ne hid]
        refine hconnected.resolve_right fun hheld => hid ?_
        rw [hd] at hheld
        obtain rfl : d.sender = a := hheld
        exact Option.some.inj ((idOf_eq ha).symm.trans hsender.1)
    · rw [hd] at hhand
      exact .inr ⟨hdone, hwired, hhand⟩

omit h in
/-- The receiving task goes on with other attempts than the one it has in its hands. -/
theorem Flows.other (h : c.Flows a attempt)
    (hd : c.receiver = .holding d ∨ c.receiver = .sending d ∨
      c.receiver = .refusing d ∨ c.receiver = .removing d) (hsender : d.sender ≠ a)
    (horigin : d.origin ≠ a) (hwire : c'.wire = c.wire)
    (hsenders : c.senders.lookup attempt.id = some a → c'.senders.lookup attempt.id = some a)
    (hcarried : c'.receiver.carried a = []) (hhand : ∀ d' ∈ c'.receiver.hand, d'.origin ≠ a) :
    c'.Flows a attempt := by
  have hquiet : ¬ c.receiver.dooms a ∧ ¬ c.receiver.holds a ∧ c.receiver.carried a = [] := by
    rcases hd with hd | hd | hd | hd <;> rw [hd] <;> simp [dooms, holds, carried, hsender, horigin]
  refine h.imp (fun hdooms => absurd hdooms hquiet.1) ?_ ?_
  · rw [transit, transit, hquiet.2.2, hcarried, hwire]
  · rintro ((hlookup | hheld) | ⟨hdone, hwired, -⟩)
    · exact .inl (.inl (hsenders hlookup))
    · exact absurd hheld hquiet.2.1
    · exact .inr ⟨hdone, hwire ▸ hwired, hhand⟩

/-- The connection was closed while the receiving task had the sender. -/
theorem Sound.refuse (hd : c.receiver = .holding d) : Sound { c with receiver := .refusing d } := by
  have hmem : d ∈ c.receiver.hand := by rw [hd]; rfl
  refine ⟨h.routing.reroute h.routing.senders_active (suffix_refl _) ?_ nofun,
    fun a attempt ha halive => ?_⟩
  · rintro d' ⟨⟩
    exact h.routing.hand_active d hmem
  · by_cases hsender : d.sender = a
    · exact .inl (.inr hsender)
    have horigin := h.routing.sender_eq_origin hmem ▸ hsender
    refine (h.flow a attempt ha halive).other (.inl hd) hsender horigin rfl id rfl ?_
    rintro d' ⟨⟩
    exact horigin

omit h in
/-- What a send to a channel does. -/
theorem send_cases {sent : Bool} (h : c.send a item = some (c', sent)) :
    sent = true ∧ c' = c.update a (fun attempt => { attempt with queue := attempt.queue ++ [item] }) ∨
      sent = false ∧ c' = c ∧ ∀ attempt, c.attempts[a]? = some attempt → attempt.alive = false := by
  unfold send at h
  split at h
  · rename_i ha
    cases h
    refine .inr ⟨rfl, rfl, fun attempt hattempt => ?_⟩
    rw [ha] at hattempt
    cases hattempt
  · rename_i attempt ha
    split_ifs at h with hdead
    · cases h
      refine .inr ⟨rfl, rfl, fun attempt' hattempt => ?_⟩
      cases ha.symm.trans hattempt
      exact hdead
    · cases h
      exact .inl ⟨rfl, rfl⟩

omit h in
theorem Routing.push (h : Routing c) (a : Nat) (item : Except MapError (List MapResult)) :
    Routing (c.update a fun attempt => { attempt with queue := attempt.queue ++ [item] }) :=
  h.update fun _ _ => ⟨rfl, fun h => h, fun h => h, fun h => h⟩

/-- The results arrive in the queue of the attempt that was answered. -/
theorem Sound.sent (hd : c.receiver = .sending d) : Sound { c.update d.sender (fun attempt =>
      { attempt with queue := attempt.queue ++ [.ok d.resp.results] }) with receiver := .idle } := by
  have hmem : d ∈ c.receiver.hand := by rw [hd]; rfl
  have hpushed := h.routing.push d.sender (.ok d.resp.results)
  refine ⟨hpushed.reroute hpushed.senders_active (suffix_refl _) (by rintro _ ⟨⟩) (by simp),
    fun a new hnew halive => ?_⟩
  obtain ⟨old, hold, heq⟩ := getElem?_update.mp hnew
  have hsame := h.routing.sender_eq_origin hmem
  split_ifs at heq with hsender
  · subst heq
    rcases h.flow a old hold halive with (⟨e, he⟩ | hdooms) | ⟨hcomplete, hend⟩
    · exact .inl (.inl ⟨e, mem_append_left _ he⟩)
    · rw [hd] at hdooms
      exact hdooms.elim
    · refine .inr ⟨?_, ?_⟩
      · rw [Complete, transit, hd] at hcomplete
        rw [Complete, hcomplete, transit]
        simp [carried, queued, Connection.update, ← hsame, hsender]
      · rcases hend with (hlookup | hheld) | ⟨-, -, hhand⟩
        · exact .inl (.inl hlookup)
        · rw [hd] at hheld
          exact hheld.elim
        · exact absurd (hsame.symm.trans hsender) (hhand d hmem)
  · subst heq
    exact (h.flow a new hold halive).other (.inr (.inl hd)) hsender (hsame ▸ hsender) rfl
      id rfl (by rintro _ ⟨⟩)

/-- The task has dropped the receiving end. -/
theorem Sound.unsent (hd : c.receiver = .sending d)
    (hdead : ∀ attempt, c.attempts[d.sender]? = some attempt → attempt.alive = false) :
    Sound { c with receiver := .removing d } := by
  have hmem : d ∈ c.receiver.hand := by rw [hd]; rfl
  refine ⟨h.routing.reroute h.routing.senders_active (suffix_refl _) ?_ ?_,
    fun a attempt ha halive => ?_⟩
  · rintro d' ⟨⟩
    exact h.routing.hand_active d hmem
  · rintro d' ⟨⟩
    exact hdead
  · have hsender : d.sender ≠ a := by
      rintro rfl
      rw [hdead attempt ha] at halive
      cases halive
    have horigin := h.routing.sender_eq_origin hmem ▸ hsender
    refine (h.flow a attempt ha halive).other (.inr (.inl hd)) hsender horigin rfl
      id rfl ?_
    rintro d' ⟨⟩
    exact horigin

/-- The sender of an attempt that is gone is taken out of the map. -/
theorem Sound.removed (hd : c.receiver = .removing d) :
    Sound { c with senders := c.senders.erase d.resp.id, receiver := .idle } := by
  have hmem : d ∈ c.receiver.hand := by rw [hd]; rfl
  refine ⟨h.routing.reroute (h.routing.senders_erase_active d.resp.id) (suffix_refl _) nofun
    nofun, fun a attempt ha halive => ?_⟩
  have hsender : d.sender ≠ a := by
    rintro rfl
    rw [h.routing.dead d hd attempt ha] at halive
    cases halive
  refine (h.flow a attempt ha halive).other (.inr (.inr (.inr hd))) hsender
    (h.routing.sender_eq_origin hmem ▸ hsender) rfl (fun hlookup => ?_) rfl nofun
  have hid : attempt.id ≠ d.resp.id := by
    intro hid
    obtain ⟨-, hids, hactive⟩ := h.routing.hand_active d hmem
    exact hsender (h.routing.unique _ _ attempt.id hactive (.inl ⟨_, hlookup⟩)
      (hid ▸ hids) (idOf_eq ha))
  rw [lookup_erase_ne hid]
  exact hlookup

/-! ### Errors -/

omit h in
theorem carried_of_hand_eq_none {receiver : Receiver} (h : receiver.hand = none) (a : Nat) :
    receiver.carried a = [] := by
  cases receiver <;> first | rfl | cases h

omit h in
/-- The receiving task has nothing in its hands, before and after. -/
theorem Flows.released (h : c.Flows a attempt)
    (hsenders : c'.senders = c.senders) (hwire : c'.wire = c.wire) (hhand : c'.receiver.hand = none)
    (hcarried : c.receiver.carried a = []) (hholds : ¬ c.receiver.holds a)
    (hdooms : c.receiver.dooms a → c'.receiver.dooms a) : c'.Flows a attempt := by
  refine h.imp hdooms ?_ ?_
  · rw [transit, transit, hcarried, carried_of_hand_eq_none hhand, hwire]
  · rintro ((hlookup | hheld) | ⟨hdone, hwired, -⟩)
    · exact .inl (.inl (hsenders ▸ hlookup))
    · exact absurd hheld hholds
    · refine .inr ⟨hdone, hwire ▸ hwired, ?_⟩
      rw [hhand]
      exact nofun

/-- One attempt is told about an error, or its receiving end is gone. -/
theorem Sound.told {sent : Bool} (hsend : c.send a (.error e) = some (c', sent))
    {receiver : Receiver} (hhand : receiver.hand = none) (hcarried : ∀ b, c.receiver.carried b = [])
    (hholds : ∀ b, ¬ c.receiver.holds b)
    (hdooms : ∀ b, b ≠ a → c.receiver.dooms b → receiver.dooms b) :
    Sound { c' with receiver := receiver } := by
  have hdead : ∀ d, receiver ≠ .removing d := by
    rintro d rfl
    cases hhand
  rcases send_cases hsend with ⟨-, rfl⟩ | ⟨-, rfl, hgone⟩
  · have hpushed := h.routing.push a (.error e)
    refine ⟨hpushed.reroute hpushed.senders_active (suffix_refl _) (by simp [hhand])
      (fun d hd => absurd hd (hdead d)), fun b new hnew halive => ?_⟩
    obtain ⟨old, hold, heq⟩ := getElem?_update.mp hnew
    split_ifs at heq with hab
    · subst heq
      exact .inl (.inl ⟨e, mem_append_right _ (mem_singleton_self _)⟩)
    · subst heq
      exact (h.flow b new hold halive).released rfl rfl hhand (hcarried b) (hholds b)
        (hdooms b (Ne.symm hab))
  · refine ⟨h.routing.reroute h.routing.senders_active (suffix_refl _) (by simp [hhand])
      (fun d hd => absurd hd (hdead d)), fun b attempt hattempt halive => ?_⟩
    refine (h.flow b attempt hattempt halive).released rfl rfl hhand (hcarried b) (hholds b)
      (hdooms b ?_)
    rintro rfl
    rw [hgone attempt hattempt] at halive
    cases halive

/-- All attempts whose senders are in the map will be told about the error. -/
theorem Sound.broadcastError (e : MapError) (order : List String) (last : Bool) :
    Sound (c.broadcastError e order last) := by
  unfold Connection.broadcastError
  split
  · rename_i hidle
    refine ⟨h.routing.reroute (fun id a ha => by cases ha) (suffix_refl _) nofun nofun,
      fun a attempt ha halive => ?_⟩
    rcases h.flow a attempt ha halive with (hqueue | hdooms) | ⟨hcomplete, hconnected | hfinished⟩
    · exact .inl (.inl hqueue)
    · rw [hidle] at hdooms
      exact hdooms.elim
    · refine .inl (.inr (mem_map.mpr ⟨⟨attempt.id, a⟩, ?_, rfl⟩))
      exact HashMap.mem_iterIn.mpr (mem_lookup_iff.mp (hconnected.lookup_of_idle hidle))
    · refine .inr ⟨?_, .inr ⟨hfinished.1, hfinished.2.1, nofun⟩⟩
      rw [Complete, hcomplete, transit, hidle]
      rfl
  · exact h

/-- The receiving task passes every response on to the attempt it answers. -/
theorem Sound.advance : Sound c.advance := by
  unfold Connection.advance
  split
  · rename_i hidle
    split
    · exact h
    · rename_i origin resp wire hwire
      split_ifs with heot
      · exact h.next_eot hwire hidle heot
      · split
        · rename_i hnone
          exact h.next_unknown hwire hidle hnone
        · rename_i sender hsender
          exact h.next_hold hwire hidle hsender
  · rename_i d hd
    split_ifs
    · exact h.refuse hd
    · exact h.reinsert hd
  · rename_i d hd
    split
    · exact h
    · rename_i c' hsend
      rcases send_cases hsend with ⟨-, rfl⟩ | ⟨hfalse, -⟩
      · exact h.sent hd
      · cases hfalse
    · rename_i c' hsend
      rcases send_cases hsend with ⟨htrue, -⟩ | ⟨-, rfl, hgone⟩
      · cases htrue
      · exact h.unsent hd hgone
  · rename_i d hd
    split
    · exact h
    · rename_i c' sent hsend
      refine h.told hsend rfl ?_ ?_ ?_
      · simp [hd, carried]
      · simp [hd, holds]
      · intro b hb hdooms
        rw [hd] at hdooms
        exact absurd hdooms.symm hb
  · rename_i d hd
    exact h.removed hd
  · rename_i e last hd
    have hhand : (if last = true then stopped else idle).hand = none := by split_ifs <;> rfl
    have hdead : ∀ d, (if last = true then stopped else idle) ≠ .removing d := by
      intro d
      split_ifs <;> exact nofun
    refine ⟨h.routing.reroute h.routing.senders_active (suffix_refl _) (by simp [hhand])
      (fun d hd => absurd hd (hdead d)), fun a attempt ha halive => ?_⟩
    refine (h.flow a attempt ha halive).released rfl rfl hhand ?_ ?_ ?_
    · simp [hd, carried]
    · simp [hd, holds]
    · simp [hd, dooms]
  · rename_i e a senders last hd
    split
    · exact h
    · rename_i c' sent hsend
      refine h.told hsend rfl ?_ ?_ ?_
      · simp [hd, carried]
      · simp [hd, holds]
      · intro b hb hdooms
        rw [hd] at hdooms
        exact (mem_cons.mp hdooms).resolve_left hb
  · exact h

end Connection
end Numaflow.Map
