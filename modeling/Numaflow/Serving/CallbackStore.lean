import Numaflow.Lib.Watch
import Numaflow.Serving.MessageGraph

/-!
# The callback store

The vertices put their callbacks into a store under the hash of the serving pod that has accepted
the request.  In each pod a central watcher receives the callbacks of the pod and sends each of
them to the channel of its request.  A request that is tried again after it has failed in some
pod gets a watcher of its own for the callbacks under the hash of that pod.

The store numbers its entries.  A watch yields the matching entries from a number on, in order and
each of them once, until it breaks.

Main results: `Watched.step`, `received_nodup`, `received_twice`.
-/

namespace Numaflow.Serving

open Lib List Option

inductive Operation where
  | put
  | delete
  | purge
deriving DecidableEq, Repr

/-- An entry of the store.  Its key consists of the hash of a pod, the request, the vertex and a
time; the value may be something that is not a callback. -/
structure CallbackEntry where
  podHash : String
  id : String
  vertexName : String
  timestamp : String
  operation : Operation := .put
  value : Option Callback
deriving DecidableEq, Repr

/-- The stream of a request, with the positions of the entries that were sent into it. -/
structure Channel where
  id : String
  received : List Nat := []
  dropped : Bool := false
deriving DecidableEq, Repr

structure HistoricalWatcher where
  podHash : String
  id : String
  channel : Nat
  watch : Watch := {}
  done : Bool := false
deriving DecidableEq, Repr

structure CallbackStore where
  entries : List CallbackEntry := []
  central : Watch := {}
  panicked : Bool := false
  senders : HashMap String Nat := ∅
  channels : List Channel := []
  historical : List HistoricalWatcher := []

inductive StoreAction where
  | put (entry : CallbackEntry)
  | registerAndWatch (id : String) (failedPodHash : Option String)
  | deregister (id : String)
  | dropReceiver (channel : Nat)
  | centralReceive
  | centralSend
  | centralBreak
  | historicalReceive (j : Nat)
  | historicalSend (j : Nat)
  | historicalBreak (j : Nat)
  | historicalStop (j : Nat)

namespace CallbackStore

variable (s : CallbackStore)

def registerAndWatch (id : String) (failedPodHash : Option String) : CallbackStore :=
  { s with
    senders := s.senders.insert id s.channels.length
    channels := s.channels ++ [{ id := id }]
    historical := s.historical ++
      match failedPodHash with
      | some podHash => [{ podHash := podHash, id := id, channel := s.channels.length }]
      | none => [] }

/-- The central watcher receives an entry.  It skips what is not put, and a value that is not a
callback makes it panic. -/
def centralReceive (podHash : String) : CallbackStore :=
  if s.panicked = true ∨ s.central.hand.isSome = true then s
  else
    match s.central.next (fun entry => entry.podHash = podHash) s.entries with
    | none => s
    | some i =>
      match s.entries[i]? with
      | none => s
      | some entry =>
        if entry.operation ≠ .put then { s with central := s.central.skip i }
        else
          match entry.value with
          | none => { s with central := s.central.skip i, panicked := true }
          | some _ => { s with central := s.central.receive i }

/-- Send an entry into a channel. -/
def send (k i : Nat) : CallbackStore :=
  { s with
    channels := s.channels.modify k fun channel =>
      { channel with received := channel.received ++ [i] } }

def receiverDropped (k : Nat) : Bool :=
  s.channels[k]?.any fun channel => channel.dropped

/-- The central watcher sends the entry that it holds to the request that is registered now.  A
receiver that is gone makes it panic. -/
def centralSend : CallbackStore :=
  match s.central.hand with
  | none => s
  | some i =>
    let released := { s with central := s.central.release }
    match s.entries[i]?.bind fun entry => s.senders.lookup entry.id with
    | none => released
    | some k =>
      if s.receiverDropped k = true then { released with panicked := true }
      else released.send k i

section

variable (j : Nat) (watcher : HistoricalWatcher)

/-- Change a watcher of a request. -/
def setHistorical : CallbackStore :=
  { s with historical := s.historical.set j watcher }

/-- A watcher of a request receives an entry.  It ends with an entry that is deleted and passes
over what is not a callback. -/
def historicalReceive : CallbackStore :=
  if watcher.done = true ∨ watcher.watch.hand.isSome = true then s
  else
    match watcher.watch.next
        (fun entry => entry.podHash = watcher.podHash && entry.id = watcher.id) s.entries with
    | none => s
    | some i =>
      match s.entries[i]? with
      | none => s
      | some entry =>
        if entry.operation = .delete then
          s.setHistorical j { watcher with watch := watcher.watch.skip i, done := true }
        else
          match entry.value with
          | none => s.setHistorical j { watcher with watch := watcher.watch.skip i }
          | some _ => s.setHistorical j { watcher with watch := watcher.watch.receive i }

/-- A watcher of a request sends the entry that it holds; it ends when the receiver is gone. -/
def historicalSend : CallbackStore :=
  match watcher.watch.hand with
  | none => s
  | some i =>
    let released := { watcher with watch := watcher.watch.release }
    if s.receiverDropped watcher.channel = true then
      s.setHistorical j { released with done := true }
    else (s.setHistorical j released).send watcher.channel i

end

/-- A step of a watcher of a request. -/
def withHistorical (j : Nat) (f : HistoricalWatcher → CallbackStore) : CallbackStore :=
  match s.historical[j]? with
  | none => s
  | some watcher => f watcher

def step (podHash : String) (s : CallbackStore) : StoreAction → CallbackStore
  | .put entry => { s with entries := s.entries ++ [entry] }
  | .registerAndWatch id failedPodHash => s.registerAndWatch id failedPodHash
  | .deregister id => { s with senders := s.senders.erase id }
  | .dropReceiver k =>
    { s with channels := s.channels.modify k fun channel => { channel with dropped := true } }
  | .centralReceive => s.centralReceive podHash
  | .centralSend => s.centralSend
  | .centralBreak => { s with central := s.central.rewind }
  | .historicalReceive j => s.withHistorical j (s.historicalReceive j)
  | .historicalSend j => s.withHistorical j (s.historicalSend j)
  | .historicalBreak j =>
    s.withHistorical j fun watcher =>
      s.setHistorical j { watcher with watch := watcher.watch.rewind }
  | .historicalStop j =>
    s.withHistorical j fun watcher => s.setHistorical j { watcher with done := true }

end CallbackStore

/-! ## What a step can do -/

/-- The entry at a position is a callback of a pod. -/
def Holds (entries : List CallbackEntry) (podHash : String) (i : Nat) : Prop :=
  entries[i]?.map CallbackEntry.podHash = some podHash

inductive StoreStep (podHash : String) (s : CallbackStore) : StoreAction → CallbackStore → Prop where
  | idle (action : StoreAction) : StoreStep podHash s action s
  | put (entry : CallbackEntry) :
      StoreStep podHash s (.put entry) { s with entries := s.entries ++ [entry] }
  | register (id : String) (failedPodHash : Option String) :
      StoreStep podHash s (.registerAndWatch id failedPodHash) (s.registerAndWatch id failedPodHash)
  | deregister {action : StoreAction} (senders : HashMap String Nat) :
      StoreStep podHash s action { s with senders := senders }
  | drop (k : Nat) : StoreStep podHash s (.dropReceiver k)
        { s with channels := s.channels.modify k fun channel => { channel with dropped := true } }
  | central {watch : Watch} {action : StoreAction}
      (panicked : Bool) (hmoves : Watch.Moves (Holds s.entries podHash) s.central watch) :
      StoreStep podHash s action { s with central := watch, panicked := panicked }
  | centralSend {i : Nat} {action : StoreAction} (k : Nat) (hhand : s.central.hand = some i) :
      StoreStep podHash s action (CallbackStore.send { s with central := s.central.release } k i)
  | historical {j : Nat} {watcher : HistoricalWatcher} {watch : Watch} {action : StoreAction}
      (done : Bool) (hwatcher : s.historical[j]? = some watcher)
      (hmoves : Watch.Moves (Holds s.entries watcher.podHash) watcher.watch watch) :
      StoreStep podHash s action (s.setHistorical j { watcher with watch := watch, done := done })
  | historicalSend {j : Nat} {watcher : HistoricalWatcher} {i : Nat} {action : StoreAction}
      (hwatcher : s.historical[j]? = some watcher) (hhand : watcher.watch.hand = some i) :
      StoreStep podHash s action
        ((s.setHistorical j { watcher with watch := watcher.watch.release }).send
          watcher.channel i)

open CallbackStore

variable {action : StoreAction}

section

variable {podHash : String} {s : CallbackStore} {p : CallbackEntry → Bool} {i : Nat}
  {f : HistoricalWatcher → CallbackStore}

theorem holds_of_next {w : Watch} {hash : String} (h : w.next p s.entries = some i)
    (hp : ∀ entry, p entry = true → entry.podHash = hash) :
    w.position ≤ i ∧ Holds s.entries hash i := by
  obtain ⟨hposition, entry, hentry, hmatch⟩ := Watch.next_spec h
  refine ⟨hposition, ?_⟩
  rw [Holds, hentry, map_some, hp entry hmatch]

theorem step_centralReceive (action : StoreAction) :
    StoreStep podHash s action (s.centralReceive podHash) := by
  unfold centralReceive
  split_ifs with hbusy
  · exact .idle _
  · rw [not_or, not_isSome_iff_eq_none] at hbusy
    split
    · exact .idle _
    · rename_i i hnext
      obtain ⟨hposition, hholds⟩ := holds_of_next hnext fun _ => of_decide_eq_true
      split
      · exact .idle _
      · split_ifs
        · exact .central _ (.skip hbusy.2 hposition)
        · split
          · exact .central _ (.skip hbusy.2 hposition)
          · exact .central _ (.receive hposition hholds)

theorem step_centralSend (action : StoreAction) : StoreStep podHash s action s.centralSend := by
  unfold centralSend
  split
  · exact .idle _
  · rename_i i hhand
    split
    · exact .central _ .release
    · split_ifs
      · exact .central _ .release
      · exact .centralSend _ hhand

variable {j : Nat} {watcher : HistoricalWatcher}

theorem step_historicalReceive (hwatcher : s.historical[j]? = some watcher) (action : StoreAction) :
    StoreStep podHash s action (s.historicalReceive j watcher) := by
  unfold historicalReceive
  split_ifs with hbusy
  · exact .idle _
  · rw [not_or, not_isSome_iff_eq_none] at hbusy
    split
    · exact .idle _
    · rename_i i hnext
      obtain ⟨hposition, hholds⟩ := holds_of_next hnext fun _ hmatch =>
        of_decide_eq_true (Bool.and_eq_true_iff.mp hmatch).1
      split
      · exact .idle _
      · split_ifs
        · exact .historical _ hwatcher (.skip hbusy.2 hposition)
        · split
          · exact .historical _ hwatcher (.skip hbusy.2 hposition)
          · exact .historical _ hwatcher (.receive hposition hholds)

theorem step_historicalSend (hwatcher : s.historical[j]? = some watcher) (action : StoreAction) :
    StoreStep podHash s action (s.historicalSend j watcher) := by
  unfold historicalSend
  split
  · exact .idle _
  · rename_i i hhand
    dsimp only
    split_ifs
    · exact .historical _ hwatcher .release
    · exact .historicalSend hwatcher hhand

theorem step_withHistorical
    (hf : ∀ watcher, s.historical[j]? = some watcher → StoreStep podHash s action (f watcher)) :
    StoreStep podHash s action (s.withHistorical j f) := by
  unfold withHistorical
  split
  · exact .idle _
  · rename_i watcher hwatcher
    exact hf watcher hwatcher

theorem storeStep_spec (podHash : String) (s : CallbackStore) (action : StoreAction) :
    StoreStep podHash s action (s.step podHash action) := by
  cases action with
  | put entry => exact .put entry
  | registerAndWatch id failedPodHash => exact .register id failedPodHash
  | deregister => exact .deregister _
  | dropReceiver k => exact .drop k
  | centralReceive => exact step_centralReceive _
  | centralSend => exact step_centralSend _
  | centralBreak => exact .central _ .rewind
  | historicalReceive =>
    exact step_withHistorical fun _ hwatcher => step_historicalReceive hwatcher _
  | historicalSend => exact step_withHistorical fun _ hwatcher => step_historicalSend hwatcher _
  | historicalBreak => exact step_withHistorical fun _ hwatcher => .historical _ hwatcher .rewind
  | historicalStop =>
    exact step_withHistorical fun _ hwatcher =>
      .historical _ hwatcher ⟨fun h => h, fun _ _ h => h, fun _ h => .inl h⟩

end

/-! ## Runs -/

/-- A watcher of a request watches another pod, for a channel. -/
structure HistoricalOk (podHash : String) (s : CallbackStore) (watcher : HistoricalWatcher) :
    Prop where
  ok : watcher.watch.Ok
  hand : ∀ i, watcher.watch.hand = some i → Holds s.entries watcher.podHash i
  other : watcher.podHash ≠ podHash
  channel : watcher.channel < s.channels.length

/-- One of the watchers that send into a channel is done with an entry. -/
def Behind (podHash : String) (s : CallbackStore) (k i : Nat) : Prop :=
  Holds s.entries podHash i ∧ s.central.Past i ∨
    ∃ (j : Nat) (watcher : HistoricalWatcher),
      s.historical[j]? = some watcher ∧ watcher.channel = k ∧
      Holds s.entries watcher.podHash i ∧ watcher.watch.Past i

/-- The entries of a channel are different, and its watchers are done with them. -/
structure Watched (podHash : String) (s : CallbackStore) : Prop where
  central : s.central.Ok
  centralHand : ∀ i, s.central.hand = some i → Holds s.entries podHash i
  historical : ∀ (j : Nat) (watcher : HistoricalWatcher), s.historical[j]? = some watcher →
    HistoricalOk podHash s watcher
  distinct : ∀ (j j' : Nat) (watcher watcher' : HistoricalWatcher),
    s.historical[j]? = some watcher → s.historical[j']? = some watcher' →
      watcher.channel = watcher'.channel → j = j'
  nodup : ∀ channel ∈ s.channels, channel.received.Nodup
  behind : ∀ (k : Nat) (channel : Channel), s.channels[k]? = some channel →
    ∀ i ∈ channel.received, Behind podHash s k i

section

variable {podHash : String} {s : CallbackStore} {entries : List CallbackEntry} {i j : Nat}
  {failedPodHash : Option String} {watcher : HistoricalWatcher}

theorem Holds.append {hash : String} (h : Holds entries hash i) (entry : CallbackEntry) :
    Holds (entries ++ [entry]) hash i := by
  obtain ⟨found, hfound, hhash⟩ := map_eq_some_iff.mp h
  rw [Holds, List.getElem?_append_left (List.getElem?_eq_some_iff.mp hfound).1, hfound]
  exact congrArg some hhash

theorem Holds.eq {hash hash' : String} (h : Holds entries hash i) (h' : Holds entries hash' i) :
    hash = hash' :=
  some.inj (h.symm.trans h')

variable (h : Watched podHash s)

include h

theorem Watched.put (entry : CallbackEntry) :
    Watched podHash { s with entries := s.entries ++ [entry] } where
  central := h.central
  centralHand i hi := (h.centralHand i hi).append entry
  historical j watcher hwatcher :=
    have hok := h.historical j watcher hwatcher
    ⟨hok.ok, fun i hi => (hok.hand i hi).append entry, hok.other, hok.channel⟩
  distinct := h.distinct
  nodup := h.nodup
  behind k channel hchannel i hi := by
    rcases h.behind k channel hchannel i hi with ⟨hholds, hpast⟩ | ⟨j, w, hw, hk, hholds, hpast⟩
    · exact .inl ⟨hholds.append entry, hpast⟩
    · exact .inr ⟨j, w, hw, hk, hholds.append entry, hpast⟩

omit h in
/-- The watchers after a registration are the old ones and one for the new channel. -/
theorem registerAndWatch_cases {id : String}
    (hwatcher : (s.registerAndWatch id failedPodHash).historical[j]? = some watcher) :
    s.historical[j]? = some watcher ∨
      j = s.historical.length ∧ failedPodHash = some watcher.podHash ∧
        watcher.channel = s.channels.length ∧ watcher.watch = {} := by
  cases failedPodHash with
  | none =>
    change (s.historical ++ [])[j]? = some watcher at hwatcher
    rw [append_nil] at hwatcher
    exact .inl hwatcher
  | some =>
    rcases getElem?_append_singleton_cases hwatcher with hold | ⟨hj, rfl⟩
    · exact .inl hold
    · exact .inr ⟨hj, rfl, rfl, rfl⟩

omit h in
theorem registerAndWatch_kept (id : String) (failedPodHash : Option String)
    (hwatcher : s.historical[j]? = some watcher) :
    (s.registerAndWatch id failedPodHash).historical[j]? = some watcher := by
  change (s.historical ++ _)[j]? = some watcher
  rw [List.getElem?_append_left (List.getElem?_eq_some_iff.mp hwatcher).1, hwatcher]

/-- A new request starts with an empty channel, and with a new watcher for another pod. -/
theorem Watched.register (id : String) (hother : failedPodHash ≠ some podHash) :
    Watched podHash (s.registerAndWatch id failedPodHash) := by
  have hchannels : (s.registerAndWatch id failedPodHash).channels = s.channels ++ [{ id := id }] :=
    rfl
  constructor
  · exact h.central
  · exact h.centralHand
  · intro j watcher hwatcher
    have hlength : (s.registerAndWatch id failedPodHash).channels.length = s.channels.length + 1 := by
      rw [hchannels, length_append, length_singleton]
    rcases registerAndWatch_cases hwatcher with hold | ⟨-, hfailed, hchannel, hwatch⟩
    · have hok := h.historical j watcher hold
      exact ⟨hok.ok, hok.hand, hok.other, by rw [hlength]; exact Nat.lt_succ_of_lt hok.channel⟩
    · refine ⟨?_, ?_, ?_, ?_⟩
      · rw [hwatch]
        exact Watch.Ok.new
      · rw [hwatch]
        exact fun _ hi => by cases hi
      · rintro rfl
        exact hother hfailed
      · rw [hlength, hchannel]
        exact Nat.lt_succ_self _
  · intro j j' watcher watcher' hwatcher hwatcher' hsame
    rcases registerAndWatch_cases hwatcher with hold | ⟨hj, -, hchannel, -⟩
    · rcases registerAndWatch_cases hwatcher' with hold' | ⟨-, -, hchannel', -⟩
      · exact h.distinct j j' watcher watcher' hold hold' hsame
      · have hlt := (h.historical j watcher hold).channel
        omega
    · rcases registerAndWatch_cases hwatcher' with hold' | ⟨hj', -, -, -⟩
      · have hlt := (h.historical j' watcher' hold').channel
        omega
      · rw [hj, hj']
  · exact forall_mem_concat.mpr ⟨h.nodup, nodup_nil⟩
  · intro k channel hchannel i hi
    rcases getElem?_append_singleton_cases hchannel with hold | ⟨-, rfl⟩
    · rcases h.behind k channel hold i hi with hcentral | ⟨j, w, hw, hrest⟩
      · exact .inl hcentral
      · exact .inr ⟨j, w, registerAndWatch_kept id failedPodHash hw, hrest⟩
    · cases hi

variable {watch : Watch} {old : HistoricalWatcher} {k : Nat}

/-- The central watcher moves. -/
theorem Watched.central_moves (panicked : Bool)
    (hmoves : Watch.Moves (Holds s.entries podHash) s.central watch) :
    Watched podHash { s with central := watch, panicked := panicked } where
  central := hmoves.ok h.central
  centralHand i hi := (hmoves.hand i hi).elim (h.centralHand i) fun hholds => hholds
  historical j watcher hwatcher :=
    have hok := h.historical j watcher hwatcher
    ⟨hok.ok, hok.hand, hok.other, hok.channel⟩
  distinct := h.distinct
  nodup := h.nodup
  behind k channel hchannel i hi :=
    (h.behind k channel hchannel i hi).imp
      (fun hbehind => ⟨hbehind.1, hmoves.past h.central i hbehind.2⟩) fun hbehind => hbehind

omit h in
theorem setHistorical_self (new : HistoricalWatcher) (hold : s.historical[j]? = some old) :
    (s.setHistorical j new).historical[j]? = some new := by
  change (s.historical.set j new)[j]? = some new
  rw [List.getElem?_set_self (List.getElem?_eq_some_iff.mp hold).1]

/-- A watcher of a request moves. -/
theorem Watched.historical_moves (done : Bool) (hwatcher : s.historical[j]? = some watcher)
    (hmoves : Watch.Moves (Holds s.entries watcher.podHash) watcher.watch watch) :
    Watched podHash (s.setHistorical j { watcher with watch := watch, done := done }) := by
  have hok := h.historical j watcher hwatcher
  -- every watcher stands for an old one with the same channel
  have hcases : ∀ (j' : Nat) (w : HistoricalWatcher),
      (s.historical.set j { watcher with watch := watch, done := done })[j']? = some w →
        ∃ w', s.historical[j']? = some w' ∧ w.channel = w'.channel := by
    intro j' w hw
    rcases getElem?_set_cases hw with ⟨rfl, rfl⟩ | ⟨-, hold⟩
    · exact ⟨watcher, hwatcher, rfl⟩
    · exact ⟨w, hold, rfl⟩
  constructor
  · exact h.central
  · exact h.centralHand
  · intro j' w hw
    rcases getElem?_set_cases hw with ⟨rfl, rfl⟩ | ⟨-, hold⟩
    · refine ⟨hmoves.ok hok.ok, fun i hi => ?_, hok.other, hok.channel⟩
      exact (hmoves.hand i hi).elim (hok.hand i) fun hholds => hholds
    · have hother := h.historical j' w hold
      exact ⟨hother.ok, hother.hand, hother.other, hother.channel⟩
  · intro j₁ j₂ w₁ w₂ hw₁ hw₂ hsame
    obtain ⟨w₁', hold₁, hchannel₁⟩ := hcases j₁ w₁ hw₁
    obtain ⟨w₂', hold₂, hchannel₂⟩ := hcases j₂ w₂ hw₂
    exact h.distinct j₁ j₂ w₁' w₂' hold₁ hold₂ (by rw [← hchannel₁, hsame, hchannel₂])
  · exact h.nodup
  · intro k channel hchannel i hi
    rcases h.behind k channel hchannel i hi with hcentral | ⟨j', w, hw, hk, hholds, hpast⟩
    · exact .inl hcentral
    · by_cases hj : j' = j
      · subst hj
        cases hwatcher.symm.trans hw
        exact .inr ⟨j', _, setHistorical_self _ hwatcher, hk, hholds, hmoves.past hok.ok i hpast⟩
      · refine .inr ⟨j', w, ?_, hk, hholds, hpast⟩
        change (s.historical.set j _)[j']? = some w
        rw [getElem?_set_ne (Ne.symm hj), hw]

/-- The channels change; what they have received lies behind a watcher. -/
theorem Watched.of_channels {channels : List Channel}
    (hlength : channels.length = s.channels.length)
    (hreceived : ∀ (k : Nat) (channel : Channel), channels[k]? = some channel →
      channel.received.Nodup ∧ ∀ i ∈ channel.received, Behind podHash s k i) :
    Watched podHash { s with channels := channels } where
  central := h.central
  centralHand := h.centralHand
  historical j watcher hwatcher :=
    have hok := h.historical j watcher hwatcher
    ⟨hok.ok, hok.hand, hok.other, hok.channel.trans_eq hlength.symm⟩
  distinct := h.distinct
  nodup channel hmem := by
    obtain ⟨k, hk⟩ := getElem?_of_mem hmem
    exact (hreceived k channel hk).1
  behind k channel hk := (hreceived k channel hk).2

/-- A watcher sends an entry that is behind it now and was not before. -/
theorem Watched.send (hbehind : Behind podHash s k i)
    (hnew : ∀ channel, s.channels[k]? = some channel → i ∉ channel.received) :
    Watched podHash (s.send k i) := by
  refine h.of_channels (length_modify ..) fun k' channel hchannel => ?_
  rw [getElem?_modify] at hchannel
  obtain ⟨old, hold, rfl⟩ := map_eq_some_iff.mp hchannel
  have hnodup := h.nodup old (mem_of_getElem? hold)
  split_ifs with heq
  · subst heq
    constructor
    · exact nodup_append.mpr ⟨hnodup, nodup_singleton i, fun a ha b hb =>
        fun hab => hnew old hold (by rwa [← mem_singleton.mp hb, ← hab])⟩
    · exact forall_mem_concat.mpr ⟨h.behind k old hold, hbehind⟩
  · exact ⟨hnodup, h.behind k' old hold⟩

/-- The central watcher sends what it holds. -/
theorem Watched.centralSend (k : Nat) (hhand : s.central.hand = some i) :
    Watched podHash (CallbackStore.send { s with central := s.central.release } k i) := by
  have hholds := h.centralHand i hhand
  refine (h.central_moves s.panicked .release).send
    (.inl ⟨hholds, h.central.past_release hhand⟩) fun channel hchannel hmem => ?_
  rcases h.behind k channel hchannel i hmem with ⟨-, hpast⟩ | ⟨j, w, hw, -, hother, -⟩
  · exact hpast.2 hhand
  · exact (h.historical j w hw).other (hother.eq hholds)

/-- A watcher of a request sends what it holds. -/
theorem Watched.historicalSend (hwatcher : s.historical[j]? = some watcher)
    (hhand : watcher.watch.hand = some i) :
    Watched podHash ((s.setHistorical j { watcher with watch := watcher.watch.release }).send
      watcher.channel i) := by
  have hok := h.historical j watcher hwatcher
  have hholds := hok.hand i hhand
  refine (h.historical_moves watcher.done hwatcher .release).send
    (.inr ⟨j, _, setHistorical_self _ hwatcher, rfl, hholds, hok.ok.past_release hhand⟩)
    fun channel hchannel hmem => ?_
  rcases h.behind watcher.channel channel hchannel i hmem with
    ⟨hcentral, -⟩ | ⟨j', w, hw, hk, -, hpast⟩
  · exact hok.other (hholds.eq hcentral)
  · obtain rfl := h.distinct j' j w watcher hw hwatcher hk
    cases hwatcher.symm.trans hw
    exact hpast.2 hhand

theorem Watched.drop (k : Nat) : Watched podHash
      { s with channels := s.channels.modify k fun channel => { channel with dropped := true } } := by
  refine h.of_channels (length_modify ..) fun k' channel hchannel => ?_
  rw [getElem?_modify] at hchannel
  obtain ⟨old, hold, rfl⟩ := map_eq_some_iff.mp hchannel
  have hreceived := And.intro (h.nodup old (mem_of_getElem? hold)) (h.behind k' old hold)
  split_ifs
  · exact hreceived
  · exact hreceived

/-- A request that is tried again has failed in another pod. -/
def Elsewhere (podHash : String) (_ : CallbackStore) (action : StoreAction) : Prop :=
  ∀ id, action ≠ .registerAndWatch id (some podHash)

/-- A channel has only entries that its watchers are done with. -/
theorem Watched.step (hother : Elsewhere podHash s action) :
    Watched podHash (s.step podHash action) := by
  have hstep := storeStep_spec podHash s action
  generalize s.step podHash action = s' at hstep
  cases hstep with
  | idle => exact h
  | put entry => exact h.put entry
  | register id => exact h.register id fun heq => hother id (by rw [heq])
  | deregister =>
    exact ⟨h.central, h.centralHand, fun j watcher hwatcher =>
      have hok := h.historical j watcher hwatcher
      ⟨hok.ok, hok.hand, hok.other, hok.channel⟩, h.distinct, h.nodup, h.behind⟩
  | drop k => exact h.drop k
  | central panicked hmoves => exact h.central_moves panicked hmoves
  | centralSend k hhand => exact h.centralSend k hhand
  | historical done hwatcher hmoves => exact h.historical_moves done hwatcher hmoves
  | historicalSend hwatcher hhand => exact h.historicalSend hwatcher hhand

omit h in
theorem Watched.new (podHash : String) : Watched podHash {} where
  central := Watch.Ok.new
  centralHand _ h := by cases h
  historical _ _ h := by cases h
  distinct _ _ _ _ h := by cases h
  nodup := forall_mem_nil _
  behind _ _ h := by cases h

end

/-- When no request has failed in the pod that tries it again, every stream yields every entry of
the store at most once. -/
theorem received_nodup (podHash : String) (actions : List StoreAction)
    (hrun : Along (Elsewhere podHash) (CallbackStore.step podHash) {} actions) :
    ∀ channel ∈ (exec (CallbackStore.step podHash) {} actions).channels,
      channel.received.Nodup := by
  have hwatched : Watched podHash (exec (step podHash) {} actions) :=
    exec_invariant (I := Watched podHash) (fun _ _ h hok => h.step hok) (Watched.new podHash) hrun
  exact hwatched.nodup

/-- A callback for a request. -/
def callbackEntry (podHash vertexName : String) : CallbackEntry where
  podHash := podHash
  id := "a"
  vertexName := vertexName
  timestamp := "1"
  value := some { id := "a", vertex := vertexName, fromVertex := "", responses := [] }

/-- A request that has failed in another pod is tried again; both watchers break and go on. -/
theorem received_nodup_other : let actions : List StoreAction :=
      [.put (callbackEntry "p" "in"), .registerAndWatch "a" (some "p"),
        .put (callbackEntry "q" "out"), .centralReceive, .centralSend, .historicalReceive 0,
        .historicalBreak 0, .historicalSend 0, .centralBreak, .put (callbackEntry "p" "out"),
        .centralReceive, .historicalReceive 0, .historicalSend 0]
    let s := exec (step "q") {} actions
    s.channels.map (fun channel => channel.received) = [[1, 0, 2]] ∧
      ∀ channel ∈ s.channels, channel.received.Nodup := by
  refine ⟨by decide, received_nodup "q" _ ?_⟩
  simp [Elsewhere]

/-- A request that has failed in the pod that tries it again gets every new callback twice, from
the central watcher and from its own. -/
theorem received_twice : let actions : List StoreAction :=
      [.registerAndWatch "a" (some "q"), .put (callbackEntry "q" "in"), .centralReceive,
        .centralSend, .historicalReceive 0, .historicalSend 0]
    (exec (step "q") {} actions).channels.map (fun channel => channel.received) =
      [[0, 0]] := by
  decide

end Numaflow.Serving
