import JudgeServer.Network.Requests

/-!
# The bytes sent on a connection

Per connection, what the socket has taken is a beginning of the frames of the responses
appended, in the order of appending. `unconsumed` counts what the socket has taken and
`consume_pending_response` has not yet been told of.
-/

namespace JudgeServer.Network

open JudgeServer.Common
open JudgeServer.Dispatch
open JudgeServer.Lib.Framing
open JudgeServer.Lib.Interleave
open JudgeServer.Pipeline
open JudgeServer.Protocol

def Event.bodyOn (conn : Nat) : Event → Option Bytes
  | .appended c message => if c = conn then some message.body else none
  | _ => none

def Event.sentOn (conn : Nat) : Event → Bytes
  | .sent c data => if c = conn then data else []
  | _ => []

theorem Event.sentOn_self (conn : Nat) (data : Bytes) : (Event.sent conn data).sentOn conn = data :=
  if_pos rfl

/-- The responses appended for a connection. -/
def appendedOn (conn : Nat) (trace : List Event) : List Bytes :=
  trace.filterMap (Event.bodyOn conn)

/-- The bytes its socket has taken. -/
def sentOn (conn : Nat) (trace : List Event) : Bytes := trace.flatMap (Event.sentOn conn)

theorem appendedOn_snoc (conn : Nat) (trace : List Event) (e : Event) :
    appendedOn conn (trace ++ [e]) = appendedOn conn trace ++ (e.bodyOn conn).toList := by
  simp only [appendedOn, List.filterMap_append, List.filterMap_cons, List.filterMap_nil]
  cases e.bodyOn conn <;> rfl

theorem sentOn_snoc (conn : Nat) (trace : List Event) (e : Event) :
    sentOn conn (trace ++ [e]) = sentOn conn trace ++ e.sentOn conn := by
  simp [sentOn]

variable {cfg : CleanupConfig} {n : Nat} {parse : JsonParse}

/-- The output of one connection, given what is still unsent in its slot and how much of
that the socket has already taken. -/
structure OutputOf (conn : Nat) (trace : List Event) (x : Bytes × Nat) : Prop where
  taken_le : x.2 ≤ x.1.length
  stream : ∃ done, frames (appendedOn conn trace) = done ++ x.1 ∧
    sentOn conn trace = done ++ x.1.take x.2

theorem OutputOf.sent_isPrefix {conn : Nat} {trace : List Event} {x : Bytes × Nat}
    (h : OutputOf conn trace x) : sentOn conn trace <+: frames (appendedOn conn trace) := by
  obtain ⟨done, happ, hsent⟩ := h.stream
  rw [happ, hsent]
  exact (List.prefix_append_right_inj done).mpr (List.take_prefix _ _)

theorem outputOf_fresh {c : Nat} {trace : List Event} (h : ∀ e ∈ trace, e.conn ≠ c) :
    OutputOf c trace ([], 0) := by
  have happ : appendedOn c trace = [] := by
    unfold appendedOn
    rw [List.filterMap_eq_nil_iff]
    intro e he
    cases e with
    | appended d message => exact if_neg (h _ he)
    | _ => rfl
  have hsent : sentOn c trace = [] := by
    unfold sentOn
    rw [List.flatMap_eq_nil_iff]
    intro e he
    cases e with
    | sent d data => exact if_neg (h _ he)
    | _ => rfl
  refine ⟨Nat.le_refl 0, [], ?_, ?_⟩
  · rw [happ]
    rfl
  · rw [hsent]
    rfl

section Steps

variable {c : Nat} {trace : List Event} {unsent : Bytes} {taken : Nat}

theorem OutputOf.snoc {x : Bytes × Nat} (h : OutputOf c trace x) {e : Event}
    (hbody : e.bodyOn c = none) (hsent : e.sentOn c = []) : OutputOf c (trace ++ [e]) x := by
  have happ : appendedOn c (trace ++ [e]) = appendedOn c trace := by
    rw [appendedOn_snoc, hbody]
    exact List.append_nil _
  refine ⟨h.taken_le, ?_⟩
  rw [happ, sentOn_snoc, hsent, List.append_nil]
  exact h.stream

/-- A response is appended behind what is unsent. -/
theorem OutputOf.appended (h : OutputOf c trace (unsent, taken)) (message : Message) :
    OutputOf c (trace ++ [.appended c message]) (unsent ++ frame message.body, taken) := by
  obtain ⟨done, happ, hsent⟩ := h.stream
  have hle : taken ≤ unsent.length := h.taken_le
  have hbody : (Event.appended c message).bodyOn c = some message.body := if_pos rfl
  refine ⟨?_, done, ?_, ?_⟩
  · show taken ≤ (unsent ++ frame message.body).length
    rw [List.length_append]
    omega
  · rw [appendedOn_snoc, hbody]
    show frames (appendedOn c trace ++ [message.body]) = _
    rw [frames_append, frames_singleton, happ, List.append_assoc]
  · rw [sentOn_snoc, hsent]
    show done ++ unsent.take taken ++ [] = done ++ (unsent ++ frame message.body).take taken
    rw [List.append_nil, List.take_append_of_le_length hle]

/-- The socket takes a beginning of what is unsent. -/
theorem OutputOf.sent (h : OutputOf c trace (unsent, 0)) {data : Bytes} (hd : data <+: unsent) :
    OutputOf c (trace ++ [.sent c data]) (unsent, data.length) := by
  obtain ⟨done, happ, hsent⟩ := h.stream
  refine ⟨hd.length_le, done, ?_, ?_⟩
  · rw [appendedOn_snoc]
    show frames (appendedOn c trace ++ []) = _
    rw [List.append_nil]
    exact happ
  · rw [sentOn_snoc, hsent, Event.sentOn_self]
    show done ++ unsent.take 0 ++ data = done ++ unsent.take data.length
    rw [List.take_zero, List.append_nil, ← List.prefix_iff_eq_take.mp hd]

/-- What the socket has taken is dropped. -/
theorem OutputOf.consumed (h : OutputOf c trace (unsent, taken)) :
    OutputOf c trace (unsent.drop taken, 0) := by
  obtain ⟨done, happ, hsent⟩ := h.stream
  refine ⟨Nat.zero_le _, done ++ unsent.take taken, ?_, ?_⟩
  · rw [happ, List.append_assoc, List.take_append_drop]
  · rw [hsent]
    exact (List.append_nil _).symm

end Steps

/-- The offset never lies behind the end of the pending output. -/
def Offsets (s : Server n) : Prop :=
  ∀ i, (s.slots i).pendingWriteOffset ≤ (s.slots i).pendingResponse.length

/-- The output of every connection is in order. -/
def Flowing (s : Server n) : Prop :=
  PerConnection (fun s i => ((s.slots i).unsent, s.unconsumed i)) OutputOf s

theorem queueResponse_unsent {slot : ConnectionSlot} (response : Bytes)
    (h : slot.pendingWriteOffset ≤ slot.pendingResponse.length) :
    (slot.queueResponseLocked response).unsent = slot.unsent ++ frame response :=
  List.drop_append_of_le_length h

theorem consume_unsent (slot : ConnectionSlot) (bytes : Nat) :
    (slot.consumePendingResponse bytes).2.unsent = slot.unsent.drop bytes := by
  unfold ConnectionSlot.consumePendingResponse
  split
  · next hle =>
    have hall : slot.unsent.drop bytes = [] := by
      apply List.drop_of_length_le
      unfold ConnectionSlot.unsent
      rw [List.length_drop]
      omega
    rw [hall]
    rfl
  · show slot.pendingResponse.drop (slot.pendingWriteOffset + bytes) = _
    rw [ConnectionSlot.unsent, List.drop_drop]

theorem consume_offset (slot : ConnectionSlot) (bytes : Nat) :
    (slot.consumePendingResponse bytes).2.pendingWriteOffset ≤
      (slot.consumePendingResponse bytes).2.pendingResponse.length := by
  unfold ConnectionSlot.consumePendingResponse
  split
  · exact Nat.le_refl 0
  · next h => exact Nat.le_of_lt (Nat.lt_of_not_le h)

theorem Offsets.effect {o : ServerCall n} {e : ServerInput} {s s' : Server n} (h : Offsets s)
    (he : Effect o e s s') : Offsets s' := by
  have hupdate : ∀ {i : Fin n} {slot : ConnectionSlot},
      slot.pendingWriteOffset ≤ slot.pendingResponse.length → ∀ j,
        (Function.update s.slots i slot j).pendingWriteOffset ≤
          (Function.update s.slots i slot j).pendingResponse.length := by
    intro i slot hslot j
    by_cases hj : j = i
    · subst hj
      rwa [Function.update_self]
    · rw [Function.update_of_ne hj]
      exact h j
  have hqueue : ∀ (i : Fin n) (response : Bytes), (s.slots i).pendingWriteOffset ≤
      ((s.slots i).pendingResponse ++ frame response).length := by
    intro i response
    have hi := h i
    rw [List.length_append]
    omega
  cases he with
  | quiet same =>
    intro i
    rw [same.slots]
    exact h i
  | opened fd _ _ i rest free => exact hupdate (Nat.le_refl 0)
  | closed i _ _ used => exact hupdate (Nat.le_refl 0)
  | read i outcome =>
    obtain ⟨b, hb⟩ := (s.slots i).readMessage_rest outcome
    have hslot : ((s.slots i).readMessage outcome).2.pendingWriteOffset ≤
        ((s.slots i).readMessage outcome).2.pendingResponse.length := by
      rw [hb]
      exact h i
    cases outcome with
    | failed errno => exact hupdate hslot
    | bytes chunk => exact hupdate hslot
  | status i status => exact hupdate (h i)
  | consumed i bytes => exact hupdate (consume_offset _ _)
  | appended i message => exact hupdate (hqueue i message.body)
  | delivered i sessionId message => exact hupdate (hqueue i message.body)
  | turnedAway | handled | sent | marked | released | deferred | pushed | popped =>
    intro i
    show (s.slots i).pendingWriteOffset ≤ (s.slots i).pendingResponse.length
    exact h i

/-- What the calls of the write path owe. -/
def Orderly : ServerCall n → Server n → Prop
  | .send i data, s => data <+: (s.slots i).unsent ∧ s.unconsumed i = 0
  | .consumePendingResponse i bytes, s => s.unconsumed i = bytes
  | _, _ => True

theorem sent_isPrefix_of_send (data : Bytes) (outcome : SendOutcome) :
    (ConnectionSlot.send data outcome).2.1 <+: data := by
  unfold ConnectionSlot.send
  split
  · exact List.nil_prefix
  · cases outcome with
    | accepted count => exact List.take_prefix count data
    | failed errno => exact List.nil_prefix

theorem Flowing.effect {o : ServerCall n} {e : ServerInput} {s s' : Server n} (hc : Connections s)
    (hoff : Offsets s) (h : Flowing s) (he : Effect o e s s') (ho : Orderly o s) : Flowing s' := by
  have hview : ∀ {i : Fin n} {slot : ConnectionSlot} {u : Fin n → Nat} (j : Fin n), j ≠ i →
      u j = s.unconsumed j → ((Function.update s.slots i slot j).unsent, u j) =
        ((s.slots j).unsent, s.unconsumed j) := by
    intro i slot u j hj hu
    rw [Function.update_of_ne hj, hu]
  have hslot : ∀ {i : Fin n} {slot : ConnectionSlot}, slot.unsent = (s.slots i).unsent → ∀ j,
      ((Function.update s.slots i slot j).unsent, s.unconsumed j) =
        ((s.slots j).unsent, s.unconsumed j) := by
    intro i slot hs j
    rw [slot_update_eq hs]
  have happend : ∀ (i : Fin n) (message : Message) {slot : ConnectionSlot},
      slot.unsent = (s.slots i).unsent ++ frame message.body →
      Flowing ((s.setSlot i slot).record (.appended (s.conn i) message)) := by
    intro i message slot hs
    refine PerConnection.moved (i := i) hc h rfl (fun j hj => hview j hj rfl) ?_ ?_
    · intro c x _ hne hx
      exact hx.snoc (if_neg (Ne.symm hne)) rfl
    · intro _ hx
      show OutputOf _ _ ((Function.update s.slots i _ i).unsent, s.unconsumed i)
      rw [Function.update_self, hs]
      exact hx.appended message
  cases he with
  | quiet same =>
    refine PerConnection.same h same.conn (fun i => by rw [same.slots, same.unconsumed]) ?_
    intro c x _ hx
    rwa [same.trace]
  | turnedAway | marked | deferred | popped =>
    exact PerConnection.same h rfl (fun _ => rfl) fun _ _ _ hx => hx
  | opened fd _ _ i rest free =>
    refine PerConnection.handed (i := i) hc h rfl ?_ rfl ?_
    · intro j hj
      exact hview j hj (Function.update_of_ne hj _ _)
    · intro _
      refine ⟨Nat.lt_succ_self _, ?_⟩
      simp only [Function.update_self]
      apply outputOf_fresh
      intro e he hlt
      have hp := hc.past e he
      omega
  | closed i _ _ used =>
    refine PerConnection.handed (i := i) hc h rfl ?_ rfl (fun hne => absurd rfl hne)
    intro j hj
    exact hview j hj (Function.update_of_ne hj _ _)
  | read i outcome =>
    obtain ⟨b, hb⟩ := (s.slots i).readMessage_rest outcome
    have hs : ((s.slots i).readMessage outcome).2.unsent = (s.slots i).unsent := by
      rw [hb]
      rfl
    cases outcome with
    | failed errno => exact PerConnection.same h rfl (hslot hs) fun _ _ _ hx => hx
    | bytes chunk => exact PerConnection.same h rfl (hslot hs) fun _ _ _ hx => hx.snoc rfl rfl
  | status i status => exact PerConnection.same h rfl (hslot rfl) fun _ _ _ hx => hx
  | handled => exact PerConnection.same h rfl (fun _ => rfl) fun _ _ _ hx => hx.snoc rfl rfl
  | sent i data outcome _ le =>
    obtain ⟨hdata, hzero⟩ := ho
    have hp := (sent_isPrefix_of_send data outcome).trans hdata
    refine PerConnection.moved (i := i) hc h rfl ?_ ?_ ?_
    · intro j hj
      simp only [Function.update_of_ne hj]
    · intro c x _ hne hx
      exact hx.snoc rfl (if_neg (Ne.symm hne))
    · intro _ hx
      simp only [Function.update_self, hzero, Nat.zero_add]
      rw [hzero] at hx
      exact hx.sent hp
  | consumed i bytes =>
    have hbytes : s.unconsumed i = bytes := ho
    refine PerConnection.moved (i := i) hc h rfl ?_ (fun c x _ _ hx => hx) ?_
    · intro j hj
      exact hview j hj (Function.update_of_ne hj _ _)
    · intro _ hx
      show OutputOf _ _ ((Function.update s.slots i _ i).unsent, Function.update s.unconsumed i 0 i)
      rw [Function.update_self, Function.update_self, consume_unsent, ← hbytes]
      exact hx.consumed
  | appended i message => exact happend i message (queueResponse_unsent _ (hoff i))
  | delivered i sessionId message => exact happend i message (queueResponse_unsent _ (hoff i))
  | released | pushed =>
    exact PerConnection.same h rfl (fun _ => rfl) fun _ _ _ hx => hx.snoc rfl rfl

/-- The invariant of the write path. -/
structure Sound (s : Server n) : Prop where
  connections : Connections s
  offsets : Offsets s
  flowing : Flowing s

/-- The same between two write events. -/
structure BetweenWrites (s : Server n) : Prop extends Sound s where
  told : ∀ i, s.unconsumed i = 0

theorem Sound.perform {o : ServerCall n} {e : ServerInput} {s s' : Server n} {r : o.Reply}
    (h : Sound s) (ho : Orderly o s) (he : Server.perform cfg o e s = some (r, s')) : Sound s' where
  connections := h.connections.effect (perform_effect he)
  offsets := h.offsets.effect (perform_effect he)
  flowing := h.flowing.effect h.connections h.offsets (perform_effect he) ho

/-- The calls that only the write path makes. -/
def ServerCall.outputs : ServerCall n → Bool
  | .send _ _ | .consumePendingResponse _ _ => true
  | _ => false

theorem orderly_of_not_outputs {o : ServerCall n} (ho : o.outputs = false) (s : Server n) :
    Orderly o s := by
  cases o with
  | send | consumePendingResponse => cases ho
  | _ => trivial

theorem BetweenWrites.perform {o : ServerCall n} {e : ServerInput} {s s' : Server n} {r : o.Reply}
    (h : BetweenWrites s) (ho : o.outputs = false) (he : Server.perform cfg o e s = some (r, s')) :
    BetweenWrites s' := by
  refine ⟨h.toSound.perform (orderly_of_not_outputs ho s) he, ?_⟩
  have hupdate : ∀ (i j : Fin n), Function.update s.unconsumed i 0 j = 0 := by
    intro i j
    by_cases hj : j = i
    · subst hj
      exact Function.update_self _ _ _
    · rw [Function.update_of_ne hj]
      exact h.told j
  cases perform_effect he with
  | quiet same =>
    intro i
    rw [same.unconsumed]
    exact h.told i
  | opened fd _ _ i rest free => exact hupdate i
  | closed i _ _ used => exact hupdate i
  | read i outcome =>
    cases outcome with
    | failed errno => exact h.told
    | bytes chunk => exact h.told
  | sent | consumed => cases ho
  | _ => exact h.told

/-- The write path among workers that append. No call of `send` takes `2 ^ 31` bytes. -/
def outputContract (cfg : CleanupConfig) (n : Nat) : Contract (serverMachine cfg n) where
  allows o e _ := ∀ i data count, o = ServerCall.send i data → e = .send (.accepted count) →
    count < 2 ^ 31
  rely _ s s' := WorkerMove s s' ∧ Sound s'
  pre o s := Sound s ∧ Orderly o s

theorem stable_sound (o : Option (ServerCall n)) :
    Stable ((outputContract cfg n).rely o) Sound := fun _ _ _ h => h.2

theorem stable_betweenWrites (o : Option (ServerCall n)) :
    Stable ((outputContract cfg n).rely o) BetweenWrites := by
  intro s s' hs h
  refine ⟨h.2, ?_⟩
  intro i
  rw [h.1.unconsumed]
  exact hs.told i

/-- The copied bytes are still the beginning of what is unsent. -/
structure Copied (i : Fin n) (data : Bytes) (s : Server n) : Prop extends BetweenWrites s where
  copy : data <+: (s.slots i).unsent

theorem stable_copied (i : Fin n) (data : Bytes) (o : Option (ServerCall n)) :
    Stable ((outputContract cfg n).rely o) (Copied i data) := by
  intro s s' hs h
  refine ⟨stable_betweenWrites o s s' hs.toBetweenWrites h, ?_⟩
  rcases h.1.slots i with he | ⟨_, body, he⟩
  · rw [he]
    exact hs.copy
  · rw [he]
    show data <+: (((s.slots i).queueResponseLocked body).setStatus .writable).unsent
    have hq := queueResponse_unsent body (hs.offsets i)
    exact hs.copy.trans (hq ▸ List.prefix_append _ _)

/-- The socket has taken `k` bytes of slot `i`. -/
structure Taken (i : Fin n) (k : Nat) (s : Server n) : Prop extends Sound s where
  here : s.unconsumed i = k
  elsewhere : ∀ j, j ≠ i → s.unconsumed j = 0

theorem stable_taken (i : Fin n) (k : Nat) (o : Option (ServerCall n)) :
    Stable ((outputContract cfg n).rely o) (Taken i k) := by
  intro s s' hs h
  refine ⟨h.2, ?_, ?_⟩
  · rw [h.1.unconsumed]
    exact hs.here
  · intro j hj
    rw [h.1.unconsumed]
    exact hs.elsewhere j hj

theorem Taken.between {i : Fin n} {s : Server n} (h : Taken i 0 s) : BetweenWrites s := by
  refine ⟨h.toSound, ?_⟩
  intro j
  by_cases hj : j = i
  · rw [hj]
    exact h.here
  · exact h.elsewhere j hj

/-- The count `send` returns is what the socket has taken, as long as it fits an `int`. -/
theorem send_count {data : Bytes} {outcome : SendOutcome}
    (hle : ∀ count, outcome = .accepted count → count ≤ data.length)
    (hsmall : ∀ count, outcome = .accepted count → count < 2 ^ 31) :
    ((ConnectionSlot.send data outcome).1 < 0 → (ConnectionSlot.send data outcome).2.1 = []) ∧
    (0 ≤ (ConnectionSlot.send data outcome).1 →
      (ConnectionSlot.send data outcome).1.toNat = (ConnectionSlot.send data outcome).2.1.length) := by
  by_cases hsize : toInt32 data.length ≤ 0
  · have hr : ConnectionSlot.send data outcome = (0, [], none) := if_pos hsize
    rw [hr]
    exact ⟨fun _ => rfl, fun _ => rfl⟩
  · cases outcome with
    | failed errno =>
      have hr : ConnectionSlot.send data (.failed errno) = (-1, [], some errno) := if_neg hsize
      rw [hr]
      refine ⟨fun _ => rfl, ?_⟩
      intro (h : (0 : Int) ≤ -1)
      exact absurd h (by decide)
    | accepted count =>
      have hr : ConnectionSlot.send data (.accepted count) =
          (toInt32 count, data.take count, none) := if_neg hsize
      rw [hr, toInt32_of_lt (hsmall count rfl)]
      constructor
      · intro h
        exact absurd h (Int.not_lt.mpr (Int.natCast_nonneg count))
      · intro _
        show (count : Int).toNat = (data.take count).length
        rw [List.length_take, Nat.min_eq_left (hle count rfl), Int.toNat_natCast]

section WritePath

variable {s : Server n} {i : Fin n}

/-- A call outside the write path, between two write events. -/
theorem call_between {o : ServerCall n} (ho : o.outputs = false) (h : BetweenWrites s) :
    Safe (outputContract cfg n) (Ends BetweenWrites Sound) (call o : ServerM cfg n o.Reply).run s :=
  safe_last BetweenWrites (stable_betweenWrites _) h
    (fun s hs => ⟨hs.toSound, orderly_of_not_outputs ho s⟩) (stable_betweenWrites none)
    fun _ _ _ _ hs _ he => hs.perform ho he

theorem call_between_bind {α : Type} {o : ServerCall n} {f : o.Reply → ServerM cfg n α}
    (ho : o.outputs = false) (h : BetweenWrites s)
    (hf : ∀ e r s s', BetweenWrites s → BetweenWrites s' → Server.perform cfg o e s = some (r, s') →
      Safe (outputContract cfg n) (Ends BetweenWrites Sound) (f r).run s') :
    Safe (outputContract cfg n) (Ends BetweenWrites Sound) (call o >>= f).run s :=
  safe_call BetweenWrites (stable_betweenWrites _) h
    (fun s hs => ⟨hs.toSound, orderly_of_not_outputs ho s⟩)
    fun s e r s' hs _ he => hf e r s s' hs (hs.perform ho he) he

/-- After `consume_pending_response` nothing is left to be told. -/
theorem Taken.consumed {k : Nat} {r : Bool} {s' : Server n} {e : ServerInput} (h : Taken i k s)
    (he : Server.perform cfg (.consumePendingResponse i k) e s = some (r, s')) : BetweenWrites s' := by
  have hsound := h.toSound.perform (o := .consumePendingResponse i k) h.here he
  obtain ⟨_, rfl⟩ := Prod.mk.inj (Option.some.inj he)
  refine ⟨hsound, ?_⟩
  intro j
  show Function.update s.unconsumed i 0 j = 0
  by_cases hj : j = i
  · subst hj
    exact Function.update_self _ _ _
  · rw [Function.update_of_ne hj]
    exact h.elsewhere j hj

theorem afterSend_parts {sent : Int × Bytes × Option Errno} {r : Int × Errno} {s' : Server n}
    (h : s.afterSend i sent = (r, s')) :
    r.1 = sent.1 ∧
      s'.unconsumed = Function.update s.unconsumed i (s.unconsumed i + sent.2.1.length) := by
  obtain ⟨rfl, rfl⟩ := Prod.mk.inj h
  exact ⟨rfl, rfl⟩

/-- `send` leaves the count it returns in flight. -/
theorem Copied.sent {data : Bytes} {r : Int × Errno} {s' : Server n} {e : ServerInput}
    (h : Copied i data s) (hok : (outputContract cfg n).allows (.send i data) e s)
    (he : Server.perform cfg (.send i data) e s = some (r, s')) :
    (r.1 < 0 → BetweenWrites s') ∧ (0 ≤ r.1 → Taken i r.1.toNat s') := by
  have hsound := h.toSound.perform (o := .send i data) ⟨h.copy, h.told i⟩ he
  cases e with
  | send outcome =>
    obtain ⟨hle, hr, hu⟩ : (∀ count, outcome = .accepted count → count ≤ data.length) ∧
        r.1 = (ConnectionSlot.send data outcome).1 ∧
        s'.unconsumed = Function.update s.unconsumed i
          (s.unconsumed i + (ConnectionSlot.send data outcome).2.1.length) := by
      cases outcome with
      | accepted count =>
        change (if count ≤ data.length then some (s.send i data (.accepted count)) else none) = _
          at he
        split at he
        · next hle =>
          have hsent : s.send i data _ = (r, s') := Option.some.inj he
          obtain ⟨hr, hu⟩ := afterSend_parts hsent
          refine ⟨?_, hr, hu⟩
          intro k hk
          obtain rfl := SendOutcome.accepted.inj hk
          exact hle
        · cases he
      | failed errno =>
        have hsent : s.send i data _ = (r, s') := Option.some.inj he
        obtain ⟨hr, hu⟩ := afterSend_parts hsent
        exact ⟨fun _ hk => by (cases hk), hr, hu⟩
    have hsmall : ∀ count, outcome = .accepted count → count < 2 ^ 31 :=
      fun count hc => hok i data count rfl (by rw [hc])
    obtain ⟨hneg, hpos⟩ := send_count hle hsmall
    have htaken : Taken i (ConnectionSlot.send data outcome).2.1.length s' := by
      refine ⟨hsound, ?_, ?_⟩
      · rw [hu, Function.update_self, h.told i, Nat.zero_add]
      · intro j hj
        rw [hu, Function.update_of_ne hj]
        exact h.told j
    constructor
    · intro hlt
      rw [hr] at hlt
      rw [hneg hlt] at htaken
      exact htaken.between
    · intro hge
      rw [hr] at hge ⊢
      rw [hpos hge]
      exact htaken
  | _ => cases he

theorem handleWriteEvent_between (h : BetweenWrites s) :
    Safe (outputContract cfg n) (Ends BetweenWrites Sound) (handleWriteEvent i : ServerM cfg n Unit).run
      s := by
  refine call_between_bind rfl h ?_
  intro _ fd _ s _ hs _
  refine call_between_bind rfl hs ?_
  intro _ writable _ s _ hs _
  cases writable with
  | false => exact .ends_ret (stable_betweenWrites none) hs
  | true =>
    refine call_between_bind rfl hs ?_
    intro _ pending _ s _ hs _
    cases pending with
    | false => exact call_between (o := .setStatus i .readable) rfl hs
    | true =>
      refine call_between_bind rfl hs ?_
      intro _ copied s s' hs hs' he
      cases copied with
      | none => exact .ends_throw (stable_sound none) hs'.toSound
      | some data =>
        have hcopy : Copied i data s' := by
          obtain ⟨hc, rfl⟩ := Prod.mk.inj (Option.some.inj he)
          refine ⟨hs', ?_⟩
          have hd : some ((s.slots i).pendingResponse.drop (s.slots i).pendingWriteOffset) =
              some data := by
            rw [← hc]
            exact (if_pos (hs.offsets i)).symm
          rw [← Option.some.inj hd]
          exact List.prefix_refl _
        refine safe_call (Copied i data) (stable_copied i data _) hcopy
          (fun s hs => ⟨hs.toSound, hs.copy, hs.told i⟩) ?_
        intro s e sent s' hs hok he
        obtain ⟨hneg, hpos⟩ := hs.sent hok he
        obtain ⟨bytesWrite, errno⟩ := sent
        change Safe _ _ (ExceptT.run (if bytesWrite < 0 then _ else _)) s'
        split
        · next hlt =>
          split
          · exact .ends_ret (stable_betweenWrites none) (hneg hlt)
          · exact call_between (o := .releaseSlot i) rfl (hneg hlt)
        · next hge =>
          refine safe_call (Taken i bytesWrite.toNat) (stable_taken i _ _)
            (hpos (Int.not_lt.mp hge)) (fun s hs => ⟨hs.toSound, hs.here⟩) ?_
          intro s e emptied s' hs _ he
          have hs' := hs.consumed he
          cases emptied with
          | true => exact call_between (o := .setStatus i .readable) rfl hs'
          | false => exact .ends_ret (stable_betweenWrites none) hs'

end WritePath

section ReadPath

theorem notOutputs_of_worker {o : ServerCall n} (h : o.worker = true) : o.outputs = false := by
  cases o with
  | send | consumePendingResponse => cases h
  | _ => rfl

theorem notOutputs_of_answers {o : ServerCall n} (h : o.answers = true) : o.outputs = false := by
  cases o with
  | send | consumePendingResponse => cases h
  | _ => rfl

end ReadPath

section Systems

variable {ω : Type} [DecidableEq ω]

/-- No `send` of the step takes `2 ^ 31` bytes or more. -/
def SmallSends (c : ServerConfig cfg n ω) (t : Thread ω) (e : ServerInput) : Prop :=
  ∀ i data count, (c.thread t).head = some (ServerCall.send i data) →
    e = .send (.accepted count) → count < 2 ^ 31

/-- The network thread against `outputContract`; the others keep what is sound. -/
def outputContracts (cfg : CleanupConfig) (n : Nat) (ω : Type) :
    Thread ω → Contract (serverMachine cfg n)
  | .network => outputContract cfg n
  | _ =>
      { allows := fun _ _ _ => True
        rely := fun _ _ s' => Sound s'
        pre := fun o s => Sound s ∧ Orderly o s }

def outputRest : Thread ω → Bool → Server n → Prop
  | .network, true => BetweenWrites
  | _, _ => Sound

omit [DecidableEq ω] in
theorem worker_sound {t : Thread ω} (ht : t ≠ .network) {p : Prog (serverMachine cfg n) Bool}
    (hp : p.Uses fun o : ServerCall n => o.worker = true) {s : Server n} (h : Sound s) :
    Safe (outputContracts cfg n ω t) (outputRest t) p s := by
  have horderly : ∀ (o : ServerCall n), o.worker = true → ∀ s, Orderly o s :=
    fun o ho s => orderly_of_not_outputs (notOutputs_of_worker ho) s
  have hsafe : Safe (outputContracts cfg n ω t) (fun _ => Sound) p s := by
    cases t with
    | network => exact absurd rfl ht
    | worker w =>
      exact Safe.of_uses Sound hp (fun _ _ _ _ h => h) h (fun o s ho hs => ⟨hs, horderly o ho s⟩)
        fun o s e r s' ho hs _ he => hs.perform (horderly o ho s) (perform_of_exec he)
    | control =>
      exact Safe.of_uses Sound hp (fun _ _ _ _ h => h) h (fun o s ho hs => ⟨hs, horderly o ho s⟩)
        fun o s e r s' ho hs _ he => hs.perform (horderly o ho s) (perform_of_exec he)
  apply hsafe.mono
  intro a s hs
  cases t with
  | network => exact absurd rfl ht
  | worker w => cases a <;> exact hs
  | control => cases a <;> exact hs

/-- Any system whose network thread keeps to the contract, and whose other threads make
worker calls, keeps the output in order. -/
theorem reach_sound {restart : Thread ω → Bool → Option (Prog (serverMachine cfg n) Bool)}
    {init : ServerConfig cfg n ω} (h0 : BetweenWrites init.shared)
    (hnet : Safe (outputContract cfg n) (outputRest (Thread.network (ω := ω)))
      (init.thread .network) init.shared)
    (hagain : ∀ a p s, restart .network a = some p → outputRest (Thread.network (ω := ω)) a s →
      Safe (outputContract cfg n) (outputRest (Thread.network (ω := ω))) p s)
    (hworkers : ∀ t, t ≠ .network → (init.thread t).Uses fun o : ServerCall n => o.worker = true)
    (hothers : ∀ t a p, t ≠ .network → restart t a = some p →
      p.Uses fun o : ServerCall n => o.worker = true)
    {c : ServerConfig cfg n ω} (hr : Reach restart SmallSends init c) : Sound c.shared := by
  have hworker : ∀ c, Reach restart SmallSends init c → ∀ t, t ≠ .network →
      ∀ o : ServerCall n, (c.thread t).head = some o → o.worker = true := by
    intro c hc t ht o ho
    have huses := Reach.uses (P := fun t (o : ServerCall n) => t ≠ .network → o.worker = true)
      (fun t => ?_) (fun t a p hp => ?_) hc t
    · exact huses.head ho ht
    · by_cases hn : t = .network
      · exact (Prog.Uses.trivial _).mono fun o _ h => absurd hn h
      · exact (hworkers t hn).mono fun o ho _ => ho
    · by_cases hn : t = .network
      · exact (Prog.Uses.trivial _).mono fun o _ h => absurd hn h
      · exact (hothers t a p hn hp).mono fun o ho _ => ho
  have hsafe : ∀ t, Safe (outputContracts cfg n ω t) (outputRest t) (c.thread t) c.shared := by
    refine Reach.safe (outputContracts cfg n ω) outputRest ?_ ?_ ?_ hr
    · intro t
      by_cases hn : t = .network
      · subst hn
        exact hnet
      · exact worker_sound hn (hworkers t hn) h0.toSound
    · intro t a p s hp hs
      by_cases hn : t = .network
      · subst hn
        exact hagain a p s hp hs
      · refine worker_sound hn (hothers t a p hn hp) ?_
        cases t with
        | network => exact absurd rfl hn
        | worker w => cases a <;> exact hs
        | control => cases a <;> exact hs
    · intro c t e o k r s' hc hok hk hpre he
      have hhead : (c.thread t).head = some o := by rw [hk]; rfl
      have hsound : Sound s' := by
        cases t with
        | network => exact hpre.1.perform hpre.2 (perform_of_exec he)
        | worker w => exact hpre.1.perform hpre.2 (perform_of_exec he)
        | control => exact hpre.1.perform hpre.2 (perform_of_exec he)
      constructor
      · cases t with
        | network => exact fun i data count ho => hok i data count (ho ▸ hhead)
        | worker w => trivial
        | control => trivial
      · intro u hu
        cases u with
        | network =>
          exact ⟨perform_worker (hworker c hc t (Ne.symm hu) o hhead) (perform_of_exec he), hsound⟩
        | worker w => exact hsound
        | control => exact hsound
  have hnetwork := hsafe .network
  cases hp : c.thread .network with
  | ret a =>
    rw [hp] at hnetwork
    have hpost := hnetwork.post
    cases a with
    | true => exact hpost.toSound
    | false => exact hpost
  | call o k =>
    rw [hp] at hnetwork
    exact hnetwork.pre.1

omit [DecidableEq ω] in
theorem networkRound_between {s : Server n} (h : BetweenWrites s) :
    Safe (outputContract cfg n) (outputRest (Thread.network (ω := ω))) (networkRound parse) s := by
  have hround : Safe (outputContract cfg n) (fun a s => if a = true then BetweenWrites s else Sound s)
      (networkRound parse) s := by
    refine networkRound_safe stable_betweenWrites stable_sound (fun s hs => hs.toSound) ?_ ?_
      (fun i s hs => handleWriteEvent_between hs) ?_ h
    · intro o ho s hs
      have hout : o.outputs = false := by
        cases o with
        | send | consumePendingResponse => cases ho
        | _ => rfl
      exact ⟨⟨hs.toSound, orderly_of_not_outputs hout s⟩, fun e r s' _ he => hs.perform hout he⟩
    · intro i s hs
      refine Safe.mono (Q := fun _ => BetweenWrites) ?_ ?_
      · exact Safe.of_uses BetweenWrites
          ((handleReadEvent_uses i).mono fun _ ho => notOutputs_of_answers ho) stable_betweenWrites hs
          (fun o s ho hs => ⟨hs.toSound, orderly_of_not_outputs ho s⟩)
          fun o s e r s' ho hs _ he => hs.perform ho (perform_of_exec he)
      · intro x s hs
        cases x with
        | ok a => exact hs
        | error e => exact hs.toSound
    · intro o ho s hs
      have hout : o.outputs = false := by
        cases o with
        | send | consumePendingResponse => cases ho
        | _ => rfl
      have horder := orderly_of_not_outputs hout s
      exact ⟨⟨hs, horder⟩, fun e r s' _ he => hs.perform horder he⟩
  apply hround.mono
  intro a s hs
  cases a with
  | true => exact hs
  | false => exact hs

/-- Every connection of the server, in every run with small sends. -/
theorem server_output_in_order {env : Nat → JudgeEnv} {c : ServerConfig cfg n ω}
    (hr : Reach (again cfg n parse env ω) SmallSends (serverStart cfg n parse env ω) c) :
    Sound c.shared := by
  have h0 : BetweenWrites (serverStart cfg n parse env ω).shared := by
    refine ⟨⟨connections_start, fun _ => Nat.le_refl 0, ?_⟩, fun _ => rfl⟩
    intro conn hconn
    exact ⟨([], 0), outputOf_fresh (by simp [serverStart]), fun i hi => absurd hi.symm hconn⟩
  have hbody : ∀ t : Thread ω, t ≠ .network → (threadBody cfg n parse env ω t).Uses
      fun o : ServerCall n => o.worker = true :=
    fun t ht => (threadBody_uses t).mono fun _ ho => worker_of_callsOf ht ho
  refine reach_sound h0 (networkRound_between h0) ?_ hbody ?_ hr
  · intro a p s hp hs
    obtain ⟨rfl, rfl⟩ := again_eq_some hp
    exact networkRound_between hs
  · intro t a p ht hp
    exact (again_uses t a p hp).mono fun _ ho => worker_of_callsOf ht ho

end Systems

end JudgeServer.Network
