import JudgeServer.Network.Connections
import Mathlib.Data.List.Nodup
import Mathlib.Data.List.FinRange

/-!
# The registry of connection slots

`network/ConnectionRegistry.cpp` with the session counter of `register_client_socket`.
That a slot is free is recorded twice, in the queue of free ids and by an `fd` of zero;
`Registered` says that the two records agree. An acquired id is returned as an `int`,
which names the slot as long as there are no more than `2 ^ 31` of them.
-/

namespace JudgeServer.Network

open JudgeServer.Lib.Interleave
open JudgeServer.Pipeline
open JudgeServer.Protocol

structure ConnectionRegistry (n : Nat) where
  slots : Fin n → ConnectionSlot := fun _ => {}
  freeSlotIds : List (Fin n) := List.finRange n

inductive RegistryCall (n : Nat) where
  | acquireSlot (fd : Int) (sessionId : Nat)
  | releaseSlot (id : Fin n)

namespace ConnectionRegistry

variable {n : Nat}

def acquireSlot (r : ConnectionRegistry n) (fd : Int) (sessionId : Nat) :
    Int × ConnectionRegistry n :=
  match r.freeSlotIds with
  | [] => (-1, r)
  | id :: rest => (toInt32 id, {
      slots := Function.update r.slots id ((r.slots id).init fd sessionId)
      freeSlotIds := rest })

def releaseSlot (r : ConnectionRegistry n) (id : Fin n) : ConnectionRegistry n :=
  if (r.slots id).fd = 0 then r
  else {
    slots := Function.update r.slots id (r.slots id).clear
    freeSlotIds := r.freeSlotIds ++ [id] }

def perform (r : ConnectionRegistry n) : RegistryCall n → ConnectionRegistry n
  | .acquireSlot fd sessionId => (r.acquireSlot fd sessionId).2
  | .releaseSlot id => r.releaseSlot id

/-- The slot and the session a call brings together. -/
def assigned (r : ConnectionRegistry n) : RegistryCall n → List (Fin n × Nat)
  | .acquireSlot _ sessionId => (r.freeSlotIds.head?.map fun id => (id, sessionId)).toList
  | .releaseSlot _ => []

/-- A sequence of calls on a new registry, with the slots and sessions brought together. -/
def run (calls : List (RegistryCall n)) : List (Fin n × Nat) × ConnectionRegistry n :=
  calls.foldl (fun x call => (x.1 ++ x.2.assigned call, x.2.perform call)) ([], {})

end ConnectionRegistry

/-- The argument of an `acquire_slot` is an open socket. -/
def RegistryCall.opens {n : Nat} : RegistryCall n → Prop
  | .acquireSlot fd _ => 0 < fd
  | .releaseSlot _ => True

def RegistryCall.session {n : Nat} : RegistryCall n → Option Nat
  | .acquireSlot _ sessionId => some sessionId
  | .releaseSlot _ => none

/-- `next_session_id_` after a number of increments. -/
def nextSessionIdAfter : Nat → Nat
  | 0 => 1
  | k + 1 => (nextSessionIdAfter k + 1) % 2 ^ 64

/-- The sessions are those `register_client_socket` hands out. -/
def FromCounter {n : Nat} (calls : List (RegistryCall n)) : Prop :=
  calls.filterMap RegistryCall.session =
    (List.range (calls.filterMap RegistryCall.session).length).map nextSessionIdAfter

/-- The first `k` slots are acquired and released, one after the other. -/
def eachOnce (n k : Nat) : List (RegistryCall n) :=
  ((List.finRange n).take k).flatMap fun id => [.acquireSlot 1 0, .releaseSlot id]

/-- The two records of what is free agree. -/
structure Registered {n : Nat} (r : ConnectionRegistry n) : Prop where
  nodup : r.freeSlotIds.Nodup
  free : ∀ id, id ∈ r.freeSlotIds ↔ (r.slots id).fd = 0

section Step

variable {n : Nat} {r : ConnectionRegistry n}

theorem registered_start : Registered ({} : ConnectionRegistry n) where
  nodup := List.nodup_finRange n
  free := fun id => iff_of_true (List.mem_finRange id) rfl

theorem Registered.acquireSlot (h : Registered r) {fd : Int} (hfd : 0 < fd) (sessionId : Nat) :
    Registered (r.acquireSlot fd sessionId).2 := by
  unfold ConnectionRegistry.acquireSlot
  split
  · exact h
  · next id rest hfree =>
    have hnodup := h.nodup
    rw [hfree, List.nodup_cons] at hnodup
    refine ⟨hnodup.2, ?_⟩
    intro j
    show j ∈ rest ↔ (Function.update r.slots id _ j).fd = 0
    by_cases hj : j = id
    · subst hj
      rw [Function.update_self]
      exact iff_of_false hnodup.1 (ne_of_gt hfd)
    · rw [Function.update_of_ne hj, ← h.free, hfree, List.mem_cons]
      exact (or_iff_right hj).symm

theorem releaseSlot_used {id : Fin n} (h : (r.slots id).fd ≠ 0) :
    (r.releaseSlot id).freeSlotIds = r.freeSlotIds ++ [id] := by
  unfold ConnectionRegistry.releaseSlot
  rw [if_neg h]

theorem Registered.releaseSlot (h : Registered r) (id : Fin n) : Registered (r.releaseSlot id) := by
  unfold ConnectionRegistry.releaseSlot
  split
  · exact h
  · next hused =>
    have hnot : id ∉ r.freeSlotIds := mt (h.free id).mp hused
    constructor
    · show (r.freeSlotIds ++ [id]).Nodup
      exact h.nodup.append (List.nodup_singleton id) (List.disjoint_singleton.mpr hnot)
    · intro j
      show j ∈ r.freeSlotIds ++ [id] ↔ (Function.update r.slots id _ j).fd = 0
      rw [List.mem_append, List.mem_singleton]
      by_cases hj : j = id
      · subst hj
        rw [Function.update_self]
        exact iff_of_true (.inr rfl) rfl
      · rw [Function.update_of_ne hj, h.free, or_iff_left hj]

theorem Registered.perform (h : Registered r) {call : RegistryCall n} (hcall : call.opens) :
    Registered (r.perform call) := by
  cases call with
  | acquireSlot fd sessionId => exact h.acquireSlot hcall sessionId
  | releaseSlot id => exact h.releaseSlot id

end Step

/-- It returns -1 if every slot is in use; otherwise the id of a slot that was free, and
the other slots are left as they are. -/
structure Acquires {n : Nat} (r : ConnectionRegistry n) (fd : Int) (sessionId : Nat) : Prop where
  full : (r.acquireSlot fd sessionId).1 = -1 ↔ ∀ id, (r.slots id).fd ≠ 0
  found : (∃ id, (r.slots id).fd = 0) → ∃ id : Fin n, (r.acquireSlot fd sessionId).1 = id ∧
    (r.slots id).fd = 0 ∧
    (r.acquireSlot fd sessionId).2.slots id = (r.slots id).init fd sessionId ∧
    ∀ j, j ≠ id → (r.acquireSlot fd sessionId).2.slots j = r.slots j

section Acquire

variable {n : Nat} {r : ConnectionRegistry n} {fd : Int} {sessionId : Nat}

theorem acquireSlot_none (h : r.freeSlotIds = []) : r.acquireSlot fd sessionId = (-1, r) := by
  unfold ConnectionRegistry.acquireSlot
  rw [h]

theorem acquireSlot_some {id : Fin n} {rest : List (Fin n)} (h : r.freeSlotIds = id :: rest) :
    r.acquireSlot fd sessionId = (toInt32 id, {
      slots := Function.update r.slots id ((r.slots id).init fd sessionId)
      freeSlotIds := rest }) := by
  unfold ConnectionRegistry.acquireSlot
  rw [h]

theorem acquireSlot_returns {id : Fin n} {rest : List (Fin n)} (h : r.freeSlotIds = id :: rest) :
    (r.acquireSlot fd sessionId).1 = toInt32 id := by
  rw [acquireSlot_some h]

theorem Registered.acquires (h : Registered r) (hn : n ≤ 2 ^ 31) : Acquires r fd sessionId := by
  cases hfree : r.freeSlotIds with
  | nil =>
    have hused : ∀ id, (r.slots id).fd ≠ 0 := by
      intro id hid
      have hmem := (h.free id).mpr hid
      rw [hfree] at hmem
      cases hmem
    refine ⟨iff_of_true (by rw [acquireSlot_none hfree]) hused, ?_⟩
    rintro ⟨id, hid⟩
    exact absurd hid (hused id)
  | cons id rest =>
    have hid : (r.slots id).fd = 0 := by
      apply (h.free id).mp
      rw [hfree]
      exact List.mem_cons_self
    have hreturns : (r.acquireSlot fd sessionId).1 = id := by
      rw [acquireSlot_returns hfree]
      exact toInt32_of_lt (Nat.lt_of_lt_of_le id.isLt hn)
    constructor
    · rw [hreturns]
      constructor
      · intro hneg
        omega
      · intro hall
        exact absurd hid (hall id)
    · intro _
      refine ⟨id, hreturns, hid, ?_, ?_⟩
      · rw [acquireSlot_some hfree]
        exact Function.update_self _ _ _
      · intro j hj
        rw [acquireSlot_some hfree]
        exact Function.update_of_ne hj _ _

end Acquire

section Runs

variable {n : Nat}

theorem run_concat (calls : List (RegistryCall n)) (call : RegistryCall n) :
    ConnectionRegistry.run (calls ++ [call]) =
      ((ConnectionRegistry.run calls).1 ++ (ConnectionRegistry.run calls).2.assigned call,
        (ConnectionRegistry.run calls).2.perform call) := by
  simp [ConnectionRegistry.run]

theorem run_registered {calls : List (RegistryCall n)} (h : ∀ c ∈ calls, c.opens) :
    Registered (ConnectionRegistry.run calls).2 := by
  induction calls using List.reverseRecOn with
  | nil => exact registered_start
  | append_singleton calls call ih =>
    rw [run_concat]
    exact (ih fun c hc => h c (List.mem_append_left _ hc)).perform (h call (by simp))

/-- The sessions in use come from the calls, in their order. -/
theorem run_sessions (calls : List (RegistryCall n)) :
    ((ConnectionRegistry.run calls).1.map Prod.snd).Sublist
      (calls.filterMap RegistryCall.session) := by
  induction calls using List.reverseRecOn with
  | nil => exact List.Sublist.slnil
  | append_singleton calls call ih =>
    rw [run_concat, List.map_append, List.filterMap_append]
    apply ih.append
    cases call with
    | releaseSlot id => exact List.Sublist.slnil
    | acquireSlot fd sessionId =>
      show (List.map Prod.snd (Option.map _ _).toList).Sublist [sessionId]
      cases (ConnectionRegistry.run calls).2.freeSlotIds.head? with
      | none => exact List.nil_sublist _
      | some id => exact List.Sublist.refl _

theorem nextSessionIdAfter_eq {k : Nat} (h : k + 1 < 2 ^ 64) : nextSessionIdAfter k = k + 1 := by
  induction k with
  | zero => rfl
  | succ k ih =>
    rw [nextSessionIdAfter, ih (by omega)]
    exact Nat.mod_eq_of_lt h

theorem run_pairs_nodup {calls : List (RegistryCall n)} (hcounter : FromCounter calls)
    (hfew : (calls.filterMap RegistryCall.session).length < 2 ^ 64 - 1) :
    (ConnectionRegistry.run calls).1.Nodup := by
  have hsessions : (calls.filterMap RegistryCall.session).Nodup := by
    rw [hcounter]
    apply List.Nodup.map_on _ List.nodup_range
    intro i hi j hj hij
    rw [List.mem_range] at hi hj
    rw [nextSessionIdAfter_eq (by omega), nextSessionIdAfter_eq (by omega)] at hij
    omega
  exact ((run_sessions calls).nodup hsessions).of_map _

theorem eachOnce_succ {k : Nat} (hk : k < (List.finRange n).length) :
    eachOnce n (k + 1) = eachOnce n k ++ [.acquireSlot 1 0] ++ [.releaseSlot (List.finRange n)[k]] := by
  unfold eachOnce
  rw [← List.take_concat_get' _ _ hk, List.flatMap_append, List.append_assoc]
  rfl

theorem eachOnce_opens {k : Nat} : ∀ c ∈ eachOnce n k, c.opens := by
  intro c hc
  obtain ⟨id, -, hmem⟩ := List.mem_flatMap.mp hc
  rw [List.mem_cons, List.mem_singleton] at hmem
  obtain rfl | rfl := hmem
  · exact Int.one_pos
  · exact trivial

/-- Every slot is taken from the front of the queue and comes back at its end. -/
theorem run_eachOnce {k : Nat} (hk : k ≤ n) :
    (ConnectionRegistry.run (eachOnce n k)).2.freeSlotIds =
      (List.finRange n).drop k ++ (List.finRange n).take k := by
  induction k with
  | zero => exact (List.append_nil _).symm
  | succ k ih =>
    have hlen : k < (List.finRange n).length := by
      rw [List.length_finRange]
      omega
    -- slot `k` is at the front of the queue, and goes behind the slots used before it
    have hfree := ih (by omega)
    rw [List.drop_eq_getElem_cons hlen, List.cons_append] at hfree
    rw [eachOnce_succ hlen, run_concat, run_concat]
    show (ConnectionRegistry.releaseSlot (ConnectionRegistry.acquireSlot _ 1 0).2 _).freeSlotIds = _
    rw [acquireSlot_some hfree]
    rw [releaseSlot_used, List.append_assoc, List.take_concat_get']
    · show (Function.update (ConnectionRegistry.run _).2.slots _ _ (List.finRange n)[k]).fd ≠ 0
      rw [Function.update_self]
      exact Int.one_ne_zero

/-- The slot after the first `k` is free, and its id is what `acquire_slot` narrows next. -/
theorem acquireSlot_after_eachOnce {k : Nat} (hk : k < n) :
    ((ConnectionRegistry.run (eachOnce n k)).2.acquireSlot 1 0).1 = toInt32 k ∧
      ∃ id, ((ConnectionRegistry.run (eachOnce n k)).2.slots id).fd = 0 := by
  have hlen : k < (List.finRange n).length := by rwa [List.length_finRange]
  have hfree := run_eachOnce (Nat.le_of_lt hk)
  rw [List.drop_eq_getElem_cons hlen, List.cons_append] at hfree
  constructor
  · rw [acquireSlot_returns hfree, List.getElem_finRange, Fin.val_cast]
  · refine ⟨(List.finRange n)[k], ((run_registered eachOnce_opens).free _).mp ?_⟩
    rw [hfree]
    exact List.mem_cons_self

end Runs

section Server

variable {n : Nat}

def Server.connectionRegistry (s : Server n) : ConnectionRegistry n := ⟨s.slots, s.freeSlotIds⟩

/-- `register_client_socket` acquires with the next session of the server. -/
theorem Server.connectionRegistry_acquireSlot (s : Server n) (fd : Int) :
    (s.acquireSlot fd).2.connectionRegistry =
      (s.connectionRegistry.acquireSlot fd s.nextSessionId).2 := by
  unfold Server.acquireSlot ConnectionRegistry.acquireSlot
  cases h : s.freeSlotIds with
  | nil => simp [Server.connectionRegistry, h]
  | cons id rest => simp [Server.connectionRegistry, h]

theorem Server.connectionRegistry_releaseSlot (s : Server n) (i : Fin n) :
    (s.releaseSlot i).connectionRegistry = s.connectionRegistry.releaseSlot i := by
  unfold Server.releaseSlot ConnectionRegistry.releaseSlot
  by_cases h : (s.slots i).fd = 0 <;> simp [Server.connectionRegistry, h]

/-- The calls by which a slot is taken or given back. -/
def ServerCall.ofRegistry : ServerCall n → Bool
  | .acquireSlot _ | .releaseSlot _ => true
  | _ => false

variable {cfg : CleanupConfig} {s s' : Server n}

/-- The other calls change neither the queue nor an `fd`. -/
theorem perform_keepsFds {o : ServerCall n} (ho : o.ofRegistry = false) {e : ServerInput}
    {r : o.Reply} (h : Server.perform cfg o e s = some (r, s')) :
    s'.freeSlotIds = s.freeSlotIds ∧ ∀ j, (s'.slots j).fd = (s.slots j).fd := by
  cases perform_effect h with
  | quiet same => exact ⟨same.freeSlotIds, fun j => by rw [same.slots]⟩
  | turnedAway | opened | closed => cases ho
  | read i outcome =>
    obtain ⟨errno, rfl, hs⟩ | ⟨chunk, rfl, hs⟩ := readMessage_cases s i outcome
    · rw [hs]
      exact ⟨rfl, slot_update_eq rfl⟩
    · rw [hs]
      obtain ⟨b, hb⟩ := (s.slots i).readMessage_rest (.bytes chunk)
      refine ⟨rfl, slot_update_eq ?_⟩
      rw [hb]
  | consumed i bytes =>
    obtain ⟨pending, offset, hrest⟩ := consume_rest (s.slots i) bytes
    refine ⟨rfl, slot_update_eq ?_⟩
    rw [hrest]
  | status | appended | delivered => exact ⟨rfl, slot_update_eq rfl⟩
  | sent | handled | marked | released | deferred | pushed | popped => exact ⟨rfl, fun _ => rfl⟩

theorem Registered.of_fds (h : Registered s.connectionRegistry)
    (hfree : s'.freeSlotIds = s.freeSlotIds) (hfds : ∀ j, (s'.slots j).fd = (s.slots j).fd) :
    Registered s'.connectionRegistry where
  nodup := by
    show s'.freeSlotIds.Nodup
    rw [hfree]
    exact h.nodup
  free := by
    intro id
    show id ∈ s'.freeSlotIds ↔ (s'.slots id).fd = 0
    rw [hfree, hfds]
    exact h.free id

theorem Registered.server_call (h : Registered s.connectionRegistry) {o : ServerCall n}
    {e : ServerInput} {r : o.Reply} (hfd : ∀ fd, o = .acquireSlot fd → 0 < fd)
    (he : Server.perform cfg o e s = some (r, s')) : Registered s'.connectionRegistry := by
  cases hreg : o.ofRegistry with
  | false =>
    obtain ⟨hfree, hfds⟩ := perform_keepsFds hreg he
    exact h.of_fds hfree hfds
  | true =>
    cases o with
    | acquireSlot fd =>
      have hs : s.acquireSlot fd = (r, s') := Option.some.inj he
      have hreg' := s.connectionRegistry_acquireSlot fd
      rw [hs] at hreg'
      rw [hreg']
      exact h.acquireSlot (hfd fd rfl) _
    | releaseSlot i =>
      have hs : s.releaseSlot i = s' := congrArg Prod.snd (Option.some.inj he)
      rw [← hs, Server.connectionRegistry_releaseSlot]
      exact h.releaseSlot i
    | _ => cases hreg

variable {parse : JsonParse} {env : Nat → JudgeEnv} {ω : Type} [DecidableEq ω]

/-- Every socket that is registered is a positive number. -/
def OpensSockets (c : ServerConfig cfg n ω) (t : Thread ω) (_ : ServerInput) : Prop :=
  ∀ fd, (c.thread t).head = some (ServerCall.acquireSlot fd) → 0 < fd

/-- The two records agree in every state of the server. -/
theorem registered_of_reach {c : ServerConfig cfg n ω}
    (hr : Reach (again cfg n parse env ω) OpensSockets (serverStart cfg n parse env ω) c) :
    Registered c.shared.connectionRegistry := by
  refine Reach.invariant (fun s => Registered (Server.connectionRegistry s)) registered_start ?_ hr
  intro c t e o k r s' _ hopens hk he h
  apply h.server_call _ (perform_of_exec he)
  rintro fd rfl
  apply hopens fd
  rw [hk]
  rfl

end Server

theorem toInt32_two_pow : toInt32 ((2 ^ 31 : Nat) : Int) = -2147483648 := by
  decide

/-- The registry as it is promised, over every sequence of calls. -/
def RegistrySound (n : Nat) : Prop :=
  ∀ calls : List (RegistryCall n), (∀ c ∈ calls, c.opens) →
    Registered (ConnectionRegistry.run calls).2 ∧
    (∀ fd sessionId, 0 < fd → Acquires (ConnectionRegistry.run calls).2 fd sessionId) ∧
    (FromCounter calls → (calls.filterMap RegistryCall.session).length < 2 ^ 64 - 1 →
      (ConnectionRegistry.run calls).1.Nodup)

/-- With more than `2 ^ 31` slots, the one after the first `2 ^ 31` gets a negative id. -/
theorem acquired_id_is_negative {n : Nat} (hn : 2 ^ 31 < n) :
    ((ConnectionRegistry.run (eachOnce n (2 ^ 31))).2.acquireSlot 1 0).1 = -2147483648 ∧
      ∃ id, ((ConnectionRegistry.run (eachOnce n (2 ^ 31))).2.slots id).fd = 0 := by
  obtain ⟨hreturns, hfree⟩ := acquireSlot_after_eachOnce hn
  exact ⟨hreturns.trans toInt32_two_pow, hfree⟩

theorem not_sound_of_negative {n : Nat} (hn : 2 ^ 31 < n) : ¬ RegistrySound n := by
  intro h
  obtain ⟨hneg, hfree⟩ := acquired_id_is_negative hn
  obtain ⟨-, hacquires, -⟩ := h _ eachOnce_opens
  obtain ⟨id, hid, -⟩ := (hacquires 1 0 Int.one_pos).found hfree
  rw [hneg] at hid
  omega

/-- For every number of slots: the registry keeps its promises over every sequence of calls
exactly when an `int` can name every slot. -/
theorem registry_sound_iff (n : Nat) : RegistrySound n ↔ n ≤ 2 ^ 31 := by
  constructor
  · intro h
    by_contra hn
    exact not_sound_of_negative (Nat.lt_of_not_le hn) h
  · intro hn calls hopens
    have hreg := run_registered hopens
    exact ⟨hreg, fun fd sessionId _ => hreg.acquires hn, run_pairs_nodup⟩

theorem large_registry_is_not_sound :
    ¬ RegistrySound (2 ^ 31 + 1) ∧
      ((ConnectionRegistry.run (eachOnce (2 ^ 31 + 1) (2 ^ 31))).2.acquireSlot 1 0).1 = -2147483648 ∧
      ∃ id, ((ConnectionRegistry.run (eachOnce (2 ^ 31 + 1) (2 ^ 31))).2.slots id).fd = 0 :=
  ⟨not_sound_of_negative (Nat.lt_succ_self _), acquired_id_is_negative (Nat.lt_succ_self _)⟩

end JudgeServer.Network
