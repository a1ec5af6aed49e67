import JudgeServer.Network.EventLoop
import JudgeServer.Network.Readiness
import JudgeServer.Lib.Causes

/-!
# Why a connection is dropped

`release_connection` comes right after a read or a send on the slot. A read tells its reason
through the sign of a byte count: 0 is the end of the stream, -1 an error, and
`read_message` means to keep `EAGAIN` out of the errors but has stored the -1 before it
looks. A send is followed by a look at `errno`.
-/

namespace JudgeServer.Network

open JudgeServer.Common
open JudgeServer.Lib.Interleave
open JudgeServer.Pipeline
open JudgeServer.Protocol

variable {cfg : CleanupConfig} {n : Nat} {parse : JsonParse} {env : Nat → JudgeEnv} {ω : Type}

/-- The end of the stream, or an error other than `EAGAIN`, on slot `i`. -/
def DropCause (i : Fin n) : ServerCall n → ServerInput → Prop
  | .readMessage j, .read (.bytes chunk) => j = i ∧ chunk = []
  | .readMessage j, .read (.failed errno) => j = i ∧ errno ≠ .again
  | .send j _, .send (.failed errno) => j = i ∧ errno ≠ .again
  | _, _ => False

/-- A read or a send on slot `i` that is to be tried again. -/
def FailsAgain (i : Fin n) : ServerCall n → ServerInput → Prop
  | .readMessage j, .read (.failed errno) => j = i ∧ errno = .again
  | .send j _, .send (.failed errno) => j = i ∧ errno = .again
  | _, _ => False

/-- No read is to be tried again, and the cast to `int` leaves a count its sign. -/
def inputKept : ServerCall n → ServerInput → Bool
  | .readMessage _, .read (.failed errno) => errno ≠ .again
  | .readMessage _, .read (.bytes chunk) => chunk = [] || 0 < toInt32 chunk.length
  | .send _ _, .send (.accepted count) => 0 ≤ toInt32 count
  | _, _ => true

def stepKept (c : ServerConfig cfg n ω) (t : Thread ω) (e : ServerInput) : Bool :=
  (c.thread t).head.all fun o : ServerCall n => inputKept o e

def ServerCall.drops : ServerCall n → Bool
  | .releaseSlot _ => true
  | _ => false

/-- A call of `release_connection` has its cause in the call before it. -/
def CausedDrop (o : ServerCall n) (e : ServerInput) (next : Option (ServerCall n)) : Prop :=
  ∀ i, next = some (.releaseSlot i) → DropCause i o e

def NoDrop (next : Option (ServerCall n)) : Prop := ∀ i, next ≠ some (.releaseSlot i)

/-- The programs whose every `release_connection` is caused. -/
abbrev DropsForCause {α : Type} (p : Prog (serverMachine cfg n) α) : Prop :=
  p.Joins (fun o e => inputKept o e = true) CausedDrop NoDrop

section Programs

theorem causedDrop_of_noDrop (o : ServerCall n) (e : ServerInput) (next : Option (ServerCall n))
    (h : NoDrop next) : CausedDrop o e next := by
  intro i hi
  exact absurd hi (h i)

theorem noDrop_none : NoDrop (none : Option (ServerCall n)) := by
  intro i hi
  cases hi

theorem noDrop_of_not_drops {o : ServerCall n} (h : o.drops = false) : NoDrop (some o) := by
  intro i hi
  obtain rfl := Option.some.inj hi
  cases h

theorem drops_ret {α : Type} (a : α) : DropsForCause (.ret a : Prog (serverMachine cfg n) α) :=
  .ret noDrop_none a

theorem drops_call {α : Type} {o : ServerCall n} (ho : o.drops = false)
    {k : o.Reply → Prog (serverMachine cfg n) α} (hk : ∀ r, DropsForCause (k r)) :
    DropsForCause (.call (M := serverMachine cfg n) o k) :=
  .call causedDrop_of_noDrop (noDrop_of_not_drops ho) hk

theorem drops_of_uses {α : Type} {p : Prog (serverMachine cfg n) α}
    (h : p.Uses fun o : ServerCall n => o.drops = false) : DropsForCause p :=
  h.joins causedDrop_of_noDrop noDrop_none fun _ ho => noDrop_of_not_drops ho

/-- The program goes on without a drop. -/
theorem goes_on {α : Type} {p : Prog (serverMachine cfg n) α} (h : DropsForCause p)
    (o : ServerCall n) (e : ServerInput) :
    CausedDrop o e p.head ∧ p.Follows (fun o e => inputKept o e = true) CausedDrop :=
  ⟨causedDrop_of_noDrop o e _ h.start, h.follows⟩

/-- The program ends with a drop that has its cause. -/
theorem drops_next {i : Fin n} {o : ServerCall n} {e : ServerInput} (h : DropCause i o e) :
    CausedDrop o e (call (.releaseSlot i) : ServerM cfg n Unit).run.head ∧
      (call (.releaseSlot i) : ServerM cfg n Unit).run.Follows
        (fun o e => inputKept o e = true) CausedDrop := by
  constructor
  · intro j hj
    obtain rfl := ServerCall.releaseSlot.inj (Option.some.inj hj)
    exact h
  · intro e s r s' _ _
    exact ⟨causedDrop_of_noDrop _ _ _ noDrop_none, trivial⟩

theorem drops_of_replies {o : ServerCall n} (h : o.replies = true) : o.drops = false := by
  cases o with
  | releaseSlot => cases h
  | _ => rfl

/-- What a read returns, by its outcome. -/
theorem perform_read {i : Fin n} {e : ServerInput} {s s' : Server n} {r : Int × Option Bytes}
    (h : Server.perform cfg (.readMessage i) e s = some (r, s')) :
    (∃ errno, e = .read (.failed errno) ∧ r = (-1, none)) ∨
    (e = .read (.bytes []) ∧ r = (0, none)) ∨
    (∃ chunk, e = .read (.bytes chunk) ∧ chunk ≠ [] ∧ r.1 = toInt32 chunk.length) := by
  cases e with
  | read outcome =>
    obtain ⟨rfl, -⟩ := Prod.mk.inj (Option.some.inj h)
    cases outcome with
    | failed errno => exact .inl ⟨errno, rfl, rfl⟩
    | bytes chunk =>
      by_cases hchunk : chunk = []
      · subst hchunk
        exact .inr (.inl ⟨rfl, rfl⟩)
      · refine .inr (.inr ⟨chunk, rfl, hchunk, ?_⟩)
        show ((s.slots i).readMessage (.bytes chunk)).1.1 = _
        unfold ConnectionSlot.readMessage
        dsimp only
        rw [if_neg hchunk]
  | _ => cases h

theorem handleReadEvent_drops (i : Fin n) :
    DropsForCause (handleReadEvent parse i : ServerM cfg n Unit).run := by
  apply drops_call rfl
  intro _
  refine ⟨noDrop_of_not_drops rfl, ?_⟩
  intro e s r s' hkept he
  obtain ⟨errno, rfl, rfl⟩ | ⟨rfl, rfl⟩ | ⟨chunk, rfl, hchunk, hcount⟩ :=
    perform_read (perform_of_exec he)
  · exact drops_next ⟨rfl, of_decide_eq_true hkept⟩
  · exact drops_next ⟨rfl, rfl⟩
  · -- a positive count leads to the handling of a message, which never drops
    have hpos : 0 < r.1 := by
      rw [hcount]
      simpa [inputKept, hchunk] using hkept
    apply goes_on
    obtain ⟨totRead, message⟩ := r
    change 0 < totRead at hpos
    cases message with
    | none =>
      change DropsForCause (ExceptT.run (if totRead = 0 then _ else _))
      rw [if_neg (by omega), if_neg (by omega)]
      exact drops_ret _
    | some body =>
      apply drops_call rfl
      intro _
      change DropsForCause (ExceptT.run (if totRead = 0 then _ else _))
      rw [if_neg (by omega), if_neg (by omega)]
      exact drops_of_uses (handleCompleteMessage_uses i body rfl fun _ ho => drops_of_replies ho)

/-- A negative result of `send` is an error, or a count that the cast has turned. -/
theorem send_negative {data : Bytes} {outcome : SendOutcome}
    (h : (ConnectionSlot.send data outcome).1 < 0) :
    (∃ errno, outcome = .failed errno ∧ (ConnectionSlot.send data outcome).2.2 = some errno) ∨
    (∃ count, outcome = .accepted count ∧ toInt32 count < 0) := by
  unfold ConnectionSlot.send at h ⊢
  split at h
  · cases h
  · next hsize =>
    rw [if_neg hsize]
    cases outcome with
    | failed errno => exact .inl ⟨errno, rfl, rfl⟩
    | accepted count =>
      dsimp only at h
      exact .inr ⟨count, rfl, h⟩

theorem afterSend_result {s s' : Server n} {i : Fin n} {sent : Int × Bytes × Option Errno}
    {r : Int × Errno} (h : s.afterSend i sent = (r, s')) :
    r = (sent.1, sent.2.2.getD s.errno) := by
  obtain ⟨rfl, -⟩ := Prod.mk.inj h
  rfl

theorem perform_send {i : Fin n} {data : Bytes} {e : ServerInput} {s s' : Server n}
    {r : Int × Errno} (h : Server.perform cfg (.send i data) e s = some (r, s')) :
    ∃ outcome, e = .send outcome ∧ r = ((ConnectionSlot.send data outcome).1,
      (ConnectionSlot.send data outcome).2.2.getD s.errno) := by
  cases e with
  | send outcome =>
    refine ⟨outcome, rfl, ?_⟩
    cases outcome with
    | failed errno =>
      have hsent : s.send i data _ = (r, s') := Option.some.inj h
      exact afterSend_result hsent
    | accepted count =>
      change (if count ≤ data.length then some (s.send i data (.accepted count)) else none) = _ at h
      split at h
      · have hsent : s.send i data _ = (r, s') := Option.some.inj h
        exact afterSend_result hsent
      · cases h
  | _ => cases h

/-- What `handle_write_event` takes for an error is one. -/
theorem failed_of_negative {i : Fin n} {data : Bytes} {e : ServerInput} {s s' : Server n}
    {bytesWrite : Int} {errno : Errno} (hkept : inputKept (.send i data) e = true)
    (h : Server.perform cfg (.send i data) e s = some ((bytesWrite, errno), s'))
    (hneg : bytesWrite < 0) : e = .send (.failed errno) := by
  obtain ⟨outcome, rfl, hr⟩ := perform_send h
  rw [Prod.mk.injEq] at hr
  rw [hr.1] at hneg
  rw [hr.2]
  obtain ⟨errno', rfl, herrno⟩ | ⟨count, rfl, hcount⟩ := send_negative hneg
  · rw [herrno]
    rfl
  · have hpos : 0 ≤ toInt32 count := by simpa [inputKept] using hkept
    omega

theorem handleWriteEvent_drops (i : Fin n) :
    DropsForCause (handleWriteEvent i : ServerM cfg n Unit).run := by
  apply drops_call rfl
  intro _
  apply drops_call rfl
  intro writable
  cases writable with
  | false => exact drops_ret _
  | true =>
    apply drops_call rfl
    intro pending
    cases pending with
    | false => exact drops_call rfl fun _ => drops_ret _
    | true =>
      apply drops_call rfl
      intro copied
      cases copied with
      | none => exact drops_ret _
      | some resultData =>
        refine ⟨noDrop_of_not_drops rfl, ?_⟩
        intro e s r s' hkept he
        obtain ⟨bytesWrite, errno⟩ := r
        change CausedDrop _ _ (Prog.head (M := serverMachine cfg n)
          (ExceptT.run (if bytesWrite < 0 then _ else _))) ∧
            Prog.Follows _ _ (ExceptT.run (if bytesWrite < 0 then _ else _))
        by_cases hneg : bytesWrite < 0
        · rw [if_pos hneg]
          by_cases hagain : errno = .again
          · rw [if_pos hagain]
            exact goes_on (drops_ret _) _ _
          · rw [if_neg hagain]
            obtain rfl := failed_of_negative hkept (perform_of_exec he) hneg
            exact drops_next ⟨rfl, hagain⟩
        · rw [if_neg hneg]
          apply goes_on
          apply drops_call rfl
          intro emptied
          cases emptied with
          | true => exact drops_call rfl fun _ => drops_ret _
          | false => exact drops_ret _

theorem eventRound_drops : DropsForCause (eventRound parse : ServerM cfg n Bool).run := by
  apply eventRound_madeOf.joins causedDrop_of_noDrop noDrop_none
  intro β q hq
  cases hq with
  | @plain o ho =>
    apply drops_call
    · cases o with
      | releaseSlot => cases ho
      | _ => rfl
    · intro _
      exact drops_ret _
  | readEvent i => exact handleReadEvent_drops i
  | writeEvent i => exact handleWriteEvent_drops i

theorem networkRound_drops :
    DropsForCause (networkRound parse : Prog (serverMachine cfg n) Bool) := by
  have hstop : DropsForCause
      (stopPool >>= fun _ => pure false : Prog (serverMachine cfg n) Bool) := by
    apply drops_call rfl
    intro first
    cases first with
    | true => exact drops_call rfl fun _ => drops_ret _
    | false => exact drops_ret _
  apply eventRound_drops.bind causedDrop_of_noDrop
  intro x
  cases x with
  | error e => exact hstop
  | ok going =>
    cases going with
    | true => exact drops_ret _
    | false => exact hstop

/-- A read that brought nothing is followed by `release_connection`. -/
def DropsNext : (o : ServerCall n) → o.Reply → Option (ServerCall n) → Prop
  | .readMessage i, r, next => r.1 ≤ 0 → r.2 = none → next = some (.releaseSlot i)
  | _, _, _ => True

def ServerCall.reads : ServerCall n → Bool
  | .readMessage _ => true
  | _ => false

theorem dropsNext_patient : Patient (M := serverMachine cfg n) DropsNext := by
  intro o r next h
  cases o with
  | readMessage i =>
    intro hcount hmessage
    cases h hcount hmessage
  | _ => trivial

theorem dropsNext_of_not_reads {o : ServerCall n} (ho : o.reads = false) (r : o.Reply)
    (next : Option (ServerCall n)) : DropsNext o r next := by
  cases o with
  | readMessage => cases ho
  | _ => trivial

theorem dropsNext_of_uses {α : Type} {p : Prog (serverMachine cfg n) α}
    (h : p.Uses fun o : ServerCall n => o.reads = false) : p.Leads DropsNext :=
  h.leads fun _ r next ho => dropsNext_of_not_reads ho r next

theorem dropsNext_call {α : Type} {o : ServerCall n} (ho : o.reads = false)
    {k : o.Reply → Prog (serverMachine cfg n) α} (hk : ∀ r, (k r).Leads DropsNext) :
    Prog.Leads DropsNext (Prog.call (M := serverMachine cfg n) o k) :=
  fun r => ⟨dropsNext_of_not_reads ho r _, hk r⟩

theorem reads_of_replies {o : ServerCall n} (h : o.replies = true) : o.reads = false := by
  cases o with
  | readMessage => cases h
  | _ => rfl

theorem reads_of_flushes {o : ServerCall n} (h : o.flushes = true) : o.reads = false := by
  cases o with
  | readMessage => cases h
  | _ => rfl

theorem handleReadEvent_dropsNext (i : Fin n) :
    (handleReadEvent parse i : ServerM cfg n Unit).run.Leads DropsNext := by
  apply dropsNext_call rfl
  intro _ (r : Int × Option Bytes)
  obtain ⟨totRead, message⟩ := r
  cases message with
  | none =>
    constructor
    · intro (hcount : totRead ≤ 0) _
      change Prog.head (ExceptT.run (if totRead = 0 then _ else _)) = _
      split
      · rfl
      · rw [if_pos (by omega)]
        rfl
    · change Prog.Leads _ (ExceptT.run (if totRead = 0 then _ else _))
      split
      · exact dropsNext_call rfl fun _ => trivial
      · split
        · exact dropsNext_call rfl fun _ => trivial
        · trivial
  | some body =>
    constructor
    · intro _ hmessage
      cases hmessage
    · apply dropsNext_call rfl
      intro _
      change Prog.Leads _ (ExceptT.run (if totRead = 0 then _ else _))
      split
      · exact dropsNext_call rfl fun _ => trivial
      · split
        · exact dropsNext_call rfl fun _ => trivial
        · exact dropsNext_of_uses
            (handleCompleteMessage_uses i body rfl fun _ ho => reads_of_replies ho)

theorem networkRound_dropsNext :
    (networkRound parse : Prog (serverMachine cfg n) Bool).Leads DropsNext := by
  refine networkRound_leads dropsNext_patient ?_ handleReadEvent_dropsNext ?_
  · intro o ho r next
    apply dropsNext_of_not_reads
    cases o with
    | readMessage => obtain ho | ho := ho <;> cases ho
    | _ => rfl
  · intro i
    exact dropsNext_of_uses ((handleWriteEvent_uses i).mono fun _ ho => reads_of_flushes ho)

end Programs

section Runs

/-- A failure that is to be tried again leaves every slot as it is. -/
theorem slots_of_failsAgain {i : Fin n} {o : ServerCall n} {e : ServerInput} {s s' : Server n}
    {r : o.Reply} (h : FailsAgain i o e) (he : Server.perform cfg o e s = some (r, s')) :
    s'.slots = s.slots := by
  cases o with
  | send j data => exact perform_keepsSlots rfl he
  | readMessage j =>
    cases e with
    | read outcome =>
      cases outcome with
      | bytes chunk => cases h
      | failed errno =>
        obtain ⟨-, rfl⟩ := Prod.mk.inj (Option.some.inj he)
        exact Function.update_eq_self j s.slots
    | _ => cases h
  | _ => cases h

variable [DecidableEq ω]

theorem network_standsBehind {xs : List (Thread ω × ServerInput)} {c : ServerConfig cfg n ω}
    {last : Option (ServerCall n × ServerInput)}
    (h : runSince (again cfg n parse env ω) stepKept .network (serverStart cfg n parse env ω) none
      xs = some (c, last)) :
    StandsBehind .network (fun o e => inputKept o e = true) CausedDrop NoDrop c last := by
  refine runSince_follows ?_ ?_ ⟨networkRound_drops.follows, ?_, ?_⟩ h
  · intro a p hp
    obtain ⟨-, rfl⟩ := again_eq_some hp
    exact networkRound_drops
  · intro c e o hkept ho
    unfold stepKept at hkept
    rw [ho] at hkept
    exact hkept
  · intro o e hlast
    cases hlast
  · intro _
    exact networkRound_drops.start

/-- In every run, whatever a read fails with, `release_connection` is the next call. -/
theorem failed_read_drops {c c' : ServerConfig cfg n ω} {i : Fin n} {errno : Errno}
    (hr : Reach (again cfg n parse env ω) anyStep (serverStart cfg n parse env ω) c)
    (hhead : (c.thread .network).head = some (ServerCall.readMessage i))
    (hstep : step (again cfg n parse env ω) c .network (.read (.failed errno)) = some c') :
    (c'.thread .network).head = some (ServerCall.releaseSlot i) := by
  have hleads : (c.thread .network).Leads DropsNext := by
    refine Reach.leads networkRound_dropsNext ?_ hr
    intro a p hp
    obtain ⟨-, rfl⟩ := again_eq_some hp
    exact networkRound_dropsNext
  obtain ⟨k, hk⟩ := Prog.exists_call hhead
  rw [hk] at hleads
  obtain ⟨a, p, ha, -, -⟩ | ⟨o, k', r, s', hk', he, rfl⟩ := step_cases hstep
  · rw [ha] at hk
    cases hk
  · rw [hk] at hk'
    cases hk'
    have hresult : r = (-1, none) :=
      (congrArg Prod.fst (Option.some.inj (perform_of_exec he))).symm
    show (Function.update c.thread .network (k r) .network).head = _
    rw [hresult, Function.update_self]
    exact (hleads (-1, none)).1 (by decide) rfl

/-- In every run of the server in which no read fails with `EAGAIN` and no count changes its
sign in the cast to `int`: whoever is about to call `release_connection` is the network
thread, and its last call was a read on the same slot that reported the end of the stream, or
a read or a send on it that failed with another error. A failure with `EAGAIN` leaves
every slot as it is. A read that fails with `EAGAIN` next is followed by a drop. -/
theorem connections_dropped_for_cause {xs : List (Thread ω × ServerInput)}
    {c : ServerConfig cfg n ω} {last : Option (ServerCall n × ServerInput)}
    (h : runSince (again cfg n parse env ω) stepKept .network (serverStart cfg n parse env ω) none
      xs = some (c, last)) :
    (∀ t i, (c.thread t).head = some (ServerCall.releaseSlot i) →
      t = .network ∧ ∃ o e, last = some (o, e) ∧ DropCause i o e) ∧
    (∀ i o e c', (c.thread .network).head = some o → FailsAgain i o e →
      step (again cfg n parse env ω) c .network e = some c' →
      c'.shared.slots = c.shared.slots) ∧
    (∀ i c', (c.thread .network).head = some (ServerCall.readMessage i) →
      step (again cfg n parse env ω) c .network (.read (.failed .again)) = some c' →
      (c'.thread .network).head = some (ServerCall.releaseSlot i)) := by
  have hreach : Reach (again cfg n parse env ω) anyStep (serverStart cfg n parse env ω) c :=
    runSince_reach .refl h
  have hstands := network_standsBehind h
  refine ⟨?_, ?_, fun i c' hhead hstep => failed_read_drops hreach hhead hstep⟩
  · intro t i hhead
    have hnet : t = .network := by
      by_contra hne
      cases worker_of_reach hreach hne hhead
    subst hnet
    refine ⟨rfl, ?_⟩
    cases last with
    | none => exact absurd hhead (hstands.begun rfl i)
    | some x => exact ⟨x.1, x.2, rfl, hstands.called x.1 x.2 rfl i hhead⟩
  · intro i o e c' hhead hagain hstep
    obtain ⟨a, p, ha, -, -⟩ | ⟨o', k, r, s', hk, he, rfl⟩ := step_cases hstep
    · rw [ha] at hhead
      cases hhead
    · rw [hk] at hhead
      obtain rfl := Option.some.inj hhead
      exact slots_of_failsAgain hagain (perform_of_exec he)

end Runs

section Sample

/-- A client connects, and the first read on its socket fails. -/
def failingRead (errno : Errno) : Schedule :=
  connecting ++ quietly .network 2 ++ [(.network, .select [5] [] false)] ++ quietly .network 2 ++
    [(.network, .read (.failed errno))]

/-- The next call of the network thread, the socket of the slot, and the call before. -/
def dropView (x : ServerConfig {} 1 Unit × Option (ServerCall 1 × ServerInput)) :
    Option (ServerCall 1) × Int × Option (ServerCall 1 × ServerInput) :=
  ((x.1.thread .network).head, (x.1.shared.slots ⟨0, Nat.one_pos⟩).fd, x.2)

/-- What the theorem says of a client that has closed its end. -/
theorem closed_client_is_dropped :
    ∃ c last o e, runSince sampleAgain stepKept .network sampleServer none
        (connecting ++ receiving []) = some (c, last) ∧
      (c.shared.slots 0).fd = 5 ∧ (c.thread .network).head = some (ServerCall.releaseSlot 0) ∧
      last = some (o, e) ∧ DropCause 0 o e := by
  have hrun : (runSince sampleAgain stepKept .network sampleServer none
      (connecting ++ receiving [])).map dropView =
        some (some (.releaseSlot 0), 5, some (.readMessage 0, .read (.bytes []))) := rfl
  obtain ⟨⟨c, last⟩, hc, hview⟩ := Option.map_eq_some_iff.mp hrun
  obtain ⟨hhead, hrest⟩ := Prod.mk.inj hview
  have hfd : (c.shared.slots 0).fd = 5 := congrArg Prod.fst hrest
  obtain ⟨-, o, e, hlast, hcause⟩ := (connections_dropped_for_cause hc).1 .network 0 hhead
  exact ⟨c, last, o, e, hc, hfd, hhead, hlast, hcause⟩

/-- A read that finds nothing to read: the connection is dropped for it. -/
theorem again_read_drops_connection :
    ∃ c c', runSince sampleAgain (fun _ _ _ => true) .network sampleServer none
        (failingRead .again) = some (c, some (.readMessage 0, .read (.failed .again))) ∧
      ¬ DropCause (n := 1) 0 (.readMessage 0) (.read (.failed .again)) ∧
      (c.thread .network).head = some (ServerCall.releaseSlot 0) ∧ (c.shared.slots 0).fd = 5 ∧
      step sampleAgain c .network .quiet = some c' ∧ (c'.shared.slots 0).fd = 0 := by
  have hrun : ((runSince sampleAgain (fun _ _ _ => true) .network sampleServer none
      (failingRead .again)).bind fun x => (step sampleAgain x.1 .network .quiet).map fun c' =>
        (dropView x, (c'.shared.slots 0).fd)) =
      some ((some (.releaseSlot 0), 5, some (.readMessage 0, .read (.failed .again))), 0) := rfl
  obtain ⟨⟨c, last⟩, hc, hstep⟩ := Option.bind_eq_some_iff.mp hrun
  obtain ⟨c', hc', hview⟩ := Option.map_eq_some_iff.mp hstep
  obtain ⟨hdrop, hgone⟩ := Prod.mk.inj hview
  obtain ⟨hhead, hrest⟩ := Prod.mk.inj hdrop
  obtain ⟨hfd, rfl⟩ := Prod.mk.inj hrest
  refine ⟨c, c', hc, ?_, hhead, hfd, hc', hgone⟩
  intro hcause
  exact hcause.2 rfl

end Sample

end JudgeServer.Network
