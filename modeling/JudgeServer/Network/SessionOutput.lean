import JudgeServer.Network.OutputStream

/-!
# The output of one session

One session, on which the network thread queues responses and handles write events in
any order while workers deliver any messages.
-/

namespace JudgeServer.Network

open JudgeServer.Common
open JudgeServer.Lib.Framing
open JudgeServer.Lib.Interleave
open JudgeServer.Pipeline

variable {cfg : CleanupConfig} {n : Nat}

/-- What the network thread does with a slot's output. -/
inductive WriteAct where
  | respond (response : Message)
  | writeEvent

def writeAct (i : Fin n) : WriteAct → ServerM cfg n Unit
  | .respond response => queueImmediateResponse i response
  | .writeEvent => handleWriteEvent i

def writeActs (i : Fin n) : List WriteAct → ServerM cfg n Unit
  | [] => pure ()
  | act :: rest => do
      writeAct i act
      writeActs i rest

/-- Deliveries of a worker, each for the session it names. -/
def deliverAll (i : Fin n) : List (Nat × Message) → Prog (serverMachine cfg n) Bool
  | [] => pure false
  | (sessionId, response) :: rest => do
      let _ ← Prog.op (serverMachine cfg n) (.setPendingResponseIfSession i sessionId response)
      deliverAll i rest

def sessionThread {ω : Type} (acts : List WriteAct) (deliveries : ω → List (Nat × Message)) :
    Thread ω → Prog (serverMachine cfg (n + 1)) Bool
  | .network => do
      let _ ← (writeActs 0 acts).run
      pure false
  | .worker w => deliverAll 0 (deliveries w)
  | .control => pure false

/-- The first connection has just been registered, in slot `0`. -/
def sessionStart (cfg : CleanupConfig) (n : Nat) {ω : Type} (fd : Int) (acts : List WriteAct)
    (deliveries : ω → List (Nat × Message)) : ServerConfig cfg (n + 1) ω where
  shared := (Server.acquireSlot {} fd).2
  thread := sessionThread acts deliveries

/-- Every thread runs once. -/
def runOnce {ω : Type} : Thread ω → Bool → Option (Prog (serverMachine cfg n) Bool) :=
  fun _ _ => none

theorem writeActs_between {i : Fin n} {acts : List WriteAct} {s : Server n}
    (h : BetweenWrites s) :
    Safe (outputContract cfg n) (Ends BetweenWrites Sound) (writeActs i acts).run s := by
  induction acts generalizing s with
  | nil => exact .ends_ret (stable_betweenWrites none) h
  | cons act rest ih =>
    refine Safe.ends_bind (stable_sound none) ?_ fun _ s hs => ih hs
    cases act with
    | respond response =>
      refine call_between_bind rfl h ?_
      intro _ _ _ s _ hs _
      exact call_between (o := .setStatus i .writable) rfl hs
    | writeEvent => exact handleWriteEvent_between h

theorem deliverAll_uses (i : Fin n) (deliveries : List (Nat × Message)) :
    (deliverAll i deliveries : Prog (serverMachine cfg n) Bool).Uses
      (fun o : ServerCall n => o.worker = true) := by
  induction deliveries with
  | nil => trivial
  | cons delivery rest ih => exact ⟨rfl, fun _ => ih⟩

theorem betweenWrites_registered (fd : Int) :
    BetweenWrites (Server.acquireSlot ({} : Server (n + 1)) fd).2 := by
  have h0 : BetweenWrites ({} : Server (n + 1)) := by
    refine ⟨⟨connections_start, fun _ => Nat.le_refl 0, ?_⟩, fun _ => rfl⟩
    intro conn hconn
    exact ⟨([], 0), outputOf_fresh (by simp), fun i hi => absurd hi.symm hconn⟩
  have he : Server.perform ({} : CleanupConfig) (.acquireSlot fd) .quiet ({} : Server (n + 1)) =
      some (Server.acquireSlot {} fd) := rfl
  exact h0.perform rfl he

section InOrder

variable {ω : Type} [DecidableEq ω]

/-- In every run with small sends, whatever is queued and delivered: the socket has taken
a beginning of the frames of the responses appended, and the offset is inside the pending
output whenever it is copied. -/
theorem session_output_in_order {fd : Int} {acts : List WriteAct}
    {deliveries : ω → List (Nat × Message)} {c : ServerConfig cfg (n + 1) ω}
    (hr : Reach runOnce SmallSends (sessionStart cfg n fd acts deliveries) c) :
    sentOn 1 c.shared.trace <+: frames (appendedOn 1 c.shared.trace) ∧
    ∀ i, (c.thread .network).head = some (ServerCall.copyPendingResponse i) →
      (c.shared.slots i).pendingWriteOffset ≤ (c.shared.slots i).pendingResponse.length := by
  have h0 : BetweenWrites (sessionStart cfg n fd acts deliveries).shared :=
    betweenWrites_registered fd
  have hsound : Sound c.shared := by
    refine reach_sound h0 ?_ (fun a p s hp => by cases hp) ?_ (fun t a p _ hp => by cases hp) hr
    · apply Safe.bind
      apply (writeActs_between h0).mono
      intro x s hx
      refine .ret Sound (stable_sound none) ?_ fun _ h => h
      cases x with
      | ok a => exact hx.toSound
      | error e => exact hx
    · intro t ht
      cases t with
      | network => exact absurd rfl ht
      | worker w => exact deliverAll_uses 0 (deliveries w)
      | control => trivial
  obtain ⟨x, hx, _⟩ := hsound.flowing 1 (by decide)
  exact ⟨hx.sent_isPrefix, fun i _ => hsound.offsets i⟩

end InOrder

section Sample

/-- A write event on a socket that takes all of a short response in two parts. -/
def shortActs : List WriteAct :=
  [.respond ⟨ascii "ok", .reply⟩, .writeEvent, .writeEvent]

def shortSchedule : Schedule :=
  quietly .network 6 ++ [(.network, .send (.accepted 5))] ++ quietly (.worker ()) 1 ++
    quietly .network 5 ++ [(.network, .send (.accepted 7))] ++ quietly .network 2

def smallSendTest (_ : ServerConfig cfg n Unit) (_ : Thread Unit) (e : ServerInput) : Bool :=
  match e with
  | .send (.accepted count) => count < 2 ^ 31
  | _ => true

theorem smallSendTest_small (c : ServerConfig cfg n Unit) (t : Thread Unit) (e : ServerInput)
    (h : smallSendTest c t e = true) : SmallSends c t e := by
  intro i data count _ he
  subst he
  exact of_decide_eq_true h

/-- A worker delivers between the two parts; all twelve bytes arrive in order. -/
theorem short_output_in_order :
    ∃ c, Reach runOnce SmallSends (sessionStart {} 0 5 shortActs fun _ : Unit =>
        [(1, ⟨ascii "hi", .reply⟩)]) c ∧
      (sentOn 1 c.shared.trace).length = 12 ∧
      sentOn 1 c.shared.trace <+: frames (appendedOn 1 c.shared.trace) := by
  have hrun : (runWhere runOnce smallSendTest (sessionStart {} 0 5 shortActs fun _ : Unit =>
      [(1, ⟨ascii "hi", .reply⟩)]) shortSchedule).map
        (fun c => (sentOn 1 c.shared.trace).length) = some 12 := by decide +kernel
  obtain ⟨c, hc, hlen⟩ := Option.map_eq_some_iff.mp hrun
  have hr := reach_of_runWhere smallSendTest_small hc
  exact ⟨c, hr, hlen, (session_output_in_order hr).1⟩

/-- All of `data` is pending on the first connection, and none of it consumed. -/
structure AllPending (data : Bytes) (s : Server (n + 1)) : Prop where
  running : s.terminated = false
  conn : s.conn 0 = 1
  status : (s.slots 0).status = .writable
  pending : (s.slots 0).pendingResponse = data
  offset : (s.slots 0).pendingWriteOffset = 0

theorem reachAt_call {ω : Type} [DecidableEq ω]
    {restart : Thread ω → Bool → Option (Prog (serverMachine cfg n) Bool)}
    {init : ServerConfig cfg n ω} {t : Thread ω} {o : ServerCall n}
    {k : o.Reply → Prog (serverMachine cfg n) Bool} {s s' : Server n} {r : o.Reply}
    (h : ReachAt restart anyStep init t (.call o k) s) (hs : s.terminated = false) (e : ServerInput)
    (he : Server.perform cfg o e s = some (r, s')) : ReachAt restart anyStep init t (k r) s' := by
  refine h.call e ?_
  show (if s.terminated then none else Server.perform cfg o e s) = _
  rw [hs]
  exact he

/-- The count `2 ^ 32` returned as an `int` is `0`. -/
theorem send_wraps {data : Bytes} (h : data.length = 2 ^ 32 + 3) :
    ConnectionSlot.send data (.accepted (2 ^ 32)) = (0, data.take (2 ^ 32), none) := by
  have hsize : ¬ toInt32 data.length ≤ 0 := by
    rw [h]
    decide
  have hsent : ConnectionSlot.send data (.accepted (2 ^ 32)) =
      (toInt32 (2 ^ 32), data.take (2 ^ 32), none) := if_neg hsize
  have hcount : toInt32 (2 ^ 32) = 0 := by decide
  rw [hsent, hcount]

/-- A write event whose `send` wraps: the bytes are sent and stay pending. -/
theorem writeEvent_wraps {ω : Type} [DecidableEq ω]
    {restart : Thread ω → Bool → Option (Prog (serverMachine cfg (n + 1)) Bool)}
    {init : ServerConfig cfg (n + 1) ω} {f : Except ServerError Unit → Prog _ Bool}
    {s : Server (n + 1)} {data : Bytes} (hlen : data.length = 2 ^ 32 + 3) (hs : AllPending data s)
    (h : ReachAt restart anyStep init .network ((handleWriteEvent 0).run.bind f) s) :
    ∃ s', ReachAt restart anyStep init .network (f (.ok ())) s' ∧ AllPending data s' ∧
      s'.trace = s.trace ++ [.sent 1 (data.take (2 ^ 32))] := by
  have hwritable : Server.perform cfg (.isWritable .handler 0) .quiet s = some (true, s) := by
    show some (decide ((s.slots 0).status = .writable), s) = _
    rw [hs.status]
    rfl
  have hhas : Server.perform cfg (.hasPendingResponse 0) .quiet s = some (true, s) := by
    have hne : (s.slots 0).pendingResponse ≠ [] := by
      rw [hs.pending]
      exact List.ne_nil_of_length_pos (by omega)
    show some (decide ((s.slots 0).pendingResponse ≠ []), s) = _
    rw [decide_eq_true hne]
  have hcopy : Server.perform cfg (.copyPendingResponse 0) .quiet s = some (some data, s) := by
    have hle : (s.slots 0).pendingWriteOffset ≤ (s.slots 0).pendingResponse.length := by
      rw [hs.offset]
      exact Nat.zero_le _
    show some ((s.slots 0).copyPendingResponse, s) = _
    rw [ConnectionSlot.copyPendingResponse, if_pos hle, hs.offset, hs.pending]
    rfl
  have hsend : Server.perform cfg (.send 0 data) (.send (.accepted (2 ^ 32))) s =
      some (s.afterSend 0 (0, data.take (2 ^ 32), none)) := by
    have hle : 2 ^ 32 ≤ data.length := by omega
    rw [← send_wraps hlen]
    exact if_pos hle
  have h1 := reachAt_call h hs.running .quiet (o := .getFd .handler 0) rfl
  have h2 := reachAt_call h1 hs.running .quiet hwritable
  have h3 := reachAt_call h2 hs.running .quiet hhas
  have h4 := reachAt_call h3 hs.running .quiet hcopy
  have h5 := reachAt_call h4 hs.running (.send (.accepted (2 ^ 32))) hsend
  let s₁ := (s.afterSend 0 (0, data.take (2 ^ 32), none)).2
  have hconsume : Server.perform cfg (.consumePendingResponse 0 0) .quiet s₁ =
      some (false, { s₁ with
        slots := Function.update s.slots 0 (s.slots 0)
        unconsumed := Function.update s₁.unconsumed 0 0 }) := by
    have hle : ¬ (s.slots 0).pendingResponse.length ≤ (s.slots 0).pendingWriteOffset + 0 := by
      rw [hs.offset, hs.pending]
      omega
    have hslot : (s.slots 0).consumePendingResponse 0 = (false, s.slots 0) := if_neg hle
    show some (((s.slots 0).consumePendingResponse 0).1, { s₁ with
      slots := Function.update s.slots 0 ((s.slots 0).consumePendingResponse 0).2
      unconsumed := Function.update s₁.unconsumed 0 0 }) = _
    rw [hslot]
  have h6 := reachAt_call h5 (s := s₁) hs.running .quiet hconsume
  refine ⟨_, h6, ⟨hs.running, hs.conn, ?_, ?_, ?_⟩, ?_⟩
  · show (Function.update s.slots 0 (s.slots 0) 0).status = .writable
    rw [Function.update_self]
    exact hs.status
  · show (Function.update s.slots 0 (s.slots 0) 0).pendingResponse = data
    rw [Function.update_self]
    exact hs.pending
  · show (Function.update s.slots 0 (s.slots 0) 0).pendingWriteOffset = 0
    rw [Function.update_self]
    exact hs.offset
  · show s.trace ++ [.sent (s.conn 0) _] = _
    rw [hs.conn]

theorem writeActs_cons {i : Fin n} {act : WriteAct} {rest : List WriteAct} {α : Type}
    (g : Except ServerError Unit → Prog (serverMachine cfg n) α) :
    (writeActs i (act :: rest)).run.bind g = (writeAct i act).run.bind fun
      | .ok _ => (writeActs i rest).run.bind g
      | .error e => g (.error e) := by
  show ((writeAct i act).run.bind _).bind g = _
  rw [Prog.bind_assoc]
  congr 1
  funext x
  cases x with
  | ok a => rfl
  | error e => rfl

/-- One response is queued and two write events are handled. -/
def sentTwiceActs (body : Bytes) : List WriteAct :=
  [.respond ⟨body, .reply⟩, .writeEvent, .writeEvent]

/-- With the longest body the header can announce, and a socket that takes `2 ^ 32` bytes
each time. -/
theorem sent_twice {body : Bytes} (hlen : body.length = 2 ^ 32 - 1) :
    ∃ c, Reach runOnce anyStep (sessionStart {} 0 5 (sentTwiceActs body) fun _ : Unit => []) c ∧
      appendedOn 1 c.shared.trace = [body] ∧
      sentOn 1 c.shared.trace = (frame body).take (2 ^ 32) ++ (frame body).take (2 ^ 32) := by
  have hframe : (frame body).length = 2 ^ 32 + 3 := by
    rw [frame, List.length_append, header_length, hlen]
    rfl
  let init := sessionStart {} 0 5 (sentTwiceActs body) fun _ : Unit => []
  have h0 : ReachAt runOnce anyStep init .network (init.thread .network) init.shared := .start _ _
  have h1 := reachAt_call h0 (o := .setPendingResponse 0 ⟨body, .reply⟩) rfl .quiet rfl
  have h2 := reachAt_call h1 (o := .setStatus 0 .writable) rfl .quiet rfl
  change ReachAt _ _ _ _ ((writeActs 0 [.writeEvent, .writeEvent]).run.bind _) _ at h2
  rw [writeActs_cons] at h2
  obtain ⟨s₁, h3, hs₁, ht₁⟩ := writeEvent_wraps hframe ⟨rfl, rfl, rfl, rfl, rfl⟩ h2
  change ReachAt _ _ _ _ ((writeActs 0 [.writeEvent]).run.bind _) _ at h3
  rw [writeActs_cons] at h3
  obtain ⟨s₂, h4, hs₂, ht₂⟩ := writeEvent_wraps hframe hs₁ h3
  obtain ⟨c, hc, _, hs⟩ := h4
  have htrace : c.shared.trace = [.appended 1 ⟨body, .reply⟩] ++
      [.sent 1 ((frame body).take (2 ^ 32))] ++ [.sent 1 ((frame body).take (2 ^ 32))] := by
    rw [hs, ht₂, ht₁]
    rfl
  refine ⟨c, hc, ?_, ?_⟩
  · rw [htrace]
    rfl
  · rw [htrace, sentOn_snoc, sentOn_snoc, Event.sentOn_self]
    rfl

def longBody : Bytes := List.replicate (2 ^ 32 - 1) 0

/-- More has been sent than was ever appended. -/
theorem long_output_is_repeated :
    ∃ c, Reach runOnce anyStep (sessionStart {} 0 5 (sentTwiceActs longBody) fun _ : Unit => []) c ∧
      (∀ body ∈ appendedOn 1 c.shared.trace, body.length < 2 ^ 32) ∧
      ¬ sentOn 1 c.shared.trace <+: frames (appendedOn 1 c.shared.trace) := by
  have hlen : longBody.length = 2 ^ 32 - 1 := List.length_replicate
  obtain ⟨c, hc, happ, hsent⟩ := sent_twice hlen
  refine ⟨c, hc, ?_, ?_⟩
  · rw [happ]
    intro body hbody
    rw [List.mem_singleton.mp hbody, hlen]
    decide
  · intro hp
    have hle := hp.length_le
    rw [happ, hsent, frames_singleton, List.length_append, List.length_take, frame,
      List.length_append, header_length, hlen] at hle
    omega

end Sample

end JudgeServer.Network
