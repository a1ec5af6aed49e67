import JudgeServer.Network.AckBarrier
import JudgeServer.Network.ConnectionSlot
import JudgeServer.Network.ReplyChannel
import JudgeServer.Dispatch.SubmissionQueue
import JudgeServer.Pipeline.StoreHistory

/-!
# The server's shared state and its atomic calls

Everything the network thread and the workers share, and every locked section or system
call they make on it, as one machine. A call is named after the member function it
stands for. What a system call does is an input of the step.

The last five fields of `Server` are for the proofs: no program reads them. Connections
and accepted submissions are numbered without overflow, and the trace records what was
received, handed to `handle_complete_message`, submitted, released, appended and sent. The
call `handleCompleteMessage` is the entry of that function and records its arguments.
-/

namespace JudgeServer.Network

open JudgeServer.Common
open JudgeServer.Dispatch
open JudgeServer.Lib.Interleave (Machine)
open JudgeServer.Pipeline

/-- What a message is about. A ticket numbers an accepted submission. -/
inductive Subject where
  | ack (ticket : Nat)
  | event (ticket : Nat)
  | reply
  deriving DecidableEq, Repr

/-- A response as it is handed around; only the body is sent. -/
structure Message where
  body : Bytes
  subject : Subject
  deriving DecidableEq, Repr

inductive Event where
  | received (conn : Nat) (chunk : Bytes) (totRead : Int) (message : Option Bytes)
  | handled (conn : Nat) (messageBody : Bytes)
  | submitted (ticket conn : Nat) (task : SubmissionTask)
  | released (replyChannelId : Bytes)
  | appended (conn : Nat) (message : Message)
  | sent (conn : Nat) (data : Bytes)
  deriving DecidableEq

structure Server (n : Nat) where
  slots : Fin n → ConnectionSlot := fun _ => {}
  freeSlotIds : List (Fin n) := List.finRange n
  nextSessionId : Nat := 1
  ackBarrier : AckBarrier Message := {}
  store : TracedStore := {}
  queue : SubmissionQueue (Nat × SubmissionTask) := {}
  stopped : Bool := false
  wakeCounter : Nat := 0
  errno : Errno := .other 0
  terminated : Bool := false
  conn : Fin n → Nat := fun _ => 0
  accepted : Nat := 0
  submissions : Nat := 0
  unconsumed : Fin n → Nat := fun _ => 0
  trace : List Event := []

/-- The caller of a getter: `populate_socket_sets` or an event handler. -/
inductive Site where
  | populate | handler
  deriving DecidableEq

/-- `FD_SETSIZE`: an `fd_set` has a bit for every descriptor below it. -/
def fdSetSize : Int := 1024

/-- The sets a successful `select` returns. -/
structure ReadySets where
  reads : List Int
  writes : List Int
  wake : Bool
  listening : Bool

inductive ServerCall (n : Nat) where
  | getFd (site : Site) (i : Fin n)
  | isReadable (i : Fin n)
  | isWritable (site : Site) (i : Fin n)
  | select (reads writes : List Int)
  | drainWake
  | accept
  | acquireSlot (fd : Int)
  | rejectClient (fd : Int) (frame : Bytes)
  | releaseSlot (i : Fin n)
  | readMessage (i : Fin n)
  | setStatus (i : Fin n) (status : ConnectionSlotStatus)
  | handleCompleteMessage (i : Fin n) (messageBody : Bytes)
  | hasPendingResponse (i : Fin n)
  | copyPendingResponse (i : Fin n)
  | send (i : Fin n) (data : Bytes)
  | consumePendingResponse (i : Fin n) (bytes : Nat)
  | getSessionId (i : Fin n)
  | setPendingResponse (i : Fin n) (message : Message)
  | setPendingResponseIfSession (i : Fin n) (sessionId : Nat) (message : Message)
  | markWaiting (replyChannelId : Bytes)
  | release (replyChannelId : Bytes)
  | tryDefer (replyChannelId : Bytes) (message : Message)
  | store (call : StoreCall)
  | push (i : Fin n) (task : SubmissionTask)
  | pop
  | isStopping
  | exchangeStopped
  | shutdownQueue
  | wake
  | terminate

@[reducible] def ServerCall.Reply {n : Nat} : ServerCall n → Type
  | .getFd _ _ => Int
  | .isReadable _ => Bool
  | .isWritable _ _ => Bool
  | .select _ _ => Except Errno ReadySets
  | .accept => Option Nat
  | .acquireSlot _ => Option (Fin n)
  | .readMessage _ => Int × Option Bytes
  | .hasPendingResponse _ => Bool
  | .copyPendingResponse _ => Option Bytes
  | .send _ _ => Int × Errno
  | .consumePendingResponse _ _ => Bool
  | .getSessionId _ => Nat
  | .setPendingResponseIfSession _ _ _ => Bool
  | .release _ => List Message
  | .tryDefer _ _ => Bool
  | .store call => call.Reply
  | .push _ _ => Option Nat
  | .pop => Option (Nat × SubmissionTask)
  | .isStopping => Bool
  | .exchangeStopped => Bool
  | _ => Unit

/-- What the environment decides inside a call. -/
inductive ServerInput where
  | quiet
  | select (readReady writeReady : List Int) (listening : Bool)
  | selectFailed (errno : Errno)
  | accept (fd : Option Nat)
  | read (outcome : ReadOutcome)
  | send (outcome : SendOutcome)
  | store (input : StoreInput)

namespace Server

variable {n : Nat}

def record (s : Server n) (e : Event) : Server n := { s with trace := s.trace ++ [e] }

def setSlot (s : Server n) (i : Fin n) (slot : ConnectionSlot) : Server n :=
  { s with slots := Function.update s.slots i slot }

/-- `register_client_socket` takes the next session id whether or not a slot is free. -/
def acquireSlot (s : Server n) (fd : Int) : Option (Fin n) × Server n :=
  let s' := { s with
    nextSessionId := (s.nextSessionId + 1) % 2 ^ 64
    accepted := s.accepted + 1 }
  match s.freeSlotIds with
  | [] => (none, s')
  | i :: rest => (some i, { s' with
      freeSlotIds := rest
      slots := Function.update s.slots i ((s.slots i).init fd s.nextSessionId)
      conn := Function.update s.conn i (s.accepted + 1)
      unconsumed := Function.update s.unconsumed i 0 })

def releaseSlot (s : Server n) (i : Fin n) : Server n :=
  if (s.slots i).fd = 0 then s
  else { s with
    freeSlotIds := s.freeSlotIds ++ [i]
    slots := Function.update s.slots i (s.slots i).clear
    conn := Function.update s.conn i 0
    unconsumed := Function.update s.unconsumed i 0 }

/-- `select` blocks while nothing in its sets is ready. `FD_ISSET` on a descriptor the sets
have no bit for reads what lies beyond them: the environment decides. -/
def select (s : Server n) (reads writes readReady writeReady : List Int) (listening : Bool) :
    Option ReadySets :=
  let readyReads := reads.filter (· ∈ readReady)
  let readyWrites := writes.filter (· ∈ writeReady)
  let wake : Bool := 0 < s.wakeCounter
  if readyReads = [] ∧ readyWrites = [] ∧ wake = false ∧ listening = false then none
  else some {
    reads := readyReads ++ readReady.filter (fdSetSize ≤ ·)
    writes := readyWrites ++ writeReady.filter (fdSetSize ≤ ·)
    wake := wake
    listening := listening }

def readMessage (s : Server n) (i : Fin n) (outcome : ReadOutcome) :
    (Int × Option Bytes) × Server n :=
  let r := (s.slots i).readMessage outcome
  match outcome with
  | .failed _ => (r.1, s.setSlot i r.2)
  | .bytes chunk => (r.1, (s.setSlot i r.2).record (.received (s.conn i) chunk r.1.1 r.1.2))

/-- The server after a `send`: the errors set `errno`, the bytes taken are recorded. -/
def afterSend (s : Server n) (i : Fin n) (r : Int × Bytes × Option Errno) :
    (Int × Errno) × Server n :=
  ((r.1, r.2.2.getD s.errno),
    { s with
      errno := r.2.2.getD s.errno
      unconsumed := Function.update s.unconsumed i (s.unconsumed i + r.2.1.length)
      trace := s.trace ++ [.sent (s.conn i) r.2.1] })

def send (s : Server n) (i : Fin n) (data : Bytes) (outcome : SendOutcome) :
    (Int × Errno) × Server n := s.afterSend i (ConnectionSlot.send data outcome)

def consumePendingResponse (s : Server n) (i : Fin n) (bytes : Nat) : Bool × Server n :=
  let r := (s.slots i).consumePendingResponse bytes
  (r.1, { s with
    slots := Function.update s.slots i r.2
    unconsumed := Function.update s.unconsumed i 0 })

def setPendingResponse (s : Server n) (i : Fin n) (message : Message) : Server n :=
  (s.setSlot i ((s.slots i).setPendingResponse message.body)).record
    (.appended (s.conn i) message)

def setPendingResponseIfSession (s : Server n) (i : Fin n) (sessionId : Nat)
    (message : Message) : Bool × Server n :=
  let r := (s.slots i).setPendingResponseIfSession sessionId message.body
  if r.1 then (true, (s.setSlot i r.2).record (.appended (s.conn i) message)) else (false, s)

def push (s : Server n) (i : Fin n) (task : SubmissionTask) : Option Nat × Server n :=
  let r := s.queue.push (s.submissions, task)
  if r.1 then
    (some s.submissions, { s with
      queue := r.2
      submissions := s.submissions + 1
      trace := s.trace ++ [.submitted s.submissions (s.conn i) task] })
  else (none, s)

/-- One atomic call; `none` when it blocks or the input is not one it takes. -/
def perform (cfg : CleanupConfig) : (o : ServerCall n) → ServerInput → Server n →
    Option (o.Reply × Server n)
  | .getFd _ i, _, s => some ((s.slots i).fd, s)
  | .isReadable i, _, s => some (decide ((s.slots i).status = .readable), s)
  | .isWritable _ i, _, s => some (decide ((s.slots i).status = .writable), s)
  | .select reads writes, .select readReady writeReady listening, s =>
      (s.select reads writes readReady writeReady listening).map fun r => (.ok r, s)
  | .select _ _, .selectFailed errno, s => some (.error errno, s)
  | .drainWake, _, s => some ((), { s with wakeCounter := 0 })
  | .accept, .accept fd, s => some (fd, s)
  | .acquireSlot fd, _, s => some (s.acquireSlot fd)
  | .rejectClient _ _, _, s => some ((), s)
  | .releaseSlot i, _, s => some ((), s.releaseSlot i)
  | .readMessage i, .read outcome, s => some (s.readMessage i outcome)
  | .setStatus i status, _, s => some ((), s.setSlot i ((s.slots i).setStatus status))
  | .handleCompleteMessage i messageBody, _, s =>
      some ((), s.record (.handled (s.conn i) messageBody))
  | .hasPendingResponse i, _, s => some ((s.slots i).hasPendingResponse, s)
  | .copyPendingResponse i, _, s => some ((s.slots i).copyPendingResponse, s)
  | .send i data, .send (.accepted count), s =>
      if count ≤ data.length then some (s.send i data (.accepted count)) else none
  | .send i data, .send (.failed errno), s => some (s.send i data (.failed errno))
  | .consumePendingResponse i bytes, _, s => some (s.consumePendingResponse i bytes)
  | .getSessionId i, _, s => some ((s.slots i).sessionId, s)
  | .setPendingResponse i message, _, s => some ((), s.setPendingResponse i message)
  | .setPendingResponseIfSession i sessionId message, _, s =>
      some (s.setPendingResponseIfSession i sessionId message)
  | .markWaiting channel, _, s =>
      some ((), { s with ackBarrier := s.ackBarrier.markWaiting channel })
  | .release channel, _, s =>
      some ((s.ackBarrier.release channel).1,
        { s with
          ackBarrier := (s.ackBarrier.release channel).2
          trace := s.trace ++ [.released channel] })
  | .tryDefer channel message, _, s =>
      some ((s.ackBarrier.tryDefer channel message).1,
        { s with ackBarrier := (s.ackBarrier.tryDefer channel message).2 })
  | .store call, .store input, s =>
      some ((Pipeline.perform cfg call input s.store).1,
        { s with store := (Pipeline.perform cfg call input s.store).2 })
  | .push i task, _, s => some (s.push i task)
  | .pop, _, s => s.queue.pop.map fun r => (r.1, { s with queue := r.2 })
  | .isStopping, _, s => some (s.stopped, s)
  | .exchangeStopped, _, s => some (!s.stopped, { s with stopped := true })
  | .shutdownQueue, _, s => some ((), { s with queue := s.queue.close })
  | .wake, _, s =>
      some ((), { s with
        wakeCounter := if s.wakeCounter < 2 ^ 64 - 2 then s.wakeCounter + 1 else s.wakeCounter })
  | .terminate, _, s => some ((), { s with terminated := true })
  | _, _, _ => none

end Server

/-- Once the process is terminated nothing runs. -/
def serverMachine (cfg : CleanupConfig) (n : Nat) : Machine (Server n) ServerInput where
  Op := ServerCall n
  Res := ServerCall.Reply
  exec o e s := if s.terminated then none else Server.perform cfg o e s

end JudgeServer.Network
