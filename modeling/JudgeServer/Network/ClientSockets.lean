import JudgeServer.Network.Server
import JudgeServer.Network.Responders

/-!
# The threads of the server

`network/ClientSockets.cpp`, `network/ConnectionRegistry.cpp`,
`network/SubmissionRequestHandler.cpp`, `network/TcpServer.cpp` and
`dispatch/JudgeWorkerPool.cpp` as programs of atomic calls: one round of the event loop,
and one turn of a worker's loop. An exception that leaves the event loop ends it and
destroys the worker pool; one that leaves a worker terminates the process.
-/

namespace JudgeServer.Network

open JudgeServer.Common
open JudgeServer.Dispatch
open JudgeServer.Lib.Framing (frame)
open JudgeServer.Lib.Interleave
open JudgeServer.Pipeline
open JudgeServer.Protocol

inductive ServerError where
  | json (error : JsonError)
  | outOfRange

/-- A piece of the server's code: atomic calls, and possibly an exception. -/
abbrev ServerM (cfg : CleanupConfig) (n : Nat) := ExceptT ServerError (Prog (serverMachine cfg n))

section Programs

variable {cfg : CleanupConfig} {n : Nat}

def call (o : ServerCall n) : ServerM cfg n o.Reply := ExceptT.lift (Prog.op (serverMachine cfg n) o)

/-- An encoder of `JudgeProtocol`. -/
def encoding (x : Except JsonError Bytes) : ServerM cfg n Bytes :=
  ExceptT.mk (pure (x.mapError .json))

/-- `SubmissionService::query`. -/
def query (id : Int) : Prog (serverMachine cfg n) (Option SubmissionResult) :=
  Prog.op (serverMachine cfg n) (.store (.getResult id))

/-- `FD_SET`. A descriptor the set has no bit for is undefined behaviour: it sets none. -/
def fdSet (fds : List Int) (fd : Int) : List Int := if fd < fdSetSize then fds ++ [fd] else fds

/-- `ConnectionRegistry::populate_socket_sets`, from a given slot on. -/
def populateSocketSets : List (Fin n) → List Int → List Int → ServerM cfg n (List Int × List Int)
  | [], reads, writes => pure (reads, writes)
  | i :: rest, reads, writes => do
      let fd ← call (.getFd .populate i)
      if fd = 0 then populateSocketSets rest reads writes
      else if ← call (.isReadable i) then populateSocketSets rest (fdSet reads fd) writes
      else if ← call (.isWritable .populate i) then populateSocketSets rest reads (fdSet writes fd)
      else populateSocketSets rest reads writes

def queueImmediateResponse (i : Fin n) (response : Message) : ServerM cfg n Unit := do
  call (.setPendingResponse i response)
  call (.setStatus i .writable)

/-- The slot and session a channel names, if the slot exists. -/
def resolveReplyChannelForDelivery (n : Nat) (replyChannelId : Bytes) : Option (Fin n × Nat) := do
  let replyChannel ← ReplyChannel.parse replyChannelId
  if toInt32 n ≤ replyChannel.slotId then none
  else if h : replyChannel.slotId.toNat < n then
    some (⟨replyChannel.slotId.toNat, h⟩, replyChannel.sessionId)
  else none

def queueProtocolResponseForChannel (replyChannelId : Bytes) (response : Message) :
    ServerM cfg n Unit := do
  if ← call (.tryDefer replyChannelId response) then pure ()
  else
    match resolveReplyChannelForDelivery n replyChannelId with
    | none => pure ()
    | some (i, sessionId) =>
        if ← call (.setPendingResponseIfSession i sessionId response) then call .wake
        else pure ()

/-- The submission id with the number of the accepted submission. -/
def submitAsync (i : Fin n) (request : SubmissionRequest) (replyChannelId : Bytes) :
    ServerM cfg n (Option (Int × Nat)) := do
  let submissionId : Int ← call (.store (.createSubmission request))
  if submissionId ≤ 0 then pure none
  else
    match ← call (.push i ⟨submissionId, request, replyChannelId⟩) with
    | none => pure none
    | some ticket => pure (some (submissionId, ticket))

/-- The immediate response and the messages put aside meanwhile. -/
def submitEnsuringAckFirst (i : Fin n) (request : SubmissionRequest) (replyChannelId : Bytes) :
    ServerM cfg n (Message × List Message) := do
  call (.markWaiting replyChannelId)
  match ← submitAsync i request replyChannelId with
  | none =>
      let response ← encoding (encodeError (ascii "submission queue unavailable"))
      let deferredMessages ← call (.release replyChannelId)
      pure (⟨response, .reply⟩, deferredMessages)
  | some (submissionId, ticket) =>
      let response ← encoding (encodeSubmissionAck submissionId)
      let deferredMessages ← call (.release replyChannelId)
      pure (⟨response, .ack ticket⟩, deferredMessages)

def queueDeferredMessages (replyChannelId : Bytes) : List Message → ServerM cfg n Unit
  | [] => pure ()
  | msg :: rest => do
      queueProtocolResponseForChannel replyChannelId msg
      queueDeferredMessages replyChannelId rest

def handleSubmitMessage (i : Fin n) (request : SubmissionRequest) : ServerM cfg n Unit := do
  let sessionId ← call (.getSessionId i)
  let replyChannelId := ReplyChannel.toString ⟨toInt32 i, sessionId⟩
  let submitResult ← submitEnsuringAckFirst i request replyChannelId
  queueImmediateResponse i submitResult.1
  queueDeferredMessages replyChannelId submitResult.2

def handleQueryMessage (i : Fin n) (request : QueryResultRequest) : ServerM cfg n Unit := do
  let response ← ExceptT.adapt .json (handleQuery query request)
  queueImmediateResponse i ⟨response, .reply⟩

def handleQueryOrBadRequest (parse : JsonParse) (i : Fin n) (messageBody : Bytes) :
    ServerM cfg n Unit := do
  match decodeQueryRequest parse messageBody with
  | some request => handleQueryMessage i request
  | none =>
      let response ← encoding (encodeError (ascii "bad request"))
      queueImmediateResponse i ⟨response, .reply⟩

def handleCompleteMessage (parse : JsonParse) (i : Fin n) (messageBody : Bytes) :
    ServerM cfg n Unit := do
  call (.handleCompleteMessage i messageBody)
  match decodeRequest parse messageBody with
  | some request => handleSubmitMessage i request
  | none => handleQueryOrBadRequest parse i messageBody

/-- `ConnectionSlot::read_message`, with the lock it takes at its end. -/
def readMessage (i : Fin n) : ServerM cfg n (Int × Option Bytes) := do
  let r ← call (.readMessage i)
  match r.2 with
  | none => pure r
  | some _ =>
      call (.setStatus i .idle)
      pure r

def handleReadEvent (parse : JsonParse) (i : Fin n) : ServerM cfg n Unit := do
  let _ ← call (.getFd .handler i)
  let (bytesRead, message) ← readMessage i
  if bytesRead = 0 then call (.releaseSlot i)
  else if bytesRead < 0 then call (.releaseSlot i)
  else
    match message with
    | some messageBody => handleCompleteMessage parse i messageBody
    | none => pure ()

def handleWriteEvent (i : Fin n) : ServerM cfg n Unit := do
  let _ ← call (.getFd .handler i)
  if ← call (.isWritable .handler i) then
    if ← call (.hasPendingResponse i) then
      match ← call (.copyPendingResponse i) with
      | none => throw .outOfRange
      | some resultData =>
          let (bytesWrite, errno) ← call (.send i resultData)
          if bytesWrite < 0 then
            if errno = .again then pure () else call (.releaseSlot i)
          else if ← call (.consumePendingResponse i bytesWrite.toNat) then
            call (.setStatus i .readable)
          else pure ()
    else call (.setStatus i .readable)
  else pure ()

/-- The body of the loop in `handle_ready_events`. -/
def handleSlotEvents (parse : JsonParse) (sets : ReadySets) (i : Fin n) : ServerM cfg n Unit := do
  let clientSocket ← call (.getFd .handler i)
  if clientSocket = 0 then pure ()
  else if clientSocket ∈ sets.reads then handleReadEvent parse i
  else if clientSocket ∈ sets.writes then handleWriteEvent i
  else pure ()

/-- `handle_ready_events`, from a given slot on. -/
def handleReadyEvents (parse : JsonParse) (sets : ReadySets) : List (Fin n) → ServerM cfg n Unit
  | [] => pure ()
  | i :: rest => do
      handleSlotEvents parse sets i
      handleReadyEvents parse sets rest

def registerClientSocket (clientSocket : Int) : ServerM cfg n Unit := do
  match ← call (.acquireSlot clientSocket) with
  | some _ => pure ()
  | none =>
      let response ← encoding (encodeError
        (ascii "judge server is busy, too many active connections"))
      call (.rejectClient clientSocket (frame response))

def drainWakeFd (sets : ReadySets) : ServerM cfg n Unit :=
  if sets.wake then call .drainWake else pure ()

def acceptClient (sets : ReadySets) : ServerM cfg n Unit :=
  if sets.listening then do
    match ← call .accept with
    | none => pure ()
    | some clientSocket => registerClientSocket clientSocket
  else pure ()

/-- The loop over the `FD_SETSIZE` bits of both sets; the server's own two are left out. -/
def maxFd (reads writes : List Int) : Int :=
  ((reads ++ writes).filter (· < fdSetSize)).foldl max 0

/-- The members of a set that `select` looks at. -/
def below (nfds : Int) (fds : List Int) : List Int := fds.filter (· < nfds)

/-- One round of `TcpServer::start`; `false` when the loop is left. -/
def eventRound (parse : JsonParse) : ServerM cfg n Bool := do
  let (reads, writes) ← populateSocketSets (List.finRange n) [] []
  let nfds := maxFd reads writes + 1
  match ← call (.select (below nfds reads) (below nfds writes)) with
  | .error errno => pure (decide (errno = .interrupted))
  | .ok sets =>
      drainWakeFd sets
      acceptClient sets
      handleReadyEvents parse sets (List.finRange n)
      pure true

/-- `JudgeWorkerPool::stop`, without the joins. -/
def stopPool : Prog (serverMachine cfg n) Unit := do
  let first : Bool ← Prog.op (serverMachine cfg n) .exchangeStopped
  if first then Prog.op (serverMachine cfg n) .shutdownQueue else pure ()

/-- A round of the event loop, and what `main` does once it is over. -/
def networkRound (parse : JsonParse) : Prog (serverMachine cfg n) Bool := do
  match ← (eventRound parse).run with
  | .ok true => pure true
  | _ =>
      stopPool
      pure false

/-- An event of a worker: the responder's message, if any, goes to the task's channel. -/
def notify (ticket : Nat) (task : SubmissionTask)
    (responder : SubmissionTask → ExceptT JsonError (Prog (serverMachine cfg n)) (Option Bytes)) :
    ServerM cfg n Unit := do
  if ← call .isStopping then pure ()
  else if ← call .isStopping then pure ()
  else
    match ← ExceptT.adapt .json (responder task) with
    | none => pure ()
    | some response => queueProtocolResponseForChannel task.replyChannelId ⟨response, .event ticket⟩

/-- `ResultStore::updateResult` as a call of the server. -/
def persist (submissionId : Int) (result : SubmissionResult) :
    ExceptT StdException (Prog (serverMachine cfg n)) Bool :=
  ExceptT.lift (Prog.op (serverMachine cfg n) (.store (.updateResult submissionId result)))

/-- What a worker does with a task. -/
def workTask (env : JudgeEnv) (ticket : Nat) (task : SubmissionTask) : ServerM cfg n Unit := do
  notify ticket task (onSubmissionStarted query)
  let _ ← ExceptT.lift (processSubmission persist env task.submissionId task.request).run
  notify ticket task (onSubmissionFinished query)

/-- One turn of `workerLoop`; each submission meets its own environment. -/
def workerTurn (env : Nat → JudgeEnv) : Prog (serverMachine cfg n) Bool := do
  match ← Prog.op (serverMachine cfg n) .pop with
  | none => pure false
  | some (ticket, task) =>
      match ← (workTask (env ticket) ticket task).run with
      | .ok _ => pure true
      | .error _ =>
          Prog.op (serverMachine cfg n) .terminate
          pure false

end Programs

/-- The network thread, the workers, and a thread that may stop the pool. -/
inductive Thread (ω : Type) where
  | network
  | worker (w : ω)
  | control
  deriving DecidableEq

section System

variable (cfg : CleanupConfig) (n : Nat) (parse : JsonParse) (env : Nat → JudgeEnv) (ω : Type)

def threadBody : Thread ω → Prog (serverMachine cfg n) Bool
  | .network => networkRound parse
  | .worker _ => workerTurn env
  | .control => do
      stopPool
      pure false

abbrev ServerConfig := Config (serverMachine cfg n) (Thread ω) Bool

/-- A started server: no connections, nothing queued. -/
def serverStart : ServerConfig cfg n ω where
  shared := {}
  thread := threadBody cfg n parse env ω

/-- A loop that has not been left goes on. -/
def again (t : Thread ω) (a : Bool) : Option (Prog (serverMachine cfg n) Bool) :=
  if a then some (threadBody cfg n parse env ω t) else none

end System

end JudgeServer.Network
