import JudgeServer.Network.ClientSockets
import JudgeServer.Network.ServerEffect
import JudgeServer.Lib.Watch

/-!
# Rules for the event loop and for the workers

`networkRound` is made of getters, of calls that register a connection, and of the two
event handlers, so a resting assertion of the loop has to be checked for these only.
`WorkerMove` is everything a worker can do to the connections.
-/

namespace JudgeServer.Network

open JudgeServer.Common
open JudgeServer.Dispatch
open JudgeServer.Lib.Interleave
open JudgeServer.Pipeline
open JudgeServer.Protocol

variable {cfg : CleanupConfig} {n : Nat} {parse : JsonParse}

/-- The calls of the loop outside its handlers. -/
def ServerCall.plain : ServerCall n → Bool
  | .getFd _ _ | .isReadable _ | .isWritable _ _ | .select _ _ | .drainWake | .accept
  | .acquireSlot _ | .rejectClient _ _ => true
  | _ => false

/-- The calls of `populate_socket_sets`. -/
def ServerCall.populates : ServerCall n → Bool
  | .getFd .populate _ | .isReadable _ | .isWritable .populate _ => true
  | _ => false

/-- The calls that take a new connection. -/
def ServerCall.registers : ServerCall n → Bool
  | .accept | .acquireSlot _ | .rejectClient _ _ => true
  | _ => false

def ServerCall.selects {n : Nat} : ServerCall n → Bool
  | .select _ _ => true
  | _ => false

/-- The calls that stop the pool. -/
def ServerCall.stops : ServerCall n → Bool
  | .exchangeStopped | .shutdownQueue => true
  | _ => false

/-- The calls of threads other than the network thread. -/
def ServerCall.worker : ServerCall n → Bool
  | .store (.createSubmission _) => false
  | .tryDefer _ _ | .setPendingResponseIfSession _ _ _ | .store _ | .pop | .isStopping
  | .exchangeStopped | .shutdownQueue | .wake | .terminate => true
  | _ => false

/-- The calls by which a submission is accepted. -/
def ServerCall.submits : ServerCall n → Bool
  | .markWaiting _ | .release _ | .store _ | .push _ _ => true
  | _ => false

/-- The calls of a request's way: neither those of the loop outside its handlers that wait
or register, nor those that write. -/
def ServerCall.answers : ServerCall n → Bool
  | .select _ _ | .drainWake | .accept | .acquireSlot _ | .rejectClient _ _ | .send _ _
  | .consumePendingResponse _ _ => false
  | _ => true

/-- The calls by which a complete message is answered. -/
def ServerCall.replies : ServerCall n → Bool
  | .readMessage _ | .releaseSlot _ | .handleCompleteMessage _ _ => false
  | o => o.answers

/-- The calls by which pending output is sent. -/
def ServerCall.flushes : ServerCall n → Bool
  | .getFd _ _ | .isWritable _ _ | .hasPendingResponse _ | .copyPendingResponse _ | .send _ _
  | .consumePendingResponse _ _ | .setStatus _ _ | .releaseSlot _ => true
  | _ => false

/-- The calls that leave every slot as it is. -/
def ServerCall.keepsSlots : ServerCall n → Bool
  | .acquireSlot _ | .releaseSlot _ | .readMessage _ | .setStatus _ _
  | .consumePendingResponse _ _ | .setPendingResponse _ _
  | .setPendingResponseIfSession _ _ _ => false
  | _ => true

inductive NetworkPiece (parse : JsonParse) : {β : Type} → ServerM cfg n β → Prop where
  | plain {o : ServerCall n} (h : o.plain = true) : NetworkPiece parse (call o)
  | readEvent (i : Fin n) : NetworkPiece parse (handleReadEvent parse i)
  | writeEvent (i : Fin n) : NetworkPiece parse (handleWriteEvent i)

theorem madeOf_plain {o : ServerCall n} (h : o.plain = true) :
    MadeOf (NetworkPiece parse) (call o : ServerM cfg n o.Reply) := .piece (.plain h)

theorem madeOf_encoding (x : Except JsonError Bytes) :
    MadeOf (NetworkPiece parse) (encoding x : ServerM cfg n Bytes) := by
  cases x with
  | ok a => exact .done a
  | error e => exact .raise (ServerError.json e)

theorem populateSocketSets_madeOf (slots : List (Fin n)) (reads writes : List Int) :
    MadeOf (NetworkPiece parse)
      (populateSocketSets slots reads writes : ServerM cfg n (List Int × List Int)) := by
  induction slots generalizing reads writes with
  | nil => exact .done _
  | cons i rest ih =>
    refine .step (.plain rfl) ?_
    intro fd
    split
    · exact ih reads writes
    · refine .step (.plain rfl) ?_
      intro readable
      split
      · exact ih _ _
      · refine .step (.plain rfl) ?_
        intro writable
        split
        · exact ih _ _
        · exact ih _ _

theorem handleReadyEvents_madeOf (sets : ReadySets) (slots : List (Fin n)) :
    MadeOf (NetworkPiece parse) (handleReadyEvents parse sets slots : ServerM cfg n Unit) := by
  induction slots with
  | nil => exact .done _
  | cons i rest ih =>
    refine .bind ?_ fun _ => ih
    refine .step (.plain rfl) ?_
    intro clientSocket
    split
    · exact .done _
    · split
      · exact .piece (.readEvent i)
      · split
        · exact .piece (.writeEvent i)
        · exact .done _

theorem acceptClient_madeOf (sets : ReadySets) :
    MadeOf (NetworkPiece parse) (acceptClient sets : ServerM cfg n Unit) := by
  unfold acceptClient
  split
  · refine .step (.plain rfl) ?_
    intro fd
    cases fd with
    | none => exact .done _
    | some clientSocket =>
      refine .step (.plain rfl) ?_
      intro acquired
      cases acquired with
      | some i => exact .done _
      | none => exact .bind (madeOf_encoding _) fun response => madeOf_plain rfl
  · exact .done _

theorem eventRound_madeOf :
    MadeOf (NetworkPiece parse) (eventRound parse : ServerM cfg n Bool) := by
  refine .bind (populateSocketSets_madeOf _ _ _) ?_
  intro populated
  refine .step (.plain rfl) ?_
  intro selected
  cases selected with
  | error errno => exact .done _
  | ok sets =>
    have hdrain : MadeOf (NetworkPiece parse) (drainWakeFd sets : ServerM cfg n Unit) := by
      unfold drainWakeFd
      split
      · exact madeOf_plain rfl
      · exact .done _
    refine .bind hdrain fun _ => .bind (acceptClient_madeOf sets) fun _ => ?_
    exact .bind (handleReadyEvents_madeOf sets _) fun _ => .done true

section Order

variable {R : (o : ServerCall n) → o.Reply → Option (ServerCall n) → Prop}

/-- One round of the loop, if only its handlers make calls after which something must follow. -/
theorem networkRound_leads (hR : Patient (M := serverMachine cfg n) R)
    (hfree : ∀ o : ServerCall n, o.plain = true ∨ o.stops = true → ∀ r next, R o r next)
    (hread : ∀ i, (handleReadEvent parse i : ServerM cfg n Unit).run.Leads R)
    (hwrite : ∀ i, (handleWriteEvent i : ServerM cfg n Unit).run.Leads R) :
    (networkRound parse : Prog (serverMachine cfg n) Bool).Leads R := by
  have hround : (eventRound parse : ServerM cfg n Bool).run.Leads R := by
    apply eventRound_madeOf.leads hR
    intro β q hq
    cases hq with
    | plain ho => exact fun r => ⟨hfree _ (.inl ho) r _, trivial⟩
    | readEvent i => exact hread i
    | writeEvent i => exact hwrite i
  have hstop : (stopPool >>= fun _ => pure false : Prog (serverMachine cfg n) Bool).Leads R := by
    intro first
    apply And.intro (hfree .exchangeStopped (.inr rfl) first _)
    cases first with
    | true => exact fun r => ⟨hfree .shutdownQueue (.inr rfl) r _, trivial⟩
    | false => trivial
  refine hround.bind hR ?_
  intro x
  cases x with
  | error e => exact hstop
  | ok going =>
    cases going with
    | true => trivial
    | false => exact hstop

end Order

section Safety

variable {K : Contract (serverMachine cfg n)} {J E A : Server n → Prop}

theorem perform_of_exec {o : ServerCall n} {e : ServerInput} {s s' : Server n} {r : o.Reply}
    (h : (serverMachine cfg n).exec o e s = some (r, s')) :
    Server.perform cfg o e s = some (r, s') := by
  change (if s.terminated then none else Server.perform cfg o e s) = _ at h
  split at h
  · cases h
  · exact h

/-- The rule for one call of the server. -/
theorem safe_call {α : Type} {Q : Except ServerError α → Server n → Prop} {o : ServerCall n}
    {f : o.Reply → ServerM cfg n α} {s : Server n} (A : Server n → Prop)
    (hs : Stable (K.rely (some o)) A) (h : A s) (hpre : ∀ s, A s → K.pre o s)
    (hk : ∀ s e r s', A s → K.allows o e s → Server.perform cfg o e s = some (r, s') →
      Safe K Q (f r).run s') : Safe K Q (call o >>= f).run s := by
  apply Safe.call A hs h hpre
  intro s e r s' ha hok he
  exact hk s e r s' ha hok (perform_of_exec he)

/-- The same for a call that ends a piece. -/
theorem safe_last {o : ServerCall n} {s : Server n} (A : Server n → Prop)
    (hs : Stable (K.rely (some o)) A) (h : A s) (hpre : ∀ s, A s → K.pre o s)
    (hJ : Stable (K.rely none) J)
    (hk : ∀ s e r s', A s → K.allows o e s → Server.perform cfg o e s = some (r, s') → J s') :
    Safe K (Ends J E) (call o : ServerM cfg n o.Reply).run s := by
  have h' : Safe K (Ends J E) (call o >>= pure : ServerM cfg n o.Reply).run s :=
    safe_call A hs h hpre fun s e r s' ha hok he => .ends_ret hJ (hk s e r s' ha hok he)
  rwa [bind_pure] at h'

/-- An encoder either returns or throws, without touching anything. -/
theorem safe_encoding {α : Type} {Q : Except ServerError α → Server n → Prop}
    {x : Except JsonError Bytes} {f : Bytes → ServerM cfg n α} {s : Server n}
    (hok : ∀ b, Safe K Q (f b).run s) (herr : ∀ e, Safe K Q (.ret (.error e)) s) :
    Safe K Q (encoding x >>= f).run s := by
  cases x with
  | ok b => exact hok b
  | error e => exact herr _

/-- One round of the loop, from its pieces. -/
theorem networkRound_safe (hJ : ∀ o, Stable (K.rely o) J) (hE : ∀ o, Stable (K.rely o) E)
    (hJE : ∀ s, J s → E s)
    (hplain : ∀ o : ServerCall n, o.plain = true → ∀ s, J s → K.pre o s ∧
      ∀ e r s', K.allows o e s → Server.perform cfg o e s = some (r, s') → J s')
    (hread : ∀ i s, J s → Safe K (Ends J E) (handleReadEvent parse i).run s)
    (hwrite : ∀ i s, J s → Safe K (Ends J E) (handleWriteEvent i).run s)
    (hstop : ∀ o : ServerCall n, o.stops = true → ∀ s, E s → K.pre o s ∧
      ∀ e r s', K.allows o e s → Server.perform cfg o e s = some (r, s') → E s')
    {s : Server n} (h : J s) :
    Safe K (fun a s => if a = true then J s else E s) (networkRound parse) s := by
  have hround : Safe K (Ends J E) (eventRound parse : ServerM cfg n Bool).run s := by
    refine eventRound_madeOf.safe (hJ none) (hE none) hJE ?_ h
    intro β q hq s hs
    cases hq with
    | plain ho =>
      exact safe_last J (hJ _) hs (fun s hs => (hplain _ ho s hs).1) (hJ none)
        fun s e r s' hs hok he => (hplain _ ho s hs).2 e r s' hok he
    | readEvent i => exact hread i s hs
    | writeEvent i => exact hwrite i s hs
  apply Safe.bind
  apply hround.mono
  intro x s hx
  have hleave : E s → Safe K (fun a s => if a = true then J s else E s)
      (stopPool >>= fun _ => pure false) s := by
    intro he
    refine Safe.call E (hE _) he (fun s he => (hstop .exchangeStopped rfl s he).1) ?_
    intro s e first s' hs hok hx
    have hs' := (hstop .exchangeStopped rfl s hs).2 e first s' hok (perform_of_exec hx)
    cases first with
    | false => exact .ret E (hE none) hs' fun _ h => h
    | true =>
      refine Safe.call E (hE _) hs' (fun s he => (hstop .shutdownQueue rfl s he).1) ?_
      intro s e r s' hs hok hx
      exact .ret E (hE none) ((hstop .shutdownQueue rfl s hs).2 e r s' hok (perform_of_exec hx))
        fun _ h => h
  cases x with
  | error e => exact hleave hx
  | ok going =>
    cases going with
    | true => exact .ret J (hJ none) hx fun _ h => h
    | false => exact hleave (hJE s hx)

/-- A message for a channel: `A` before and after, `B` once the barrier has let it pass. -/
theorem queueProtocolResponseForChannel_safe {B : Server n → Prop} {channel : Bytes}
    {message : Message} (hA : ∀ o, Stable (K.rely o) A) (hB : ∀ o, Stable (K.rely o) B)
    (hdefer : ∀ s, A s → K.pre (.tryDefer channel message) s ∧
      ∀ e r s', K.allows (.tryDefer channel message) e s →
        Server.perform cfg (.tryDefer channel message) e s = some (r, s') →
        A s' ∧ (r = false → B s'))
    (hdeliver : ∀ i sessionId, resolveReplyChannelForDelivery n channel = some (i, sessionId) →
      ∀ s, B s → K.pre (.setPendingResponseIfSession i sessionId message) s ∧
        ∀ e r s', K.allows (.setPendingResponseIfSession i sessionId message) e s →
          Server.perform cfg (.setPendingResponseIfSession i sessionId message) e s = some (r, s') →
          A s')
    (hwake : ∀ s, A s → K.pre .wake s ∧ ∀ e r s', K.allows .wake e s →
      Server.perform cfg .wake e s = some (r, s') → A s')
    {s : Server n} (h : A s) :
    Safe K (Ends A E) (queueProtocolResponseForChannel channel message : ServerM cfg n Unit).run s := by
  refine safe_call A (hA _) h (fun s hs => (hdefer s hs).1) ?_
  intro s e deferred s' hs hok he
  obtain ⟨hs', hpass⟩ := (hdefer s hs).2 e deferred s' hok he
  cases deferred with
  | true => exact .ends_ret (hA none) hs'
  | false =>
    have hb := hpass rfl
    cases hr : resolveReplyChannelForDelivery n channel with
    | none => exact .ends_ret (hA none) hs'
    | some target =>
      obtain ⟨i, sessionId⟩ := target
      refine safe_call B (hB _) hb (fun s hs => (hdeliver i sessionId hr s hs).1) ?_
      intro s e delivered s' hs hok he
      have hs' := (hdeliver i sessionId hr s hs).2 e delivered s' hok he
      cases delivered with
      | true =>
        exact safe_last A (hA _) hs' (fun s hs => (hwake s hs).1) (hA none)
          fun s e r s' hs hok he => (hwake s hs).2 e r s' hok he
      | false => exact .ends_ret (hA none) hs'

end Safety

section Workers

theorem queueProtocolResponseForChannel_uses (channel : Bytes) (message : Message) :
    (queueProtocolResponseForChannel channel message : ServerM cfg n Unit).run.Uses
      (fun o : ServerCall n => o.worker = true) := by
  refine ⟨rfl, ?_⟩
  intro deferred
  cases deferred with
  | true => trivial
  | false =>
    cases hr : resolveReplyChannelForDelivery n channel with
    | none => trivial
    | some target =>
      refine ⟨rfl, ?_⟩
      intro delivered
      cases delivered with
      | true => exact ⟨rfl, fun _ => trivial⟩
      | false => trivial

theorem notify_uses (ticket : Nat) (task : SubmissionTask)
    {responder : SubmissionTask → ExceptT JsonError (Prog (serverMachine cfg n)) (Option Bytes)}
    (h : (responder task).run.Uses fun o : ServerCall n => o.worker = true) :
    (notify ticket task responder : ServerM cfg n Unit).run.Uses
      (fun o : ServerCall n => o.worker = true) := by
  refine ⟨rfl, ?_⟩
  intro poolStopping
  cases poolStopping with
  | true => trivial
  | false =>
    refine ⟨rfl, ?_⟩
    intro stopping
    cases stopping with
    | true => trivial
    | false =>
      refine Prog.Uses.except_bind (h.adapt _) ?_
      intro response
      cases response with
      | none => trivial
      | some body => exact queueProtocolResponseForChannel_uses _ _

theorem workTask_uses (env : JudgeEnv) (ticket : Nat) (task : SubmissionTask) :
    (workTask env ticket task : ServerM cfg n Unit).run.Uses
      (fun o : ServerCall n => o.worker = true) := by
  refine Prog.Uses.except_bind (notify_uses ticket task ⟨rfl, fun _ => trivial⟩) fun _ => ?_
  refine Prog.Uses.except_bind ?_ fun _ => notify_uses ticket task ⟨rfl, fun _ => trivial⟩
  have hpersist : ∀ r, (persist task.submissionId r :
      ExceptT StdException (Prog (serverMachine cfg n)) Bool).run.Uses
        (fun o : ServerCall n => o.worker = true) := fun _ => ⟨rfl, fun _ => trivial⟩
  exact (processSubmission_uses hpersist env task.request).bind fun _ => trivial

theorem workerTurn_uses (env : Nat → JudgeEnv) :
    (workerTurn env : Prog (serverMachine cfg n) Bool).Uses
      (fun o : ServerCall n => o.worker = true) := by
  refine ⟨rfl, ?_⟩
  intro popped
  cases popped with
  | none => trivial
  | some taken =>
    refine (workTask_uses _ _ _).bind ?_
    intro x
    cases x with
    | ok a => trivial
    | error e => exact ⟨rfl, fun _ => trivial⟩

/-- The calls a thread may make. -/
def callsOf {ω : Type} : Thread ω → ServerCall n → Prop
  | .network, _ => True
  | .worker _, o => o.worker = true
  | .control, o => o.stops = true

theorem worker_of_callsOf {ω : Type} {t : Thread ω} (ht : t ≠ .network) {o : ServerCall n}
    (h : callsOf t o) : o.worker = true := by
  cases t with
  | network => exact absurd rfl ht
  | worker w => exact h
  | control =>
    change o.stops = true at h
    cases o with
    | exchangeStopped | shutdownQueue => rfl
    | _ => cases h

theorem threadBody_uses {env : Nat → JudgeEnv} {ω : Type} (t : Thread ω) :
    (threadBody cfg n parse env ω t).Uses (callsOf t) := by
  cases t with
  | network => exact (Prog.Uses.trivial _).mono fun _ _ => trivial
  | worker w => exact workerTurn_uses env
  | control =>
    refine ⟨rfl, ?_⟩
    intro first
    cases first with
    | true => exact ⟨rfl, fun _ => trivial⟩
    | false => trivial

theorem again_eq_some {env : Nat → JudgeEnv} {ω : Type} {t : Thread ω} {a : Bool}
    {p : Prog (serverMachine cfg n) Bool} (h : again cfg n parse env ω t a = some p) :
    a = true ∧ p = threadBody cfg n parse env ω t := by
  unfold again at h
  split at h
  · next ha => exact ⟨ha, (Option.some.inj h).symm⟩
  · cases h

theorem again_uses {env : Nat → JudgeEnv} {ω : Type} (t : Thread ω) (a : Bool)
    (p : Prog (serverMachine cfg n) Bool) (hp : again cfg n parse env ω t a = some p) :
    p.Uses (callsOf t) := by
  obtain ⟨-, rfl⟩ := again_eq_some hp
  exact threadBody_uses t

/-- Threads other than the network thread make worker calls only. -/
theorem worker_of_reach {env : Nat → JudgeEnv} {ω : Type} [DecidableEq ω]
    {ok : ServerConfig cfg n ω → Thread ω → ServerInput → Prop} {c : ServerConfig cfg n ω}
    (hr : Reach (again cfg n parse env ω) ok (serverStart cfg n parse env ω) c) {t : Thread ω}
    (ht : t ≠ .network) {o : ServerCall n} (ho : (c.thread t).head = some o) :
    o.worker = true :=
  worker_of_callsOf ht ((Reach.uses threadBody_uses again_uses hr t).head ho)

/-- What a worker's call can do to the connections: append a response to a slot in use
and make it writable. -/
structure WorkerMove (s s' : Server n) : Prop where
  slots : ∀ i, s'.slots i = s.slots i ∨ ((s.slots i).fd ≠ 0 ∧
    ∃ body, s'.slots i = ((s.slots i).queueResponseLocked body).setStatus .writable)
  conn : s'.conn = s.conn
  unconsumed : s'.unconsumed = s.unconsumed
  awaiting : s'.ackBarrier.awaiting = s.ackBarrier.awaiting
  trace : ∃ es, s'.trace = s.trace ++ es ∧ ∀ e ∈ es, ∃ c m, e = Event.appended c m

theorem WorkerMove.same {s s' : Server n} (h : SameView s s') : WorkerMove s s' where
  slots i := .inl (congrFun h.slots i)
  conn := h.conn
  unconsumed := h.unconsumed
  awaiting := by rw [h.ackBarrier]
  trace := ⟨[], by rw [h.trace, List.append_nil], by simp⟩

theorem perform_worker {o : ServerCall n} (ho : o.worker = true) {e : ServerInput}
    {s s' : Server n} {r : o.Reply} (h : Server.perform cfg o e s = some (r, s')) :
    WorkerMove s s' := by
  cases perform_effect h with
  | quiet same => exact .same same
  | delivered i sessionId message _ _ session used =>
    refine ⟨?_, rfl, rfl, rfl, [_], rfl, ?_⟩
    · intro j
      by_cases hj : j = i
      · subst hj
        exact .inr ⟨used, message.body, by simp [Server.setSlot, Server.record]⟩
      · exact .inl (by simp [Server.setSlot, Server.record, hj])
    · intro e he
      exact ⟨_, _, List.mem_singleton.mp he⟩
  | deferred channel message =>
    exact ⟨fun _ => .inl rfl, rfl, rfl, s.ackBarrier.awaiting_tryDefer channel message, [],
      by rw [List.append_nil], by simp⟩
  | popped =>
    exact ⟨fun _ => .inl rfl, rfl, rfl, rfl, [], by rw [List.append_nil], by simp⟩
  | _ => cases ho

end Workers

section Submit

theorem encoding_uses {P : ServerCall n → Prop} (x : Except JsonError Bytes) :
    (encoding x : ServerM cfg n Bytes).run.Uses P := by
  cases x with
  | ok b => trivial
  | error e => trivial

theorem submitEnsuringAckFirst_uses (i : Fin n) (request : SubmissionRequest) (channel : Bytes) :
    (submitEnsuringAckFirst i request channel : ServerM cfg n (Message × List Message)).run.Uses
      (fun o : ServerCall n => o.submits = true) := by
  refine ⟨rfl, fun _ => ?_⟩
  have hsubmit : (submitAsync i request channel : ServerM cfg n (Option (Int × Nat))).run.Uses
      (fun o : ServerCall n => o.submits = true) := by
    refine ⟨rfl, ?_⟩
    intro (submissionId : Int)
    change Prog.Uses _ (ExceptT.run (if submissionId ≤ 0 then _ else _))
    split
    · trivial
    · refine ⟨rfl, fun ticket => ?_⟩
      cases ticket with
      | none => trivial
      | some k => trivial
  refine Prog.Uses.except_bind hsubmit ?_
  intro submitted
  cases submitted with
  | none =>
    refine Prog.Uses.except_bind (encoding_uses _) fun _ => ?_
    exact ⟨rfl, fun _ => trivial⟩
  | some accepted =>
    refine Prog.Uses.except_bind (encoding_uses _) fun _ => ?_
    exact ⟨rfl, fun _ => trivial⟩

end Submit

section ReadPath

theorem replies_of_submits {o : ServerCall n} (h : o.submits = true) : o.replies = true := by
  cases o with
  | markWaiting | release | store | push => rfl
  | _ => cases h

theorem replies_of_worker {o : ServerCall n} (h : o.worker = true) : o.replies = true := by
  cases o with
  | tryDefer | setPendingResponseIfSession | store | pop | isStopping | exchangeStopped
  | shutdownQueue | wake | terminate => rfl
  | _ => cases h

theorem answers_of_replies {o : ServerCall n} (h : o.replies = true) : o.answers = true := by
  cases o with
  | readMessage | releaseSlot | handleCompleteMessage => rfl
  | _ => exact h

theorem queueImmediateResponse_uses (i : Fin n) (message : Message) :
    (queueImmediateResponse i message : ServerM cfg n Unit).run.Uses
      (fun o : ServerCall n => o.replies = true) :=
  ⟨rfl, fun _ => ⟨rfl, fun _ => trivial⟩⟩

theorem queueDeferredMessages_uses (channel : Bytes) (messages : List Message) :
    (queueDeferredMessages channel messages : ServerM cfg n Unit).run.Uses
      (fun o : ServerCall n => o.replies = true) := by
  induction messages with
  | nil => trivial
  | cons msg rest ih =>
    refine Prog.Uses.except_bind ?_ fun _ => ih
    exact (queueProtocolResponseForChannel_uses channel msg).mono fun _ ho => replies_of_worker ho

theorem handleSubmitMessage_uses (i : Fin n) (request : SubmissionRequest) :
    (handleSubmitMessage i request : ServerM cfg n Unit).run.Uses
      (fun o : ServerCall n => o.replies = true) := by
  refine ⟨rfl, fun sessionId => ?_⟩
  refine Prog.Uses.except_bind ?_ fun submitResult => ?_
  · exact (submitEnsuringAckFirst_uses i request _).mono fun _ ho => replies_of_submits ho
  · exact Prog.Uses.except_bind (queueImmediateResponse_uses i _) fun _ =>
      queueDeferredMessages_uses _ _

theorem handleQueryOrBadRequest_uses (i : Fin n) (body : Bytes) :
    (handleQueryOrBadRequest parse i body : ServerM cfg n Unit).run.Uses
      (fun o : ServerCall n => o.replies = true) := by
  unfold handleQueryOrBadRequest
  cases decodeQueryRequest parse body with
  | none =>
    exact Prog.Uses.except_bind (encoding_uses _) fun _ => queueImmediateResponse_uses i _
  | some request =>
    have hquery : (ExceptT.adapt .json (handleQuery query request) :
        ServerM cfg n Bytes).run.Uses (fun o : ServerCall n => o.replies = true) :=
      ⟨rfl, fun _ => trivial⟩
    exact Prog.Uses.except_bind hquery fun _ => queueImmediateResponse_uses i _

/-- A complete message is handed on, and then answered. -/
theorem handleCompleteMessage_uses {P : ServerCall n → Prop} (i : Fin n) (body : Bytes)
    (hentry : P (.handleCompleteMessage i body)) (hP : ∀ o, o.replies = true → P o) :
    (handleCompleteMessage parse i body : ServerM cfg n Unit).run.Uses P := by
  refine ⟨hentry, fun _ => ?_⟩
  cases decodeRequest parse body with
  | some request => exact (handleSubmitMessage_uses i request).mono hP
  | none => exact (handleQueryOrBadRequest_uses i body).mono hP

/-- Reading a request and answering it. -/
theorem handleReadEvent_uses (i : Fin n) :
    (handleReadEvent parse i : ServerM cfg n Unit).run.Uses
      (fun o : ServerCall n => o.answers = true) := by
  refine ⟨rfl, fun fd => ?_⟩
  have hread : (readMessage i : ServerM cfg n (Int × Option Bytes)).run.Uses
      (fun o : ServerCall n => o.answers = true) := by
    refine ⟨rfl, ?_⟩
    intro (r : Int × Option Bytes)
    obtain ⟨totRead, message⟩ := r
    cases message with
    | none => trivial
    | some body => exact ⟨rfl, fun _ => trivial⟩
  refine Prog.Uses.except_bind hread ?_
  intro r
  obtain ⟨bytesRead, message⟩ := r
  change Prog.Uses _ (ExceptT.run (if bytesRead = 0 then _ else _))
  split
  · exact ⟨rfl, fun _ => trivial⟩
  · split
    · exact ⟨rfl, fun _ => trivial⟩
    · cases message with
      | some body => exact handleCompleteMessage_uses i body rfl fun _ ho => answers_of_replies ho
      | none => trivial

theorem handleWriteEvent_uses (i : Fin n) :
    (handleWriteEvent i : ServerM cfg n Unit).run.Uses
      (fun o : ServerCall n => o.flushes = true) := by
  refine ⟨rfl, fun _ => ⟨rfl, ?_⟩⟩
  intro writable
  cases writable with
  | false => trivial
  | true =>
    refine ⟨rfl, ?_⟩
    intro pending
    cases pending with
    | false => exact ⟨rfl, fun _ => trivial⟩
    | true =>
      refine ⟨rfl, ?_⟩
      intro copied
      cases copied with
      | none => trivial
      | some resultData =>
        refine ⟨rfl, ?_⟩
        intro (sent : Int × Errno)
        change Prog.Uses _ (ExceptT.run (if sent.1 < 0 then _ else _))
        split
        · split
          · trivial
          · exact ⟨rfl, fun _ => trivial⟩
        · refine ⟨rfl, ?_⟩
          intro emptied
          cases emptied with
          | true => exact ⟨rfl, fun _ => trivial⟩
          | false => trivial

end ReadPath

section Accept

theorem acceptClient_uses (sets : ReadySets) :
    (acceptClient sets : ServerM cfg n Unit).run.Uses
      (fun o : ServerCall n => o.registers = true) := by
  unfold acceptClient
  split
  · refine ⟨rfl, ?_⟩
    intro fd
    cases fd with
    | none => trivial
    | some clientSocket =>
      refine ⟨rfl, ?_⟩
      intro acquired
      cases acquired with
      | some i => trivial
      | none => exact Prog.Uses.except_bind (encoding_uses _) fun _ => ⟨rfl, fun _ => trivial⟩
  · trivial

end Accept

section Quiet

theorem perform_keepsSlots {o : ServerCall n} (ho : o.keepsSlots = true) {e : ServerInput}
    {s s' : Server n} {r : o.Reply} (h : Server.perform cfg o e s = some (r, s')) :
    s'.slots = s.slots := by
  cases perform_effect h with
  | quiet same => exact same.slots
  | turnedAway | opened | closed | read | status | consumed | appended | delivered => cases ho
  | sent | handled | marked | released | deferred | pushed | popped => rfl

end Quiet

end JudgeServer.Network
