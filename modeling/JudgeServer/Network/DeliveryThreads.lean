import JudgeServer.Network.Delivery

/-!
# The threads keep to their addresses

The network thread and the workers against `Addressed`: each message they hand on is for
the session its submission came from, and the network thread leaves no opened submission
without its ack, except while the ack is its next call.
-/

namespace JudgeServer.Network

open JudgeServer.Common
open JudgeServer.Dispatch
open JudgeServer.Lib.Interleave
open JudgeServer.Pipeline
open JudgeServer.Protocol

variable {cfg : CleanupConfig} {n : Nat} {parse : JsonParse}

/-- The network thread among workers. -/
def networkContract (parse : JsonParse) (cfg : CleanupConfig) (n : Nat) :
    Contract (serverMachine cfg n) where
  allows _ _ _ := True
  rely _ s s' := WorkerMove s s' ∧ Addressed parse s'
  pre o s := Addressed parse s ∧ Obeys parse o s ∧ ∀ ticket, Opened s.trace ticket →
    Acked s.trace ticket ∨ ∃ i body, o = ServerCall.setPendingResponse i ⟨body, .ack ticket⟩

/-- A worker among all others. -/
def workerContract (parse : JsonParse) (cfg : CleanupConfig) (n : Nat) :
    Contract (serverMachine cfg n) where
  allows _ _ _ := True
  rely _ s s' := Addressed parse s' ∧ s.trace <+: s'.trace
  pre o s := Addressed parse s ∧ Obeys parse o s

section Stability

theorem stable_answered (o : Option (ServerCall n)) :
    Stable ((networkContract parse cfg n).rely o) (Answered parse) :=
  fun _ _ h hr => h.adds hr.2 hr.1.adds

theorem stable_guarded (o : Option (ServerCall n)) :
    Stable ((networkContract parse cfg n).rely o) (Guarded parse) :=
  fun _ _ h hr => h.adds hr.2 hr.1.adds

theorem stable_accepted (i : Fin n) (ticket : Nat) (o : Option (ServerCall n)) :
    Stable ((networkContract parse cfg n).rely o) (Accepted parse i ticket) :=
  fun _ _ h hr => h.adds hr.2 hr.1.adds hr.1.conn

theorem WorkerMove.session {s s' : Server n} (h : WorkerMove s s') (i : Fin n) :
    (s'.slots i).sessionId = (s.slots i).sessionId := by
  rcases h.slots i with he | ⟨_, body, he⟩
  · rw [he]
  · rw [he]
    rfl

theorem WorkerMove.received {s s' : Server n} (h : WorkerMove s s') {i : Fin n}
    {request : SubmissionRequest} (hr : ReceivedOn parse (s.conn i) request s.trace) :
    ReceivedOn parse (s'.conn i) request s'.trace := by
  obtain ⟨es, ht, _⟩ := h.trace
  rw [h.conn, ht]
  exact hr.append

theorem WorkerMove.events {s s' : Server n} (h : WorkerMove s s') {channel : Bytes}
    {messages : List Message} (hm : ∀ m ∈ messages, EventFor channel m s.trace) :
    ∀ m ∈ messages, EventFor channel m s'.trace := by
  obtain ⟨es, ht, _⟩ := h.trace
  intro m hmem
  rw [ht]
  exact (hm m hmem).append

end Stability

/-- All messages are for submissions accepted under the channel. -/
structure Holding (parse : JsonParse) (channel : Bytes) (messages : List Message) (s : Server n) :
    Prop extends Answered parse s where
  events : ∀ m ∈ messages, EventFor channel m s.trace

theorem stable_holding (channel : Bytes) (messages : List Message) (o : Option (ServerCall n)) :
    Stable ((networkContract parse cfg n).rely o) (Holding parse channel messages) :=
  fun _ _ h hr => ⟨h.toAnswered.adds hr.2 hr.1.adds, hr.1.events h.events⟩

/-- The message's submission has been opened. -/
def PassedFor (channel : Bytes) (message : Message) (trace : List Event) : Prop :=
  ∃ ticket conn task, message.subject = .event ticket ∧
    Event.submitted ticket conn task ∈ trace ∧ task.replyChannelId = channel ∧ Opened trace ticket

theorem PassedFor.append {channel : Bytes} {message : Message} {trace es : List Event}
    (h : PassedFor channel message trace) : PassedFor channel message (trace ++ es) := by
  obtain ⟨ticket, conn, task, hs, hm, hc, ho⟩ := h
  exact ⟨ticket, conn, task, hs, List.mem_append_left _ hm, hc, ho.append⟩

section Deliver

variable {s s' : Server n} {channel : Bytes} {message : Message}

/-- What the barrier lets pass has been opened. -/
theorem Addressed.passed (h : Addressed parse s) (hev : EventFor channel message s.trace)
    (hn : channel ∉ s.ackBarrier.awaiting) : PassedFor channel message s.trace := by
  obtain ⟨ticket, conn, task, hs, hm, rfl⟩ := hev
  exact ⟨ticket, conn, task, hs, hm, rfl, (h.waiting ticket conn task hm).resolve_right hn⟩

theorem resolve_session {conn : Nat} {i : Fin n} {sessionId : Nat} (hn : Names conn channel)
    (hr : resolveReplyChannelForDelivery n channel = some (i, sessionId)) :
    sessionId = conn % 2 ^ 64 := by
  obtain ⟨slotId, hlo, hhi, rfl⟩ := hn
  unfold resolveReplyChannelForDelivery at hr
  obtain ⟨replyChannel, hparse, hrest⟩ := Option.bind_eq_some_iff.mp hr
  have hsession := ReplyChannel.session_of_parse hlo hhi (Nat.mod_lt _ (by decide)) hparse
  split at hrest
  · cases hrest
  · split at hrest
    · obtain ⟨_, rfl⟩ := Prod.mk.inj (Option.some.inj hrest)
      exact hsession
    · cases hrest

/-- The session a channel is resolved to is that of the submission. -/
theorem Addressed.obeys_deliver (h : Addressed parse s) (hp : PassedFor channel message s.trace)
    {i : Fin n} {sessionId : Nat}
    (hr : resolveReplyChannelForDelivery n channel = some (i, sessionId)) :
    Obeys parse (.setPendingResponseIfSession i sessionId message) s := by
  obtain ⟨ticket, conn, task, hs, hm, rfl, ho⟩ := hp
  exact ⟨ticket, conn, task, hs, hm, resolve_session (h.origin ticket conn task hm).2.1 hr, ho⟩

/-- A message for its channel, from any thread. -/
theorem queueProtocolResponseForChannel_addressed {K : Contract (serverMachine cfg n)}
    {A E : Server n → Prop} (hA : ∀ o, Stable (K.rely o) A)
    (hrely : ∀ o s s', K.rely o s s' → s.trace <+: s'.trace)
    (haddressed : ∀ s, A s → Addressed parse s ∧ EventFor channel message s.trace)
    (hpre : ∀ (o : ServerCall n) s, A s → Obeys parse o s → K.pre o s)
    (hkeep : ∀ (o : ServerCall n) s e r s', A s → Obeys parse o s → o.opens = false →
      Server.perform cfg o e s = some (r, s') → A s') (h : A s) :
    Safe K (Ends A E) (queueProtocolResponseForChannel channel message : ServerM cfg n Unit).run s := by
  have hB : ∀ o, Stable (K.rely o) (fun s => A s ∧ PassedFor channel message s.trace) := by
    intro o s s' hs hr
    obtain ⟨es, ht⟩ := hrely o s s' hr
    exact ⟨hA o s s' hs.1 hr, ht ▸ hs.2.append⟩
  refine queueProtocolResponseForChannel_safe hA hB ?_ ?_ ?_ h
  · intro s hs
    obtain ⟨haddr, hev⟩ := haddressed s hs
    refine ⟨hpre _ s hs hev, ?_⟩
    intro e r s' _ he
    have hs' := hkeep _ s e r s' hs hev rfl he
    refine ⟨hs', ?_⟩
    rintro rfl
    obtain ⟨hrefused, rfl⟩ := Prod.mk.inj (Option.some.inj he)
    exact ⟨hs', haddr.passed hev (AckBarrier.tryDefer_refused hrefused).1⟩
  · intro i sessionId hr s hs
    have hobeys := (haddressed s hs.1).1.obeys_deliver hs.2 hr
    exact ⟨hpre _ s hs.1 hobeys, fun e r s' _ he => hkeep _ s e r s' hs.1 hobeys rfl he⟩
  · intro s hs
    exact ⟨hpre _ s hs trivial, fun e r s' _ he => hkeep .wake s e r s' hs trivial rfl he⟩

end Deliver

section Network

variable {s s' : Server n} {i : Fin n}

theorem Answered.pre (h : Answered parse s) {o : ServerCall n} (ho : Obeys parse o s) :
    (networkContract parse cfg n).pre o s :=
  ⟨h.toAddressed, ho, fun ticket hopen => .inl (h.guarded.opened ticket hopen)⟩

theorem Answered.perform {o : ServerCall n} {e : ServerInput} {r : o.Reply} (h : Answered parse s)
    (ho : Obeys parse o s) (hopen : o.opens = false)
    (he : Server.perform cfg o e s = some (r, s')) : Answered parse s' :=
  h.adds (h.toAddressed.effect ho (perform_effect he)) (effect_adds hopen (perform_effect he))

theorem opens_of_neutral {o : ServerCall n} (ho : o.neutral = true) : o.opens = false := by
  cases o with
  | push | release => cases ho
  | _ => rfl

/-- Part of a handler that carries no message. -/
theorem neutral_answered {α : Type} {p : ServerM cfg n α}
    (hp : p.run.Uses fun o : ServerCall n => o.neutral = true) (h : Answered parse s) :
    Safe (networkContract parse cfg n) (Ends (Answered parse) (Guarded parse)) p.run s := by
  have hsafe : Safe (networkContract parse cfg n) (fun _ => Answered parse) p.run s := by
    refine Safe.of_uses (Answered parse) hp stable_answered h ?_ ?_
    · intro o s ho hs
      exact hs.pre (obeys_of_neutral ho s)
    · intro o s e r s' ho hs _ he
      exact hs.perform (obeys_of_neutral ho s) (opens_of_neutral ho) (perform_of_exec he)
  apply hsafe.mono
  intro x s hs
  cases x with
  | ok a => exact hs
  | error e => exact hs.guarded

theorem handleWriteEvent_neutral :
    (handleWriteEvent i : ServerM cfg n Unit).run.Uses
      (fun o : ServerCall n => o.neutral = true) := by
  refine ⟨rfl, fun _ => ⟨rfl, ?_⟩⟩
  intro writable
  cases writable with
  | false => trivial
  | true =>
    refine ⟨rfl, ?_⟩
    intro pending
    cases pending with
    | false => exact ⟨rfl, fun _ => trivial⟩
    | true =>
      refine ⟨rfl, ?_⟩
      intro copied
      cases copied with
      | none => trivial
      | some data =>
        refine ⟨rfl, ?_⟩
        intro (sent : Int × Errno)
        obtain ⟨bytesWrite, errno⟩ := sent
        change Prog.Uses _ (ExceptT.run (if bytesWrite < 0 then _ else _))
        split
        · split
          · trivial
          · exact ⟨rfl, fun _ => trivial⟩
        · refine ⟨rfl, ?_⟩
          intro emptied
          cases emptied with
          | true => exact ⟨rfl, fun _ => trivial⟩
          | false => trivial

theorem networkRely_trace {o : Option (ServerCall n)} {s s' : Server n}
    (h : (networkContract parse cfg n).rely o s s') : s.trace <+: s'.trace := by
  obtain ⟨es, ht, _⟩ := h.1.trace
  exact ⟨es, ht.symm⟩

theorem Holding.perform {channel : Bytes} {messages : List Message} {o : ServerCall n}
    {e : ServerInput} {r : o.Reply} (h : Holding parse channel messages s)
    (ho : Obeys parse o s) (hopen : o.opens = false)
    (he : Server.perform cfg o e s = some (r, s')) : Holding parse channel messages s' := by
  obtain ⟨es, ht, _⟩ := effect_adds hopen (perform_effect he)
  refine ⟨h.toAnswered.perform ho hopen he, ?_⟩
  intro m hm
  rw [ht]
  exact (h.events m hm).append

theorem queueDeferredMessages_answered {channel : Bytes} {messages : List Message}
    (h : Holding parse channel messages s) :
    Safe (networkContract parse cfg n) (Ends (Answered parse) (Guarded parse))
      (queueDeferredMessages channel messages : ServerM cfg n Unit).run s := by
  induction messages generalizing s with
  | nil => exact .ends_ret (stable_answered none) h.toAnswered
  | cons msg rest ih =>
    have hfirst : Safe (networkContract parse cfg n)
        (Ends (Holding parse channel (msg :: rest)) (Guarded parse))
        (queueProtocolResponseForChannel channel msg : ServerM cfg n Unit).run s := by
      refine queueProtocolResponseForChannel_addressed (stable_holding channel _)
        (fun o s s' => networkRely_trace) ?_ (fun o s hs ho => hs.toAnswered.pre ho)
        (fun o s e r s' hs ho hopen he => hs.perform ho hopen he) h
      intro s hs
      exact ⟨hs.toAddressed, hs.events msg List.mem_cons_self⟩
    refine Safe.ends_bind (stable_guarded none) hfirst ?_
    intro _ s hs
    exact ih ⟨hs.toAnswered, fun m hm => hs.events m (List.mem_cons_of_mem _ hm)⟩

end Network

section Submit

/-- The request was read from slot `i`, whose session is `sessionId`. -/
structure Requesting (parse : JsonParse) (i : Fin n) (request : SubmissionRequest)
    (sessionId : Nat) (s : Server n) : Prop extends Answered parse s where
  received : ReceivedOn parse (s.conn i) request s.trace
  session : (s.slots i).sessionId = sessionId

/-- And its channel awaits an ack. -/
structure Marked (parse : JsonParse) (i : Fin n) (request : SubmissionRequest) (sessionId : Nat)
    (s : Server n) : Prop extends Requesting parse i request sessionId s where
  awaiting : ReplyChannel.toString ⟨toInt32 i, sessionId⟩ ∈ s.ackBarrier.awaiting

variable {s s' : Server n} {i : Fin n} {request : SubmissionRequest} {sessionId : Nat}

theorem stable_requesting (o : Option (ServerCall n)) :
    Stable ((networkContract parse cfg n).rely o) (Requesting parse i request sessionId) := by
  intro s s' h hr
  refine ⟨h.toAnswered.adds hr.2 hr.1.adds, hr.1.received h.received, ?_⟩
  rw [hr.1.session]
  exact h.session

theorem stable_marked (o : Option (ServerCall n)) :
    Stable ((networkContract parse cfg n).rely o) (Marked parse i request sessionId) := by
  intro s s' h hr
  refine ⟨stable_requesting o s s' h.toRequesting hr, ?_⟩
  rw [hr.1.awaiting]
  exact h.awaiting

/-- The submission is accepted and not yet opened. -/
structure Pushed (parse : JsonParse) (i : Fin n) (ticket : Nat) (s : Server n) : Prop
    extends Accepted parse i ticket s, Guarded parse s

theorem stable_pushed (ticket : Nat) (o : Option (ServerCall n)) :
    Stable ((networkContract parse cfg n).rely o) (Pushed parse i ticket) := by
  intro s s' h hr
  have haccepted := stable_accepted i ticket o s s' h.toAccepted hr
  exact ⟨haccepted, (stable_guarded o s s' h.toGuarded hr).opened⟩

/-- After `submitAsync`: refused or accepted. -/
def AfterPush (parse : JsonParse) (i : Fin n) :
    Except ServerError (Option (Int × Nat)) → Server n → Prop
  | .ok none, s => Answered parse s
  | .ok (some (_, ticket)), s => Pushed parse i ticket s
  | .error _, s => Guarded parse s

theorem Marked.pushed {task : SubmissionTask} {r : Option Nat} (h : Marked parse i request sessionId s)
    (ho : Obeys parse (.push i task) s) (he : s.push i task = (r, s')) :
    (r = none ∧ Answered parse s') ∨
      ∃ ticket, r = some ticket ∧ Pushed parse i ticket s' := by
  rcases push_cases he with ⟨rfl, rfl⟩ | ⟨rfl, rfl⟩
  · exact .inl ⟨rfl, h.toAnswered⟩
  · have haddr := h.toAddressed.effect ho (.pushed i task .quiet s)
    refine .inr ⟨s.submissions, rfl, ⟨haddr, ?_, task, by simp⟩, ?_⟩
    · intro ticket conn task' hm hne
      rcases List.mem_append.mp hm with hm | hm
      · exact (h.acked ticket conn task' hm nofun).append
      · obtain ⟨rfl, _, _⟩ := Event.submitted.inj (List.mem_singleton.mp hm)
        exact absurd rfl hne
    · intro ticket hopen
      exact (h.guarded.opened ticket (hopen.of_append (by simp))).append

theorem submitAsync_delivery (h : Marked parse i request sessionId s) :
    Safe (networkContract parse cfg n) (AfterPush parse i)
      (submitAsync i request (ReplyChannel.toString ⟨toInt32 i, sessionId⟩)).run s := by
  refine safe_call (Marked parse i request sessionId) (stable_marked _) h
    (fun s hs => hs.toAnswered.pre trivial) ?_
  intro s e submissionId s' hs _ he
  have hs' : Marked parse i request sessionId s' := by
    have hanswered := hs.toAnswered.perform (o := .store (.createSubmission request)) trivial rfl he
    cases e with
    | store input =>
      obtain ⟨_, rfl⟩ := Prod.mk.inj (Option.some.inj he)
      exact ⟨⟨hanswered, hs.received, hs.session⟩, hs.awaiting⟩
    | _ => cases he
  change Int at submissionId
  change Safe _ _ (ExceptT.run (if submissionId ≤ 0 then _ else _)) s'
  split
  · exact .ret (Answered parse) (stable_answered none) hs'.toAnswered fun _ h => h
  · have hobeys : ∀ s, Marked parse i request sessionId s → Obeys parse (.push i
        ⟨submissionId, request, ReplyChannel.toString ⟨toInt32 i, sessionId⟩⟩) s := by
      intro s hs
      refine ⟨?_, hs.awaiting, hs.received⟩
      rw [hs.session]
    refine safe_call (Marked parse i request sessionId) (stable_marked _) hs'
      (fun s hs => hs.toAnswered.pre (hobeys s hs)) ?_
    intro s e r s' hs _ he
    rcases hs.pushed (hobeys s hs) (Option.some.inj he) with ⟨rfl, hs'⟩ | ⟨ticket, rfl, hs'⟩
    · exact .ret (Answered parse) (stable_answered none) hs' fun _ h => h
    · exact .ret (Pushed parse i ticket) (stable_pushed ticket none) hs' fun _ h => h

/-- After `submitEnsuringAckFirst`: the response and the messages put aside. -/
structure Submission (parse : JsonParse) (i : Fin n) (channel : Bytes)
    (r : Message × List Message) (s : Server n) : Prop where
  events : ∀ m ∈ r.2, EventFor channel m s.trace
  response : (r.1.subject = .reply ∧ Answered parse s) ∨
    ∃ ticket, r.1.subject = .ack ticket ∧ Accepted parse i ticket s

def AfterRelease (parse : JsonParse) (i : Fin n) (channel : Bytes) :
    Except ServerError (Message × List Message) → Server n → Prop
  | .ok r, s => Submission parse i channel r s
  | .error _, s => Guarded parse s

theorem stable_submission {channel : Bytes} {r : Message × List Message}
    (o : Option (ServerCall n)) :
    Stable ((networkContract parse cfg n).rely o) (Submission parse i channel r) := by
  intro s s' h hr
  refine ⟨hr.1.events h.events, ?_⟩
  rcases h.response with ⟨hreply, hs⟩ | ⟨ticket, hack, hs⟩
  · exact .inl ⟨hreply, stable_answered o s s' hs hr⟩
  · exact .inr ⟨ticket, hack, stable_accepted i ticket o s s' hs hr⟩

/-- Opening the barrier: what was put aside is for this channel. -/
theorem release_events {channel : Bytes} {messages : List Message} {e : ServerInput}
    (h : Addressed parse s) (he : Server.perform cfg (.release channel) e s = some (messages, s')) :
    Addressed parse s' ∧ s'.conn = s.conn ∧ s'.trace = s.trace ++ [.released channel] ∧
      ∀ m ∈ messages, EventFor channel m s'.trace := by
  have haddr := h.effect (o := .release channel) trivial (perform_effect he)
  obtain ⟨rfl, rfl⟩ := Prod.mk.inj (Option.some.inj he)
  exact ⟨haddr, rfl, rfl, fun m hm => (h.deferred channel m hm).append⟩

theorem submitEnsuringAckFirst_delivery (h : Requesting parse i request sessionId s) :
    Safe (networkContract parse cfg n)
      (AfterRelease parse i (ReplyChannel.toString ⟨toInt32 i, sessionId⟩))
      (submitEnsuringAckFirst i request (ReplyChannel.toString ⟨toInt32 i, sessionId⟩)).run s := by
  refine safe_call (Requesting parse i request sessionId) (stable_requesting _) h
    (fun s hs => hs.toAnswered.pre trivial) ?_
  intro s e _ s' hs _ he
  have hmarked : Marked parse i request sessionId s' := by
    have hanswered := hs.toAnswered.perform (o := .markWaiting _) trivial rfl he
    obtain ⟨_, rfl⟩ := Prod.mk.inj (Option.some.inj he)
    exact ⟨⟨hanswered, hs.received, hs.session⟩, Finset.mem_insert_self _ _⟩
  refine (submitAsync_delivery hmarked).except_bind ?_ ?_
  · intro submitted s hs
    cases submitted with
    | none =>
      refine safe_encoding ?_ fun e => .ret (Guarded parse) (stable_guarded none) hs.guarded
        fun _ h => h
      intro response
      refine safe_call (Answered parse) (stable_answered _) hs (fun s hs => hs.pre trivial) ?_
      intro s e messages s' hs _ he
      obtain ⟨haddr, _, ht, hevents⟩ := release_events hs.toAddressed he
      have hs' : Answered parse s' := ⟨haddr, ht ▸ hs.acked.append (by simp)⟩
      exact .ret (Submission parse i _ _) (stable_submission none) ⟨hevents, .inl ⟨rfl, hs'⟩⟩
        fun _ h => h
    | some accepted =>
      obtain ⟨submissionId, ticket⟩ := accepted
      refine safe_encoding ?_ fun e => .ret (Guarded parse) (stable_guarded none)
        hs.toGuarded fun _ h => h
      intro response
      refine safe_call (Pushed parse i ticket) (stable_pushed ticket _) hs ?_ ?_
      · intro s hs
        exact ⟨hs.toAddressed, trivial, fun k hopen => .inl (hs.opened k hopen)⟩
      · intro s e messages s' hs _ he
        obtain ⟨haddr, hconn, ht, hevents⟩ := release_events hs.toAddressed he
        have hs' : Accepted parse i ticket s' := by
          obtain ⟨task, hm⟩ := hs.here
          refine ⟨haddr, ht ▸ hs.others.append (by simp), task, ?_⟩
          rw [ht, hconn]
          exact List.mem_append_left _ hm
        exact .ret (Submission parse i _ _) (stable_submission none)
          ⟨hevents, .inr ⟨ticket, rfl, hs'⟩⟩ fun _ h => h
  · intro e s hs
    exact .ret (Guarded parse) (stable_guarded none) hs fun _ h => h

theorem Submission.addressed {channel : Bytes} {r : Message × List Message}
    (h : Submission parse i channel r s) : Addressed parse s := by
  rcases h.response with ⟨_, hs⟩ | ⟨ticket, _, hs⟩
  · exact hs.toAddressed
  · exact hs.toAddressed

/-- The response goes to the slot of the request. -/
theorem Submission.obeys {channel : Bytes} {r : Message × List Message}
    (h : Submission parse i channel r s) : Obeys parse (.setPendingResponse i r.1) s := by
  rcases h.response with ⟨hreply, _⟩ | ⟨ticket, hack, hs⟩
  · exact .inl hreply
  · obtain ⟨task, hm⟩ := hs.here
    exact .inr ⟨ticket, task, hack, hm⟩

/-- Its own ack is the only one missing. -/
theorem Submission.pre {channel : Bytes} {r : Message × List Message}
    (h : Submission parse i channel r s) :
    (networkContract parse cfg n).pre (.setPendingResponse i r.1) s := by
  refine ⟨h.addressed, h.obeys, ?_⟩
  intro k hopen
  rcases h.response with ⟨_, hs⟩ | ⟨ticket, hack, hs⟩
  · exact .inl (hs.guarded.opened k hopen)
  · by_cases hk : k = ticket
    · refine .inr ⟨i, r.1.body, ?_⟩
      rw [hk, ← hack]
    · obtain ⟨conn, task, hm⟩ := hopen.submitted
      exact .inl (hs.others k conn task hm fun heq => hk (Option.some.inj heq).symm)

theorem Submission.appended {channel : Bytes} {r : Message × List Message} {e : ServerInput}
    (h : Submission parse i channel r s)
    (he : Server.perform cfg (.setPendingResponse i r.1) e s = some ((), s')) :
    Holding parse channel r.2 s' := by
  have haddr : Addressed parse s' := h.addressed.effect h.obeys (perform_effect he)
  obtain ⟨_, rfl⟩ := Prod.mk.inj (Option.some.inj he)
  refine ⟨⟨haddr, ?_⟩, fun m hm => (h.events m hm).append⟩
  rcases h.response with ⟨_, hs⟩ | ⟨ticket, hack, hs⟩
  · exact hs.acked.append (by simp)
  · intro k conn task hm _
    by_cases hk : k = ticket
    · refine ⟨s.conn i, r.1.body, List.mem_append_right _ (List.mem_singleton.mpr ?_)⟩
      rw [hk, ← hack]
    · have hold : Event.submitted k conn task ∈ s.trace :=
        (List.mem_append.mp hm).resolve_right (by simp)
      exact (hs.others k conn task hold fun heq => hk (Option.some.inj heq).symm).append

theorem handleSubmitMessage_answered (h : Answered parse s)
    (hreceived : ReceivedOn parse (s.conn i) request s.trace) :
    Safe (networkContract parse cfg n) (Ends (Answered parse) (Guarded parse))
      (handleSubmitMessage i request).run s := by
  refine safe_call (fun s => Answered parse s ∧ ReceivedOn parse (s.conn i) request s.trace) ?_
    ⟨h, hreceived⟩ (fun s hs => hs.1.pre trivial) ?_
  · intro s s' hs hr
    exact ⟨hs.1.adds hr.2 hr.1.adds, hr.1.received hs.2⟩
  · intro s e sessionId s' hs _ he
    obtain ⟨hsession, rfl⟩ := Prod.mk.inj (Option.some.inj he)
    have hrequest : Requesting parse i request sessionId s := ⟨hs.1, hs.2, hsession⟩
    refine (submitEnsuringAckFirst_delivery hrequest).except_bind ?_ ?_
    · intro r s hs
      refine safe_call (Submission parse i _ r) (stable_submission _) hs (fun s hs => hs.pre) ?_
      intro s e _ s' hs _ he
      have hs' := hs.appended he
      refine safe_call (Holding parse _ r.2) (stable_holding _ _ _) hs'
        (fun s hs => hs.toAnswered.pre trivial) ?_
      intro s e _ s' hs _ he
      exact queueDeferredMessages_answered (hs.perform (o := .setStatus i .writable) trivial rfl he)
    · intro e s hs
      exact .ends_throw (stable_guarded none) hs

/-- A response that is about no submission. -/
theorem queueImmediateResponse_answered {response : Message} (hr : response.subject = .reply)
    (h : Answered parse s) :
    Safe (networkContract parse cfg n) (Ends (Answered parse) (Guarded parse))
      (queueImmediateResponse i response).run s := by
  refine safe_call (Answered parse) (stable_answered _) h (fun s hs => hs.pre (.inl hr)) ?_
  intro s e _ s' hs _ he
  have hs' := hs.perform (o := .setPendingResponse i response) (.inl hr) rfl he
  exact safe_last (o := .setStatus i .writable) (Answered parse) (stable_answered _) hs'
    (fun s hs => hs.pre trivial) (stable_answered none)
    fun s e r s' hs _ he => hs.perform (o := .setStatus i .writable) trivial rfl he

theorem handleQueryOrBadRequest_answered {body : Bytes} (h : Answered parse s) :
    Safe (networkContract parse cfg n) (Ends (Answered parse) (Guarded parse))
      (handleQueryOrBadRequest parse i body).run s := by
  unfold handleQueryOrBadRequest
  cases decodeQueryRequest parse body with
  | none =>
    refine safe_encoding (fun response => queueImmediateResponse_answered rfl h) fun e => ?_
    exact .ends_throw (stable_guarded none) h.guarded
  | some request =>
    have hquery : (ExceptT.adapt .json (handleQuery query request) :
        ServerM cfg n Bytes).run.Uses (fun o : ServerCall n => o.neutral = true) :=
      ⟨rfl, fun _ => trivial⟩
    refine Safe.ends_bind (stable_guarded none) (neutral_answered hquery h) ?_
    intro response s hs
    exact queueImmediateResponse_answered rfl hs

/-- What `read_message` hands on was received on this connection. -/
def Delivered (parse : JsonParse) (i : Fin n) (message : Option Bytes) (s : Server n) : Prop :=
  Answered parse s ∧ ∀ body, message = some body →
    ∀ request, decodeRequest parse body = some request →
      ReceivedOn parse (s.conn i) request s.trace

def AfterRead (parse : JsonParse) (i : Fin n) :
    Except ServerError (Int × Option Bytes) → Server n → Prop
  | .ok r, s => Delivered parse i r.2 s
  | .error _, s => Guarded parse s

theorem stable_delivered (message : Option Bytes) (o : Option (ServerCall n)) :
    Stable ((networkContract parse cfg n).rely o) (Delivered parse i message) := by
  intro s s' h hr
  refine ⟨h.1.adds hr.2 hr.1.adds, ?_⟩
  intro body hbody request hrequest
  exact hr.1.received (h.2 body hbody request hrequest)

theorem Answered.read {e : ServerInput} {r : Int × Option Bytes} (h : Answered parse s)
    (he : Server.perform cfg (.readMessage i) e s = some (r, s')) : Delivered parse i r.2 s' := by
  refine ⟨h.perform (o := .readMessage i) trivial rfl he, ?_⟩
  intro body hbody request hrequest
  cases e with
  | read outcome =>
    cases outcome with
    | failed errno =>
      obtain ⟨rfl, _⟩ := Prod.mk.inj (Option.some.inj he)
      cases hbody
    | bytes chunk =>
      obtain ⟨rfl, rfl⟩ := Prod.mk.inj (Option.some.inj he)
      refine ⟨chunk, ((s.slots i).readMessage (.bytes chunk)).1.1, body, ?_, hrequest⟩
      apply List.mem_append_right
      rw [← hbody]
      exact List.mem_singleton.mpr rfl
  | _ => cases he

theorem readMessage_delivered (h : Answered parse s) :
    Safe (networkContract parse cfg n) (AfterRead parse i)
      (readMessage i : ServerM cfg n (Int × Option Bytes)).run s := by
  refine safe_call (Answered parse) (stable_answered _) h (fun s hs => hs.pre trivial) ?_
  intro s e r s' hs _ he
  have hs' := hs.read he
  obtain ⟨totRead, message⟩ := r
  cases message with
  | none => exact .ret (Delivered parse i none) (stable_delivered none none) hs' fun _ h => h
  | some body =>
    refine safe_call (Delivered parse i (some body)) (stable_delivered _ _) hs'
      (fun s hs => hs.1.pre trivial) ?_
    intro s e _ s' hs _ he
    have hanswered := hs.1.perform (o := .setStatus i .idle) trivial rfl he
    obtain ⟨_, rfl⟩ := Prod.mk.inj (Option.some.inj he)
    exact .ret (Delivered parse i (some body)) (stable_delivered _ none) ⟨hanswered, hs.2⟩
      fun _ h => h

theorem handleCompleteMessage_answered {body : Bytes} (h : Delivered parse i (some body) s) :
    Safe (networkContract parse cfg n) (Ends (Answered parse) (Guarded parse))
      (handleCompleteMessage parse i body).run s := by
  refine safe_call (Delivered parse i (some body)) (stable_delivered _ _) h
    (fun s hs => hs.1.pre trivial) ?_
  intro s e r s' hs _ he
  have hs' := hs.1.perform (o := .handleCompleteMessage i body) trivial rfl he
  obtain ⟨_, rfl⟩ := Prod.mk.inj (Option.some.inj he)
  cases hd : decodeRequest parse body with
  | some request => exact handleSubmitMessage_answered hs' (hs.2 body rfl request hd).append
  | none => exact handleQueryOrBadRequest_answered hs'

theorem handleReadEvent_answered (h : Answered parse s) :
    Safe (networkContract parse cfg n) (Ends (Answered parse) (Guarded parse))
      (handleReadEvent parse i).run s := by
  have hrelease : ∀ s, Answered parse s →
      Safe (networkContract parse cfg n) (Ends (Answered parse) (Guarded parse))
        (call (.releaseSlot i) : ServerM cfg n Unit).run s :=
    fun s hs => neutral_answered (p := call (.releaseSlot i)) ⟨rfl, fun _ => trivial⟩ hs
  refine safe_call (Answered parse) (stable_answered _) h (fun s hs => hs.pre trivial) ?_
  intro s e fd s' hs _ he
  obtain ⟨_, rfl⟩ := Prod.mk.inj (Option.some.inj he)
  refine (readMessage_delivered hs).except_bind ?_ ?_
  · intro r s hs
    obtain ⟨bytesRead, message⟩ := r
    change Safe _ _ (ExceptT.run (if bytesRead = 0 then _ else _)) s
    split
    · exact hrelease s hs.1
    · split
      · exact hrelease s hs.1
      · cases message with
        | none => exact .ends_ret (stable_answered none) hs.1
        | some body => exact handleCompleteMessage_answered hs
  · intro e s hs
    exact .ends_throw (stable_guarded none) hs

theorem networkRound_answered (h : Answered parse s) :
    Safe (networkContract parse cfg n)
      (fun a s => if a = true then Answered parse s else Guarded parse s)
      (networkRound parse) s := by
  refine networkRound_safe stable_answered stable_guarded (fun s hs => hs.guarded) ?_
    (fun i s hs => handleReadEvent_answered hs)
    (fun i s hs => neutral_answered handleWriteEvent_neutral hs) ?_ h
  · intro o ho s hs
    have hneutral : o.neutral = true := by
      cases o with
      | push | release | tryDefer | setPendingResponse | setPendingResponseIfSession => cases ho
      | _ => rfl
    have hobeys : Obeys parse o s := obeys_of_neutral hneutral s
    exact ⟨hs.pre hobeys, fun e r s' _ he => hs.perform hobeys (opens_of_neutral hneutral) he⟩
  · intro o ho s hs
    have hneutral : o.neutral = true := by
      cases o with
      | exchangeStopped | shutdownQueue => rfl
      | _ => cases ho
    have hobeys : Obeys parse o s := obeys_of_neutral hneutral s
    refine ⟨⟨hs.toAddressed, hobeys, fun k hopen => .inl (hs.opened k hopen)⟩, ?_⟩
    intro e r s' _ he
    have heff := perform_effect he
    exact hs.adds (hs.toAddressed.effect hobeys heff) (effect_adds (opens_of_neutral hneutral) heff)

end Submit

section Worker

variable {s s' : Server n} {ticket : Nat} {task : SubmissionTask}

/-- The worker's task was accepted under this ticket. -/
structure Working (parse : JsonParse) (ticket : Nat) (task : SubmissionTask) (s : Server n) : Prop
    extends Addressed parse s where
  submitted : ∃ conn, Event.submitted ticket conn task ∈ s.trace

theorem Working.extend (h : Working parse ticket task s) (ha : Addressed parse s')
    (ht : s.trace <+: s'.trace) : Working parse ticket task s' := by
  obtain ⟨conn, hm⟩ := h.submitted
  exact ⟨ha, conn, ht.subset hm⟩

theorem stable_addressed (o : Option (ServerCall n)) :
    Stable ((workerContract parse cfg n).rely o) (Addressed parse) := fun _ _ _ hr => hr.1

theorem stable_working (o : Option (ServerCall n)) :
    Stable ((workerContract parse cfg n).rely o) (Working parse ticket task) :=
  fun _ _ h hr => h.extend hr.1 hr.2

theorem Working.perform {o : ServerCall n} {e : ServerInput} {r : o.Reply}
    (h : Working parse ticket task s) (ho : Obeys parse o s) (hopen : o.opens = false)
    (he : Server.perform cfg o e s = some (r, s')) : Working parse ticket task s' := by
  have heff := perform_effect he
  obtain ⟨es, ht, _⟩ := effect_adds hopen heff
  exact h.extend (h.toAddressed.effect ho heff) ⟨es, ht.symm⟩

/-- Part of a worker's turn that carries no message. -/
theorem neutral_working {α : Type} {p : Prog (serverMachine cfg n) α}
    (hp : p.Uses fun o : ServerCall n => o.neutral = true) (h : Working parse ticket task s) :
    Safe (workerContract parse cfg n) (fun _ => Working parse ticket task) p s := by
  refine Safe.of_uses (Working parse ticket task) hp stable_working h ?_ ?_
  · intro o s ho hs
    exact ⟨hs.toAddressed, obeys_of_neutral ho s⟩
  · intro o s e r s' ho hs _ he
    exact hs.perform (obeys_of_neutral ho s) (opens_of_neutral ho) (perform_of_exec he)

theorem notify_working
    {responder : SubmissionTask → ExceptT JsonError (Prog (serverMachine cfg n)) (Option Bytes)}
    (hresponder : (responder task).run.Uses fun o : ServerCall n => o.neutral = true)
    (h : Working parse ticket task s) :
    Safe (workerContract parse cfg n) (Ends (Working parse ticket task) (Working parse ticket task))
      (notify ticket task responder : ServerM cfg n Unit).run s := by
  have hstopping : ∀ {f : Bool → ServerM cfg n Unit} {s : Server n}, Working parse ticket task s →
      (∀ stopping s, Working parse ticket task s → Safe (workerContract parse cfg n)
        (Ends (Working parse ticket task) (Working parse ticket task)) (f stopping).run s) →
      Safe (workerContract parse cfg n) (Ends (Working parse ticket task) (Working parse ticket task))
        (call .isStopping >>= f).run s := by
    intro f s hs hf
    refine safe_call (Working parse ticket task) (stable_working _) hs
      (fun s hs => ⟨hs.toAddressed, trivial⟩) ?_
    intro s e r s' hs _ he
    exact hf r s' (hs.perform (o := .isStopping) trivial rfl he)
  refine hstopping h fun poolStopping s hs => ?_
  cases poolStopping with
  | true => exact .ends_ret (stable_working none) hs
  | false =>
    refine hstopping hs fun stopping s hs => ?_
    cases stopping with
    | true => exact .ends_ret (stable_working none) hs
    | false =>
      refine (neutral_working (hresponder.adapt _) hs).except_bind ?_ ?_
      · intro response s hs
        cases response with
        | none => exact .ends_ret (stable_working none) hs
        | some body =>
          refine queueProtocolResponseForChannel_addressed stable_working (fun o s s' hr => hr.2) ?_
            (fun o s hs ho => ⟨hs.toAddressed, ho⟩)
            (fun o s e r s' hs ho hopen he => hs.perform ho hopen he) hs
          intro s hs
          obtain ⟨conn, hm⟩ := hs.submitted
          exact ⟨hs.toAddressed, ticket, conn, task, rfl, hm, rfl⟩
      · intro e s hs
        exact .ends_throw (stable_working none) hs

theorem workTask_working (env : JudgeEnv) (h : Working parse ticket task s) :
    Safe (workerContract parse cfg n) (Ends (Working parse ticket task) (Working parse ticket task))
      (workTask env ticket task : ServerM cfg n Unit).run s := by
  have hpersist : ∀ r, (persist task.submissionId r :
      ExceptT StdException (Prog (serverMachine cfg n)) Bool).run.Uses
        (fun o : ServerCall n => o.neutral = true) := fun _ => ⟨rfl, fun _ => trivial⟩
  have hprocess : (ExceptT.lift (processSubmission persist env task.submissionId
      task.request).run : ServerM cfg n (Except StdException Unit)).run.Uses
        (fun o : ServerCall n => o.neutral = true) :=
    (processSubmission_uses hpersist env task.request).bind fun _ => trivial
  refine Safe.ends_bind (stable_working none) (notify_working ⟨rfl, fun _ => trivial⟩ h) ?_
  intro _ s hs
  refine (neutral_working hprocess hs).except_bind ?_ ?_
  · intro _ s hs
    exact notify_working ⟨rfl, fun _ => trivial⟩ hs
  · intro e s hs
    exact .ends_throw (stable_working none) hs

theorem workerTurn_addressed (env : Nat → JudgeEnv) (h : Addressed parse s) :
    Safe (workerContract parse cfg n) (fun _ => Addressed parse) (workerTurn env) s := by
  refine Safe.call (Addressed parse) (stable_addressed _) h (fun s hs => ⟨hs, trivial⟩) ?_
  intro s e popped s' hs _ he
  have he := perform_of_exec he
  have hs' := hs.effect (o := .pop) trivial (perform_effect he)
  obtain ⟨⟨taken, q⟩, hpop, hr⟩ := Option.map_eq_some_iff.mp he
  obtain ⟨rfl, rfl⟩ := Prod.mk.inj hr
  rcases SubmissionQueue.pop_cases hpop with
    ⟨rfl, _⟩ | ⟨⟨ticket, task⟩, rest, rfl, hfront, _⟩
  · exact .ret (Addressed parse) (stable_addressed none) hs' fun _ h => h
  · have hworking : Working parse ticket task { s with queue := q } := by
      obtain ⟨conn, hm⟩ := hs.queued ticket task (by rw [hfront]; exact List.mem_cons_self)
      exact ⟨hs', conn, hm⟩
    show Safe _ _ ((workTask (env ticket) ticket task).run.bind _) _
    apply Safe.bind
    apply (workTask_working (env ticket) hworking).mono
    intro x s hx
    cases x with
    | ok a => exact .ret (Addressed parse) (stable_addressed none) hx.toAddressed fun _ h => h
    | error error =>
      refine Safe.call (Addressed parse) (stable_addressed _) hx.toAddressed
        (fun s hs => ⟨hs, trivial⟩) ?_
      intro s e r s' hs _ he
      exact .ret (Addressed parse) (stable_addressed none)
        (hs.effect (o := .terminate) trivial (perform_effect (perform_of_exec he))) fun _ h => h

end Worker

section System

variable {env : Nat → JudgeEnv} {ω : Type} [DecidableEq ω]

def deliveryContracts (parse : JsonParse) (cfg : CleanupConfig) (n : Nat) (ω : Type) :
    Thread ω → Contract (serverMachine cfg n)
  | .network => networkContract parse cfg n
  | _ => workerContract parse cfg n

/-- What holds when a thread has finished a round. -/
def deliveryRest (parse : JsonParse) : Thread ω → Bool → Server n → Prop
  | .network, true => Answered parse
  | .network, false => Guarded parse
  | _, _ => Addressed parse

omit [DecidableEq ω] in
theorem threadBody_delivery (t : Thread ω) {s : Server n} (h : Addressed parse s)
    (hnet : t = .network → Answered parse s) :
    Safe (deliveryContracts parse cfg n ω t) (deliveryRest parse t)
      (threadBody cfg n parse env ω t) s := by
  cases t with
  | network =>
    apply (networkRound_answered (hnet rfl)).mono
    intro a s hs
    cases a with
    | true => exact hs
    | false => exact hs
  | worker w => exact workerTurn_addressed env h
  | control =>
    have huses : (threadBody cfg n parse env ω .control).Uses
        (fun o : ServerCall n => o.neutral = true) := by
      refine ⟨rfl, ?_⟩
      intro first
      cases first with
      | true => exact ⟨rfl, fun _ => trivial⟩
      | false => trivial
    exact Safe.of_uses (Addressed parse) huses stable_addressed h
      (fun o s ho hs => ⟨hs, obeys_of_neutral ho s⟩)
      fun o s e r s' ho hs _ he =>
        hs.effect (obeys_of_neutral ho s) (perform_effect (perform_of_exec he))

theorem effect_trace {o : ServerCall n} {e : ServerInput} {s s' : Server n}
    (he : Effect o e s s') : s.trace <+: s'.trace := by
  by_cases ho : o.opens = false
  · obtain ⟨es, ht, _⟩ := effect_adds ho he
    exact ⟨es, ht.symm⟩
  · cases he with
    | quiet same => rw [same.trace]
    | released | pushed => exact List.prefix_append _ _
    | _ => exact absurd rfl ho

/-- Whatever the interleaving, every thread keeps to its contract. -/
theorem reach_delivery {ok : ServerConfig cfg n ω → Thread ω → ServerInput → Prop}
    {c : ServerConfig cfg n ω}
    (hr : Reach (again cfg n parse env ω) ok (serverStart cfg n parse env ω) c) :
    ∀ t, Safe (deliveryContracts parse cfg n ω t) (deliveryRest parse t) (c.thread t) c.shared := by
  refine Reach.safe (deliveryContracts parse cfg n ω) (deliveryRest parse) ?_ ?_ ?_ hr
  · intro t
    refine threadBody_delivery t addressed_start ?_
    intro _
    exact ⟨addressed_start, fun _ _ _ hm => by cases hm⟩
  · intro t a p s hp hs
    obtain ⟨rfl, rfl⟩ := again_eq_some hp
    cases t with
    | network => exact threadBody_delivery .network hs.toAddressed fun _ => hs
    | worker w => exact threadBody_delivery (.worker w) hs nofun
    | control => exact threadBody_delivery .control hs nofun
  · intro c t e o k r s' hc _ hk hpre he
    have heff := perform_effect (perform_of_exec he)
    have haddr : Addressed parse s' := by
      cases t with
      | network => exact hpre.1.effect hpre.2.1 heff
      | worker w => exact hpre.1.effect hpre.2 heff
      | control => exact hpre.1.effect hpre.2 heff
    refine ⟨by cases t <;> trivial, ?_⟩
    intro u hu
    cases u with
    | network =>
      have hhead : (c.thread t).head = some o := by rw [hk]; rfl
      have hworker : ServerCall.worker o = true := worker_of_reach hc (Ne.symm hu) hhead
      exact ⟨perform_worker hworker (perform_of_exec he), haddr⟩
    | worker w => exact ⟨haddr, effect_trace heff⟩
    | control => exact ⟨haddr, effect_trace heff⟩

/-- Every reachable state is addressed, and every call that is next owes what it owes. -/
theorem reach_addressed {ok : ServerConfig cfg n ω → Thread ω → ServerInput → Prop}
    {c : ServerConfig cfg n ω}
    (hr : Reach (again cfg n parse env ω) ok (serverStart cfg n parse env ω) c) :
    Addressed parse c.shared := by
  have hsafe := reach_delivery hr .control
  cases hp : c.thread .control with
  | ret a =>
    rw [hp] at hsafe
    have hpost := hsafe.post
    cases a with
    | true => exact hpost
    | false => exact hpost
  | call o k =>
    rw [hp] at hsafe
    exact hsafe.pre.1

theorem reach_obeys {ok : ServerConfig cfg n ω → Thread ω → ServerInput → Prop}
    {c : ServerConfig cfg n ω}
    (hr : Reach (again cfg n parse env ω) ok (serverStart cfg n parse env ω) c) {t : Thread ω}
    {o : ServerCall n} (ho : (c.thread t).head = some o) : Obeys parse o c.shared := by
  have hsafe := reach_delivery hr t
  cases hp : c.thread t with
  | ret a =>
    rw [hp] at ho
    cases ho
  | call o' k =>
    rw [hp] at ho hsafe
    obtain rfl := Option.some.inj ho
    cases t with
    | network => exact hsafe.pre.2.1
    | worker w => exact hsafe.pre.2
    | control => exact hsafe.pre.2

end System

end JudgeServer.Network
