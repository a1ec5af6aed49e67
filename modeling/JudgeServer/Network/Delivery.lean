import JudgeServer.Network.Connections

/-!
# Where the messages of a submission go

From the read of a submit request to the delivery of its events: the reply channel
names the session of the connection the request came from, the task carries the channel
through the queue, and the barrier keeps the events until the ack is on its way. A ticket
numbers an accepted submission; it is opened once the barrier has been released after
its task was pushed.
-/

namespace JudgeServer.Network

open JudgeServer.Common
open JudgeServer.Dispatch
open JudgeServer.Lib.Interleave
open JudgeServer.Pipeline
open JudgeServer.Protocol

variable {cfg : CleanupConfig} {n : Nat} {parse : JsonParse}

/-- The submission a message is about. -/
def Subject.ticket : Subject → Option Nat
  | .ack k => some k
  | .event k => some k
  | .reply => none

/-- A submit request was received on the connection. -/
def ReceivedOn (parse : JsonParse) (conn : Nat) (request : SubmissionRequest)
    (trace : List Event) : Prop :=
  ∃ chunk totRead body, Event.received conn chunk totRead (some body) ∈ trace ∧
    decodeRequest parse body = some request

/-- The task's channel names the session of a connection. -/
def Names (conn : Nat) (channel : Bytes) : Prop :=
  ∃ slotId : Int, -2 ^ 31 ≤ slotId ∧ slotId < 2 ^ 31 ∧
    channel = ReplyChannel.toString ⟨slotId, conn % 2 ^ 64⟩

/-- The barrier was released after the submission was pushed. -/
def Opened (trace : List Event) (ticket : Nat) : Prop :=
  ∃ a b conn task, trace = a ++ Event.released task.replyChannelId :: b ∧
    Event.submitted ticket conn task ∈ a

def Acked (trace : List Event) (ticket : Nat) : Prop :=
  ∃ conn body, Event.appended conn ⟨body, .ack ticket⟩ ∈ trace

/-- A message of a submission that was accepted under this channel. -/
def EventFor (channel : Bytes) (message : Message) (trace : List Event) : Prop :=
  ∃ ticket conn task, message.subject = .event ticket ∧
    Event.submitted ticket conn task ∈ trace ∧ task.replyChannelId = channel

/-- A response is on the connection of its submission, as far as session ids tell. -/
def Placed (conn : Nat) (message : Message) (trace : List Event) : Prop :=
  match message.subject with
  | .ack ticket => ∃ task, Event.submitted ticket conn task ∈ trace
  | .event ticket => ∃ origin task, Event.submitted ticket origin task ∈ trace ∧
      conn % 2 ^ 64 = origin % 2 ^ 64
  | .reply => True

section Growth

variable {trace es : List Event}

theorem ReceivedOn.append {conn : Nat} {request : SubmissionRequest}
    (h : ReceivedOn parse conn request trace) : ReceivedOn parse conn request (trace ++ es) := by
  obtain ⟨chunk, totRead, body, hm, hd⟩ := h
  exact ⟨chunk, totRead, body, List.mem_append_left _ hm, hd⟩

theorem Opened.append {ticket : Nat} (h : Opened trace ticket) : Opened (trace ++ es) ticket := by
  obtain ⟨a, b, conn, task, rfl, hm⟩ := h
  exact ⟨a, b ++ es, conn, task, by simp, hm⟩

theorem Opened.submitted {ticket : Nat} (h : Opened trace ticket) :
    ∃ conn task, Event.submitted ticket conn task ∈ trace := by
  obtain ⟨a, b, conn, task, rfl, hm⟩ := h
  exact ⟨conn, task, List.mem_append_left _ hm⟩

/-- Only a release opens a ticket. -/
theorem Opened.of_append {ticket : Nat} (h : Opened (trace ++ es) ticket)
    (hes : ∀ channel, Event.released channel ∉ es) : Opened trace ticket := by
  obtain ⟨a, b, conn, task, he, hm⟩ := h
  rcases List.append_eq_append_iff.mp he with ⟨a', rfl, hb⟩ | ⟨c', htrace, hb⟩
  · have hmem : Event.released task.replyChannelId ∈ es := by simp [hb]
    exact absurd hmem (hes _)
  · cases c' with
    | nil =>
      have hmem : Event.released task.replyChannelId ∈ es := by simp [← show _ = es from hb]
      exact absurd hmem (hes _)
    | cons x rest =>
      obtain ⟨rfl, rfl⟩ := List.cons.inj hb
      exact ⟨a, rest, conn, task, htrace, hm⟩

theorem Acked.append {ticket : Nat} (h : Acked trace ticket) : Acked (trace ++ es) ticket := by
  obtain ⟨conn, body, hm⟩ := h
  exact ⟨conn, body, List.mem_append_left _ hm⟩

theorem EventFor.append {channel : Bytes} {message : Message}
    (h : EventFor channel message trace) : EventFor channel message (trace ++ es) := by
  obtain ⟨ticket, conn, task, hs, hm, hc⟩ := h
  exact ⟨ticket, conn, task, hs, List.mem_append_left _ hm, hc⟩

theorem Placed.append {conn : Nat} {message : Message} (h : Placed conn message trace) :
    Placed conn message (trace ++ es) := by
  unfold Placed at h ⊢
  cases hs : message.subject with
  | ack ticket =>
    rw [hs] at h
    obtain ⟨task, hm⟩ := h
    exact ⟨task, List.mem_append_left _ hm⟩
  | event ticket =>
    rw [hs] at h
    obtain ⟨origin, task, hm, hmod⟩ := h
    exact ⟨origin, task, List.mem_append_left _ hm, hmod⟩
  | reply => trivial

end Growth

/-- What the server keeps about submissions and their messages. -/
structure Addressed (parse : JsonParse) (s : Server n) : Prop where
  connections : Connections s
  queued : ∀ ticket task, (ticket, task) ∈ s.queue.queue →
    ∃ conn, Event.submitted ticket conn task ∈ s.trace
  origin : ∀ ticket conn task, Event.submitted ticket conn task ∈ s.trace →
    ticket < s.submissions ∧ Names conn task.replyChannelId ∧
      ReceivedOn parse conn task.request s.trace
  unique : ∀ ticket conn task conn' task', Event.submitted ticket conn task ∈ s.trace →
    Event.submitted ticket conn' task' ∈ s.trace → conn = conn' ∧ task = task'
  deferred : ∀ channel, ∀ message ∈ s.ackBarrier.deferredFor channel,
    EventFor channel message s.trace
  placed : ∀ conn message, Event.appended conn message ∈ s.trace → Placed conn message s.trace
  waiting : ∀ ticket conn task, Event.submitted ticket conn task ∈ s.trace →
    Opened s.trace ticket ∨ task.replyChannelId ∈ s.ackBarrier.awaiting

/-- What the calls that carry a message or a task owe. -/
def Obeys (parse : JsonParse) : ServerCall n → Server n → Prop
  | .push i task, s =>
      task.replyChannelId = ReplyChannel.toString ⟨toInt32 i, (s.slots i).sessionId⟩ ∧
        task.replyChannelId ∈ s.ackBarrier.awaiting ∧
        ReceivedOn parse (s.conn i) task.request s.trace
  | .tryDefer channel message, s => EventFor channel message s.trace
  | .setPendingResponse i message, s =>
      message.subject = .reply ∨ ∃ ticket task, message.subject = .ack ticket ∧
        Event.submitted ticket (s.conn i) task ∈ s.trace
  | .setPendingResponseIfSession _ sessionId message, s => ∃ ticket conn task,
      message.subject = .event ticket ∧ Event.submitted ticket conn task ∈ s.trace ∧
        sessionId = conn % 2 ^ 64 ∧ Opened s.trace ticket
  | _, _ => True

section Invariant

variable {s s' : Server n}

theorem addressed_start : Addressed parse ({} : Server n) where
  connections := connections_start
  queued _ _ h := by cases h
  origin _ _ _ h := by cases h
  unique _ _ _ _ _ h := by cases h
  deferred _ _ h := by cases h
  placed _ _ h := by cases h
  waiting _ _ _ h := by cases h

/-- Steps that accept no submission. -/
theorem Addressed.grow (h : Addressed parse s) (es : List Event) (hc : Connections s')
    (ht : s'.trace = s.trace ++ es) (hn : s'.submissions = s.submissions)
    (hsub : ∀ ticket conn task, Event.submitted ticket conn task ∉ es)
    (happ : ∀ conn message, Event.appended conn message ∈ es → Placed conn message s.trace)
    (hq : ∀ x, x ∈ s'.queue.queue → x ∈ s.queue.queue)
    (hd : ∀ channel, ∀ message ∈ s'.ackBarrier.deferredFor channel,
      message ∈ s.ackBarrier.deferredFor channel ∨ EventFor channel message s.trace)
    (hw : ∀ channel ∈ s.ackBarrier.awaiting,
      channel ∈ s'.ackBarrier.awaiting ∨ es = [.released channel]) : Addressed parse s' := by
  have hold : ∀ {ticket conn task}, Event.submitted ticket conn task ∈ s.trace ++ es →
      Event.submitted ticket conn task ∈ s.trace := by
    intro ticket conn task hm
    exact (List.mem_append.mp hm).resolve_right (hsub _ _ _)
  refine ⟨hc, ?_, ?_, ?_, ?_, ?_, ?_⟩
  · intro ticket task hx
    obtain ⟨conn, hm⟩ := h.queued ticket task (hq _ hx)
    rw [ht]
    exact ⟨conn, List.mem_append_left _ hm⟩
  · intro ticket conn task hm
    rw [ht] at hm ⊢
    obtain ⟨hlt, hnames, hreceived⟩ := h.origin ticket conn task (hold hm)
    exact ⟨by rwa [hn], hnames, hreceived.append⟩
  · intro ticket conn task conn' task' hm hm'
    rw [ht] at hm hm'
    exact h.unique ticket conn task conn' task' (hold hm) (hold hm')
  · intro channel message hm
    rw [ht]
    rcases hd channel message hm with hm | hm
    · exact (h.deferred channel message hm).append
    · exact hm.append
  · intro conn message hm
    rw [ht] at hm ⊢
    rcases List.mem_append.mp hm with hm | hm
    · exact (h.placed conn message hm).append
    · exact (happ conn message hm).append
  · intro ticket conn task hm
    rw [ht] at hm ⊢
    rcases h.waiting ticket conn task (hold hm) with ho | ha
    · exact .inl ho.append
    · rcases hw _ ha with ha' | hes
      · exact .inr ha'
      · exact .inl ⟨s.trace, [], conn, task, by rw [hes], hold hm⟩

/-- A submission is accepted: under the next ticket, with its channel awaiting the ack. -/
theorem Addressed.push (h : Addressed parse s) {i : Fin n} {task : SubmissionTask}
    (ho : Obeys parse (.push i task) s)
    (hc : Connections s') (ht : s'.trace = s.trace ++ [.submitted s.submissions (s.conn i) task])
    (hn : s'.submissions = s.submissions + 1)
    (hq : s'.queue.queue = s.queue.queue ++ [(s.submissions, task)])
    (hb : s'.ackBarrier = s.ackBarrier) : Addressed parse s' := by
  obtain ⟨hchannel, hawaiting, hreceived⟩ := ho
  have hnew : ∀ {ticket conn task'}, Event.submitted ticket conn task' ∈ s'.trace →
      Event.submitted ticket conn task' ∈ s.trace ∨
        (ticket = s.submissions ∧ conn = s.conn i ∧ task' = task) := by
    intro ticket conn task' hm
    rw [ht] at hm
    rcases List.mem_append.mp hm with hm | hm
    · exact .inl hm
    · obtain ⟨rfl, rfl, rfl⟩ := Event.submitted.inj (List.mem_singleton.mp hm)
      exact .inr ⟨rfl, rfl, rfl⟩
  have hnames : Names (s.conn i) task.replyChannelId := by
    refine ⟨toInt32 i, ?_, ?_, ?_⟩
    · unfold toInt32
      have := Int.le_bmod (x := i) (m := 2 ^ 32) (by decide)
      omega
    · unfold toInt32
      have := Int.bmod_lt (x := i) (m := 2 ^ 32) (by decide)
      omega
    · rw [hchannel, h.connections.session i]
  refine ⟨hc, ?_, ?_, ?_, ?_, ?_, ?_⟩
  · intro ticket task' hx
    rw [hq] at hx
    rw [ht]
    rcases List.mem_append.mp hx with hx | hx
    · obtain ⟨conn, hm⟩ := h.queued ticket task' hx
      exact ⟨conn, List.mem_append_left _ hm⟩
    · obtain ⟨rfl, rfl⟩ := Prod.mk.inj (List.mem_singleton.mp hx)
      exact ⟨_, List.mem_append_right _ (List.mem_singleton.mpr rfl)⟩
  · intro ticket conn task' hm
    rw [hn, ht]
    rcases hnew hm with hm | ⟨rfl, rfl, rfl⟩
    · obtain ⟨hlt, hna, hre⟩ := h.origin ticket conn task' hm
      exact ⟨Nat.lt_succ_of_lt hlt, hna, hre.append⟩
    · exact ⟨Nat.lt_succ_self _, hnames, hreceived.append⟩
  · intro ticket conn task₁ conn' task₂ hm hm'
    rcases hnew hm with hm | ⟨rfl, rfl, rfl⟩ <;> rcases hnew hm' with hm' | ⟨ht', rfl, rfl⟩
    · exact h.unique ticket conn task₁ conn' task₂ hm hm'
    · have hlt := (h.origin ticket conn task₁ hm).1
      omega
    · have hlt := (h.origin _ _ _ hm').1
      omega
    · exact ⟨rfl, rfl⟩
  · intro channel message hm
    rw [hb] at hm
    rw [ht]
    exact (h.deferred channel message hm).append
  · intro conn message hm
    rw [ht] at hm ⊢
    rcases List.mem_append.mp hm with hm | hm
    · exact (h.placed conn message hm).append
    · cases List.mem_singleton.mp hm
  · intro ticket conn task' hm
    rw [hb]
    rcases hnew hm with hm | ⟨rfl, rfl, rfl⟩
    · rw [ht]
      exact (h.waiting ticket conn task' hm).imp Opened.append id
    · exact .inr hawaiting

/-- The calls that carry no message and no task, and leave the barrier closed. -/
def ServerCall.neutral : ServerCall n → Bool
  | .push _ _ | .release _ | .tryDefer _ _ | .setPendingResponse _ _
  | .setPendingResponseIfSession _ _ _ => false
  | _ => true

theorem obeys_of_neutral {o : ServerCall n} (ho : o.neutral = true) (s : Server n) :
    Obeys parse o s := by
  cases o with
  | push | tryDefer | setPendingResponse | setPendingResponseIfSession => cases ho
  | _ => trivial

theorem Addressed.effect {o : ServerCall n} {e : ServerInput} (h : Addressed parse s)
    (ho : Obeys parse o s) (he : Effect o e s s') : Addressed parse s' := by
  have hc := h.connections.effect he
  have hquiet : ∀ es : List Event, s'.trace = s.trace ++ es → s'.submissions = s.submissions →
      (∀ ticket conn task, Event.submitted ticket conn task ∉ es) →
      (∀ conn message, Event.appended conn message ∈ es → Placed conn message s.trace) →
      (∀ x, x ∈ s'.queue.queue → x ∈ s.queue.queue) → s'.ackBarrier = s.ackBarrier →
      Addressed parse s' := by
    intro es ht hn hsub happ hq hb
    refine h.grow es hc ht hn hsub happ hq ?_ ?_
    · intro channel message hm
      rw [hb] at hm
      exact .inl hm
    · intro channel hm
      rw [hb]
      exact .inl hm
  cases he with
  | quiet same =>
    refine hquiet [] ?_ same.submissions (by simp) (by simp) ?_ same.ackBarrier
    · rw [same.trace, List.append_nil]
    · rw [same.queue]
      exact fun _ hx => hx
  | turnedAway | opened | closed | status | consumed =>
    exact hquiet [] (List.append_nil _).symm rfl (by simp) (by simp) (fun _ hx => hx) rfl
  | read i outcome =>
    rcases readMessage_cases s i outcome with ⟨errno, rfl, hs⟩ | ⟨chunk, rfl, hs⟩
    · rw [hs] at hquiet ⊢
      exact hquiet [] (List.append_nil _).symm rfl (by simp) (by simp) (fun _ hx => hx) rfl
    · rw [hs] at hquiet ⊢
      exact hquiet [_] rfl rfl (by simp) (by simp) (fun _ hx => hx) rfl
  | handled | sent => exact hquiet [_] rfl rfl (by simp) (by simp) (fun _ hx => hx) rfl
  | appended i message =>
    refine hquiet [_] rfl rfl (by simp) ?_ (fun _ hx => hx) rfl
    intro conn m hm
    obtain ⟨rfl, rfl⟩ := Event.appended.inj (List.mem_singleton.mp hm)
    rcases ho with hreply | ⟨ticket, task, hack, hsub⟩
    · simp only [Placed, hreply]
    · simp only [Placed, hack]
      exact ⟨task, hsub⟩
  | delivered i sessionId message _ _ session used =>
    refine hquiet [_] rfl rfl (by simp) ?_ (fun _ hx => hx) rfl
    intro conn m hm
    obtain ⟨rfl, rfl⟩ := Event.appended.inj (List.mem_singleton.mp hm)
    obtain ⟨ticket, origin, task, hevent, hsub, hsession, _⟩ := ho
    simp only [Placed, hevent]
    refine ⟨origin, task, hsub, ?_⟩
    rw [← hsession, ← session, h.connections.session i]
  | marked channel =>
    refine h.grow [] hc (List.append_nil _).symm rfl (by simp) (by simp) (fun _ hx => hx)
      (fun channel message hm => .inl hm) ?_
    intro channel' hm
    exact .inl (Finset.mem_insert_of_mem hm)
  | released channel =>
    refine h.grow [_] hc rfl rfl (by simp) (by simp) (fun _ hx => hx) ?_ ?_
    · intro channel' message hm
      change message ∈ (s.ackBarrier.release channel).2.deferredFor channel' at hm
      rw [AckBarrier.deferredFor_release] at hm
      split at hm
      · cases hm
      · exact .inl hm
    · intro channel' hm
      by_cases heq : channel' = channel
      · exact .inr (by rw [heq])
      · exact .inl (Finset.mem_erase.mpr ⟨heq, hm⟩)
  | deferred channel message _ _ awaiting =>
    refine h.grow [] hc (List.append_nil _).symm rfl (by simp) (by simp) (fun _ hx => hx)
      ?_ ?_
    · intro channel' message' hm
      change message' ∈ (s.ackBarrier.tryDefer channel message).2.deferredFor channel' at hm
      rw [AckBarrier.deferredFor_tryDefer awaiting] at hm
      split at hm
      · next heq =>
        subst heq
        rcases List.mem_append.mp hm with hm | hm
        · exact .inl hm
        · rw [List.mem_singleton.mp hm]
          exact .inr ho
      · exact .inl hm
    · intro channel' hm
      show channel' ∈ (s.ackBarrier.tryDefer channel message).2.awaiting ∨ _
      rw [AckBarrier.awaiting_tryDefer]
      exact .inl hm
  | pushed i task => exact h.push ho hc rfl rfl rfl rfl
  | popped _ _ taken rest front =>
    refine hquiet [] (List.append_nil _).symm rfl (by simp) (by simp) ?_ rfl
    intro x hx
    rw [front]
    exact List.mem_cons_of_mem _ hx

end Invariant

/-- The trace grows, but not by a submission or a release. -/
def Adds (s s' : Server n) : Prop :=
  ∃ es, s'.trace = s.trace ++ es ∧
    (∀ ticket conn task, Event.submitted ticket conn task ∉ es) ∧
    ∀ channel, Event.released channel ∉ es

/-- The calls that accept a submission or open the barrier. -/
def ServerCall.opens : ServerCall n → Bool
  | .push _ _ | .release _ => true
  | _ => false

theorem effect_adds {o : ServerCall n} {e : ServerInput} {s s' : Server n} (ho : o.opens = false)
    (he : Effect o e s s') : Adds s s' := by
  have hsame : s'.trace = s.trace → Adds s s' := by
    intro ht
    exact ⟨[], by rw [ht, List.append_nil], by simp, by simp⟩
  cases he with
  | quiet same => exact hsame same.trace
  | read i outcome =>
    rcases readMessage_cases s i outcome with ⟨errno, rfl, hs⟩ | ⟨chunk, rfl, hs⟩
    · rw [hs] at hsame ⊢
      exact hsame rfl
    · rw [hs]
      exact ⟨[_], rfl, by simp, by simp⟩
  | handled | sent | appended | delivered => exact ⟨[_], rfl, by simp, by simp⟩
  | released | pushed => cases ho
  | _ => exact hsame rfl

theorem WorkerMove.adds {s s' : Server n} (h : WorkerMove s s') : Adds s s' := by
  obtain ⟨es, ht, hes⟩ := h.trace
  refine ⟨es, ht, ?_, ?_⟩
  · intro ticket conn task hm
    obtain ⟨c, m, hx⟩ := hes _ hm
    cases hx
  · intro channel hm
    obtain ⟨c, m, hx⟩ := hes _ hm
    cases hx

/-- Every accepted submission has its ack, `but` one. -/
def AckedBut (but : Option Nat) (trace : List Event) : Prop :=
  ∀ ticket conn task, Event.submitted ticket conn task ∈ trace → but ≠ some ticket →
    Acked trace ticket

/-- Between two requests every submission has its ack. -/
structure Answered (parse : JsonParse) (s : Server n) : Prop extends Addressed parse s where
  acked : AckedBut none s.trace

/-- After an exception every opened submission has. -/
structure Guarded (parse : JsonParse) (s : Server n) : Prop extends Addressed parse s where
  opened : ∀ ticket, Opened s.trace ticket → Acked s.trace ticket

/-- The submission in slot `i` is accepted and its ack not yet appended. -/
structure Accepted (parse : JsonParse) (i : Fin n) (ticket : Nat) (s : Server n) : Prop
    extends Addressed parse s where
  others : AckedBut (some ticket) s.trace
  here : ∃ task, Event.submitted ticket (s.conn i) task ∈ s.trace

section Adds

variable {s s' : Server n}

theorem AckedBut.append {but : Option Nat} {trace es : List Event} (h : AckedBut but trace)
    (hes : ∀ ticket conn task, Event.submitted ticket conn task ∉ es) :
    AckedBut but (trace ++ es) := by
  intro ticket conn task hm hne
  exact (h ticket conn task ((List.mem_append.mp hm).resolve_right (hes _ _ _)) hne).append

theorem Answered.adds (h : Answered parse s) (ha : Addressed parse s') (hadd : Adds s s') :
    Answered parse s' := by
  obtain ⟨es, ht, hsub, _⟩ := hadd
  exact ⟨ha, ht ▸ h.acked.append hsub⟩

theorem Guarded.adds (h : Guarded parse s) (ha : Addressed parse s') (hadd : Adds s s') :
    Guarded parse s' := by
  obtain ⟨es, ht, _, hrel⟩ := hadd
  refine ⟨ha, ?_⟩
  rw [ht]
  intro ticket ho
  exact (h.opened ticket (ho.of_append hrel)).append

theorem Accepted.adds {i : Fin n} {ticket : Nat} (h : Accepted parse i ticket s)
    (ha : Addressed parse s') (hadd : Adds s s') (hconn : s'.conn = s.conn) :
    Accepted parse i ticket s' := by
  obtain ⟨es, ht, hsub, _⟩ := hadd
  obtain ⟨task, hm⟩ := h.here
  refine ⟨ha, ht ▸ h.others.append hsub, task, ?_⟩
  rw [ht, hconn]
  exact List.mem_append_left _ hm

theorem Answered.guarded (h : Answered parse s) : Guarded parse s := by
  refine ⟨h.toAddressed, ?_⟩
  intro ticket ho
  obtain ⟨conn, task, hm⟩ := ho.submitted
  exact h.acked ticket conn task hm nofun

end Adds

end JudgeServer.Network
