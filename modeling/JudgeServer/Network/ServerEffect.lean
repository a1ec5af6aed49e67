import JudgeServer.Network.Server

/-!
# What one call can do to the server

`Effect` lists, once, everything an atomic call can change among the connections, the
barrier, the queue and the trace. Invariants are checked against these cases.
-/

namespace JudgeServer.Network

open JudgeServer.Common
open JudgeServer.Dispatch
open JudgeServer.Pipeline

variable {cfg : CleanupConfig} {n : Nat}

/-- Equal in everything the invariants speak of. -/
structure SameView (s s' : Server n) : Prop where
  slots : s'.slots = s.slots
  freeSlotIds : s'.freeSlotIds = s.freeSlotIds
  nextSessionId : s'.nextSessionId = s.nextSessionId
  ackBarrier : s'.ackBarrier = s.ackBarrier
  queue : s'.queue.queue = s.queue.queue
  conn : s'.conn = s.conn
  accepted : s'.accepted = s.accepted
  submissions : s'.submissions = s.submissions
  unconsumed : s'.unconsumed = s.unconsumed
  trace : s'.trace = s.trace

theorem SameView.refl (s : Server n) : SameView s s :=
  ⟨rfl, rfl, rfl, rfl, rfl, rfl, rfl, rfl, rfl, rfl⟩

inductive Effect : ServerCall n → ServerInput → Server n → Server n → Prop where
  | quiet {o : ServerCall n} {e : ServerInput} {s s' : Server n} (same : SameView s s') :
      Effect o e s s'
  | turnedAway (fd : Int) (e : ServerInput) (s : Server n) :
      Effect (.acquireSlot fd) e s { s with
        nextSessionId := (s.nextSessionId + 1) % 2 ^ 64
        accepted := s.accepted + 1 }
  | opened (fd : Int) (e : ServerInput) (s : Server n) (i : Fin n) (rest : List (Fin n))
      (free : s.freeSlotIds = i :: rest) :
      Effect (.acquireSlot fd) e s { s with
        nextSessionId := (s.nextSessionId + 1) % 2 ^ 64
        accepted := s.accepted + 1
        freeSlotIds := rest
        slots := Function.update s.slots i ((s.slots i).init fd s.nextSessionId)
        conn := Function.update s.conn i (s.accepted + 1)
        unconsumed := Function.update s.unconsumed i 0 }
  | closed (i : Fin n) (e : ServerInput) (s : Server n) (used : (s.slots i).fd ≠ 0) :
      Effect (.releaseSlot i) e s { s with
        freeSlotIds := s.freeSlotIds ++ [i]
        slots := Function.update s.slots i (s.slots i).clear
        conn := Function.update s.conn i 0
        unconsumed := Function.update s.unconsumed i 0 }
  | read (i : Fin n) (outcome : ReadOutcome) (s : Server n) :
      Effect (.readMessage i) (.read outcome) s (s.readMessage i outcome).2
  | handled (i : Fin n) (messageBody : Bytes) (e : ServerInput) (s : Server n) :
      Effect (.handleCompleteMessage i messageBody) e s (s.record (.handled (s.conn i) messageBody))
  | status (i : Fin n) (status : ConnectionSlotStatus) (e : ServerInput) (s : Server n) :
      Effect (.setStatus i status) e s (s.setSlot i ((s.slots i).setStatus status))
  | sent (i : Fin n) (data : Bytes) (outcome : SendOutcome) (s : Server n)
      (le : ∀ count, outcome = .accepted count → count ≤ data.length) :
      Effect (.send i data) (.send outcome) s { s with
        errno := (ConnectionSlot.send data outcome).2.2.getD s.errno
        unconsumed := Function.update s.unconsumed i
          (s.unconsumed i + (ConnectionSlot.send data outcome).2.1.length)
        trace := s.trace ++ [.sent (s.conn i) (ConnectionSlot.send data outcome).2.1] }
  | consumed (i : Fin n) (bytes : Nat) (e : ServerInput) (s : Server n) :
      Effect (.consumePendingResponse i bytes) e s (s.consumePendingResponse i bytes).2
  | appended (i : Fin n) (message : Message) (e : ServerInput) (s : Server n) :
      Effect (.setPendingResponse i message) e s (s.setPendingResponse i message)
  | delivered (i : Fin n) (sessionId : Nat) (message : Message) (e : ServerInput) (s : Server n)
      (session : (s.slots i).sessionId = sessionId) (used : (s.slots i).fd ≠ 0) :
      Effect (.setPendingResponseIfSession i sessionId message) e s
        ((s.setSlot i (((s.slots i).queueResponseLocked message.body).setStatus .writable)).record
          (.appended (s.conn i) message))
  | marked (channel : Bytes) (e : ServerInput) (s : Server n) :
      Effect (.markWaiting channel) e s { s with ackBarrier := s.ackBarrier.markWaiting channel }
  | released (channel : Bytes) (e : ServerInput) (s : Server n) :
      Effect (.release channel) e s { s with
        ackBarrier := (s.ackBarrier.release channel).2
        trace := s.trace ++ [.released channel] }
  | deferred (channel : Bytes) (message : Message) (e : ServerInput) (s : Server n)
      (awaiting : channel ∈ s.ackBarrier.awaiting) :
      Effect (.tryDefer channel message) e s { s with
        ackBarrier := (s.ackBarrier.tryDefer channel message).2 }
  | pushed (i : Fin n) (task : SubmissionTask) (e : ServerInput) (s : Server n) :
      Effect (.push i task) e s { s with
        queue := { s.queue with queue := s.queue.queue ++ [(s.submissions, task)] }
        submissions := s.submissions + 1
        trace := s.trace ++ [.submitted s.submissions (s.conn i) task] }
  | popped (e : ServerInput) (s : Server n) (taken : Nat × SubmissionTask)
      (rest : List (Nat × SubmissionTask)) (front : s.queue.queue = taken :: rest) :
      Effect .pop e s { s with queue := { s.queue with queue := rest } }

/-- The two outcomes of the session check. -/
theorem setPendingResponseIfSession_cases {s s' : Server n} {i : Fin n} {sessionId : Nat}
    {message : Message} {r : Bool} (h : s.setPendingResponseIfSession i sessionId message = (r, s')) :
    (r = false ∧ s' = s) ∨
    (r = true ∧ (s.slots i).sessionId = sessionId ∧ (s.slots i).fd ≠ 0 ∧
      s' = (s.setSlot i (((s.slots i).queueResponseLocked message.body).setStatus .writable)).record
        (.appended (s.conn i) message)) := by
  unfold Server.setPendingResponseIfSession ConnectionSlot.setPendingResponseIfSession at h
  by_cases hc : (s.slots i).sessionId ≠ sessionId ∨ (s.slots i).fd = 0
  · simp only [if_pos hc] at h
    obtain ⟨rfl, rfl⟩ := Prod.mk.inj h
    exact .inl ⟨rfl, rfl⟩
  · simp only [if_neg hc] at h
    obtain ⟨rfl, rfl⟩ := Prod.mk.inj h
    rw [not_or, not_not] at hc
    exact .inr ⟨rfl, hc.1, hc.2, rfl⟩

/-- The queue takes the task or is shut down. -/
theorem push_cases {s s' : Server n} {i : Fin n} {task : SubmissionTask} {r : Option Nat}
    (h : s.push i task = (r, s')) :
    (r = none ∧ s' = s) ∨
    (r = some s.submissions ∧ s' = { s with
      queue := { s.queue with queue := s.queue.queue ++ [(s.submissions, task)] }
      submissions := s.submissions + 1
      trace := s.trace ++ [.submitted s.submissions (s.conn i) task] }) := by
  unfold Server.push at h
  cases hs : s.queue.shutdown with
  | true =>
    rw [SubmissionQueue.push_closed hs] at h
    obtain ⟨rfl, rfl⟩ := Prod.mk.inj h
    exact .inl ⟨rfl, rfl⟩
  | false =>
    rw [SubmissionQueue.push_open hs] at h
    obtain ⟨rfl, rfl⟩ := Prod.mk.inj h
    exact .inr ⟨rfl, rfl⟩

theorem acquireSlot_effect (s : Server n) (fd : Int) (e : ServerInput) :
    Effect (.acquireSlot fd) e s (s.acquireSlot fd).2 := by
  unfold Server.acquireSlot
  dsimp only
  split
  · exact .turnedAway fd e s
  · next i rest hfree => exact .opened fd e s i rest hfree

theorem releaseSlot_effect (s : Server n) (i : Fin n) (e : ServerInput) :
    Effect (.releaseSlot i) e s (s.releaseSlot i) := by
  unfold Server.releaseSlot
  split
  · exact .quiet (.refl _)
  · next used => exact .closed i e s used

theorem perform_effect {o : ServerCall n} {e : ServerInput} {s s' : Server n} {r : o.Reply}
    (h : Server.perform cfg o e s = some (r, s')) : Effect o e s s' := by
  cases o with
  | select reads writes =>
    cases e with
    | select readReady writeReady listening =>
      obtain ⟨_, _, hr⟩ := Option.map_eq_some_iff.mp h
      obtain ⟨_, rfl⟩ := Prod.mk.inj hr
      exact .quiet (.refl _)
    | selectFailed errno =>
      obtain ⟨_, rfl⟩ := Prod.mk.inj (Option.some.inj h)
      exact .quiet (.refl _)
    | _ => cases h
  | accept =>
    cases e with
    | accept fd =>
      obtain ⟨_, rfl⟩ := Prod.mk.inj (Option.some.inj h)
      exact .quiet (.refl _)
    | _ => cases h
  | acquireSlot fd =>
    obtain ⟨_, rfl⟩ := Prod.mk.inj (Option.some.inj h)
    exact acquireSlot_effect s fd e
  | releaseSlot i =>
    obtain ⟨_, rfl⟩ := Prod.mk.inj (Option.some.inj h)
    exact releaseSlot_effect s i e
  | readMessage i =>
    cases e with
    | read outcome =>
      obtain ⟨_, rfl⟩ := Prod.mk.inj (Option.some.inj h)
      exact .read i outcome s
    | _ => cases h
  | setStatus i status =>
    obtain ⟨_, rfl⟩ := Prod.mk.inj (Option.some.inj h)
    exact .status i status e s
  | handleCompleteMessage i messageBody =>
    obtain ⟨_, rfl⟩ := Prod.mk.inj (Option.some.inj h)
    exact .handled i messageBody e s
  | send i data =>
    cases e with
    | send outcome =>
      cases outcome with
      | accepted count =>
        change (if count ≤ data.length then some (s.send i data (.accepted count)) else none) = _
          at h
        split at h
        · next hle =>
          obtain ⟨_, rfl⟩ := Prod.mk.inj (Option.some.inj h)
          refine .sent i data (.accepted count) s ?_
          intro k hk
          obtain rfl := SendOutcome.accepted.inj hk
          exact hle
        · cases h
      | failed errno =>
        obtain ⟨_, rfl⟩ := Prod.mk.inj (Option.some.inj h)
        exact .sent i data (.failed errno) s (fun _ hk => by cases hk)
    | _ => cases h
  | consumePendingResponse i bytes =>
    obtain ⟨_, rfl⟩ := Prod.mk.inj (Option.some.inj h)
    exact .consumed i bytes e s
  | setPendingResponse i message =>
    obtain ⟨_, rfl⟩ := Prod.mk.inj (Option.some.inj h)
    exact .appended i message e s
  | setPendingResponseIfSession i sessionId message =>
    rcases setPendingResponseIfSession_cases (Option.some.inj h) with
      ⟨_, rfl⟩ | ⟨_, hsession, hfd, rfl⟩
    · exact .quiet (.refl _)
    · exact .delivered i sessionId message e s hsession hfd
  | markWaiting channel =>
    obtain ⟨_, rfl⟩ := Prod.mk.inj (Option.some.inj h)
    exact .marked channel e s
  | release channel =>
    obtain ⟨_, rfl⟩ := Prod.mk.inj (Option.some.inj h)
    exact .released channel e s
  | tryDefer channel message =>
    obtain ⟨_, rfl⟩ := Prod.mk.inj (Option.some.inj h)
    by_cases hw : channel ∈ s.ackBarrier.awaiting
    · exact .deferred channel message e s hw
    · have hb : (s.ackBarrier.tryDefer channel message).2 = s.ackBarrier := by
        unfold AckBarrier.tryDefer
        rw [if_neg hw]
      exact .quiet ⟨rfl, rfl, rfl, hb, rfl, rfl, rfl, rfl, rfl, rfl⟩
  | store call =>
    cases e with
    | store input =>
      obtain ⟨_, rfl⟩ := Prod.mk.inj (Option.some.inj h)
      exact .quiet ⟨rfl, rfl, rfl, rfl, rfl, rfl, rfl, rfl, rfl, rfl⟩
    | _ => cases h
  | push i task =>
    rcases push_cases (Option.some.inj h) with ⟨_, rfl⟩ | ⟨_, rfl⟩
    · exact .quiet (.refl _)
    · exact .pushed i task e s
  | pop =>
    obtain ⟨⟨taken, q⟩, hq, hr⟩ := Option.map_eq_some_iff.mp h
    obtain ⟨_, rfl⟩ := Prod.mk.inj hr
    rcases SubmissionQueue.pop_cases hq with ⟨_, _, _, rfl⟩ | ⟨taken, rest, _, hfront, rfl⟩
    · exact .quiet ⟨rfl, rfl, rfl, rfl, rfl, rfl, rfl, rfl, rfl, rfl⟩
    · exact .popped e s taken rest hfront
  | _ =>
    obtain ⟨_, rfl⟩ := Prod.mk.inj (Option.some.inj h)
    exact .quiet ⟨rfl, rfl, rfl, rfl, rfl, rfl, rfl, rfl, rfl, rfl⟩

end JudgeServer.Network
