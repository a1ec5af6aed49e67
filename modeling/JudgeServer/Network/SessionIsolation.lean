import JudgeServer.Network.DeliveryThreads
import JudgeServer.Network.Readiness

/-!
# Messages stay in their session

A slot or a file descriptor may be taken by another connection while tasks of the old
one are still queued. As long as session ids have not come round, a message of a
submission reaches the connection its request was received on, or none.
-/

namespace JudgeServer.Network

open JudgeServer.Common
open JudgeServer.Dispatch
open JudgeServer.Lib.Interleave
open JudgeServer.Pipeline
open JudgeServer.Protocol

variable {cfg : CleanupConfig} {n : Nat} {parse : JsonParse}

/-- The message a call hands on. -/
def ServerCall.message : ServerCall n → Option Message
  | .setPendingResponse _ message => some message
  | .setPendingResponseIfSession _ _ message => some message
  | .tryDefer _ message => some message
  | _ => none

section Sessions

variable {s s' : Server n}

/-- Below the bound a session id is the number of its connection. -/
theorem Connections.sessionId_eq (h : Connections s) (hfew : s.accepted < 2 ^ 64 - 1) (i : Fin n) :
    (s.slots i).sessionId = s.conn i := by
  have hb := h.bound i
  rw [h.session i]
  exact Nat.mod_eq_of_lt (by omega)

theorem Addressed.submitted_le (h : Addressed parse s) {ticket conn : Nat} {task : SubmissionTask}
    (hm : Event.submitted ticket conn task ∈ s.trace) : conn ≤ s.accepted :=
  h.connections.past _ hm

/-- Where a message of a submission has been appended. -/
theorem Addressed.appended_origin (h : Addressed parse s) (hfew : s.accepted < 2 ^ 64 - 1)
    {conn ticket : Nat} {message : Message} (hm : Event.appended conn message ∈ s.trace)
    (ht : message.subject.ticket = some ticket) :
    ∃ task, Event.submitted ticket conn task ∈ s.trace := by
  have hplaced := h.placed conn message hm
  unfold Placed at hplaced
  cases hs : message.subject with
  | ack k =>
    rw [hs] at hplaced ht
    obtain rfl := Option.some.inj ht
    exact hplaced
  | event k =>
    rw [hs] at hplaced ht
    obtain rfl := Option.some.inj ht
    obtain ⟨origin, task, hsub, hmod⟩ := hplaced
    have hle := h.submitted_le hsub
    have hle' : conn ≤ s.accepted := h.connections.past _ hm
    have heq : conn = origin := by omega
    exact ⟨task, heq ▸ hsub⟩
  | reply =>
    rw [hs] at ht
    cases ht

/-- A call with a message of a submission changes at most the slot of the submission's
connection. -/
theorem Addressed.frame (h : Addressed parse s) (hfew : s.accepted < 2 ^ 64 - 1)
    {o : ServerCall n} (ho : Obeys parse o s) {e : ServerInput} {r : o.Reply}
    (he : Server.perform cfg o e s = some (r, s')) {message : Message} {ticket : Nat}
    (hm : o.message = some message) (ht : message.subject.ticket = some ticket) :
    ∃ conn task, Event.submitted ticket conn task ∈ s.trace ∧
      ∀ j, s.conn j ≠ conn → s'.slots j = s.slots j := by
  cases o with
  | setPendingResponse i response =>
    obtain rfl := Option.some.inj hm
    rcases ho with hreply | ⟨k, task, hack, hsub⟩
    · rw [hreply] at ht
      cases ht
    · rw [hack] at ht
      obtain rfl := Option.some.inj ht
      obtain ⟨_, rfl⟩ := Prod.mk.inj (Option.some.inj he)
      refine ⟨s.conn i, task, hsub, ?_⟩
      intro j hj
      have hji : j ≠ i := fun heq => hj (by rw [heq])
      exact Function.update_of_ne hji _ _
  | setPendingResponseIfSession i sessionId response =>
    obtain rfl := Option.some.inj hm
    obtain ⟨k, origin, task, hevent, hsub, hsession, _⟩ := ho
    rw [hevent] at ht
    obtain rfl := Option.some.inj ht
    refine ⟨origin, task, hsub, ?_⟩
    intro j hj
    rcases setPendingResponseIfSession_cases (Option.some.inj he) with
      ⟨_, rfl⟩ | ⟨_, hs, _, rfl⟩
    · rfl
    · have hle := h.submitted_le hsub
      have hconn := h.connections.sessionId_eq hfew i
      have hji : j ≠ i := by
        rintro rfl
        apply hj
        rw [← hconn, hs, hsession]
        exact Nat.mod_eq_of_lt (by omega)
      exact Function.update_of_ne hji _ _
  | tryDefer channel response =>
    obtain rfl := Option.some.inj hm
    obtain ⟨k, origin, task, hevent, hsub, _⟩ := ho
    rw [hevent] at ht
    obtain rfl := Option.some.inj ht
    exact ⟨origin, task, hsub, fun j _ => congrFun (perform_keepsSlots rfl he) j⟩
  | _ => cases hm

end Sessions

section Addressed

variable {env : Nat → JudgeEnv} {ω : Type} [DecidableEq ω]

/-- In every run in which fewer than `2 ^ 64 - 1` connections have been accepted: session
ids number the connections; a message of a submission has been appended only on the
connection on which the submission's request was received; and the next step, if it hands
on such a message, leaves the slots of all other connections as they are. -/
theorem messages_stay_in_session {c : ServerConfig cfg n ω}
    (hr : Reach (again cfg n parse env ω) anyStep (serverStart cfg n parse env ω) c)
    (hfew : c.shared.accepted < 2 ^ 64 - 1) :
    (∀ i, (c.shared.slots i).sessionId = c.shared.conn i) ∧
    (∀ conn message ticket, Event.appended conn message ∈ c.shared.trace →
      message.subject.ticket = some ticket →
      ∃ task, Event.submitted ticket conn task ∈ c.shared.trace ∧
        ReceivedOn parse conn task.request c.shared.trace ∧
        ∀ conn' task', Event.submitted ticket conn' task' ∈ c.shared.trace → conn' = conn) ∧
    ∀ t e c' o message ticket, step (again cfg n parse env ω) c t e = some c' →
      (c.thread t).head = some o → ServerCall.message o = some message →
      message.subject.ticket = some ticket →
      ∃ conn task, Event.submitted ticket conn task ∈ c.shared.trace ∧
        ∀ j, c.shared.conn j ≠ conn → c'.shared.slots j = c.shared.slots j := by
  have haddr := reach_addressed hr
  refine ⟨haddr.connections.sessionId_eq hfew, ?_, ?_⟩
  · intro conn message ticket hm ht
    obtain ⟨task, hsub⟩ := haddr.appended_origin hfew hm ht
    refine ⟨task, hsub, (haddr.origin ticket conn task hsub).2.2, ?_⟩
    intro conn' task' hsub'
    exact (haddr.unique ticket conn' task' conn task hsub' hsub).1
  · intro t e c' o message ticket hs ho hm ht
    rcases step_cases hs with ⟨a, p, ha, _, _⟩ | ⟨o', k, r, s', hk, he, rfl⟩
    · rw [ha] at ho
      cases ho
    · rw [hk] at ho
      obtain rfl := Option.some.inj ho
      have hobeys : Obeys parse o' c.shared := reach_obeys (t := t) hr (by rw [hk]; rfl)
      exact haddr.frame hfew hobeys (perform_of_exec he) hm ht

end Addressed

section Sample

open JudgeServer.Lib.Framing (frame)

/-- The client gets its ack and leaves; another takes the slot and the descriptor; then
the worker finishes the first client's submission, up to the delivery. -/
def reusedSchedule : Schedule :=
  connecting ++ submitting (frame submitText) ++ quietly .network 3 ++ flushing ++
    quietly .network 2 ++ receiving [] ++ quietly .network 2 ++ connecting ++ judging ++
    quietly (.worker ()) 1

/-- The connection and the subject of an appended message. -/
def Event.about : Event → Option (Nat × Subject)
  | .appended conn message => some (conn, message.subject)
  | _ => none

theorem Event.about_eq {e : Event} {conn : Nat} {subject : Subject}
    (h : e.about = some (conn, subject)) : ∃ body, e = .appended conn ⟨body, subject⟩ := by
  cases e with
  | appended c message =>
    obtain ⟨rfl, rfl⟩ := Prod.mk.inj (Option.some.inj h)
    exact ⟨message.body, rfl⟩
  | _ => cases h

/-- The delivery does not touch the slot of the second client. -/
theorem late_message_is_dropped :
    ∃ c c', Reach sampleAgain anyStep sampleServer c ∧ c.shared.conn 0 = 2 ∧
      (c.shared.slots 0).fd = 5 ∧ step sampleAgain c (.worker ()) .quiet = some c' ∧
      c'.shared.slots 0 = c.shared.slots 0 := by
  have hrun : (run sampleAgain sampleServer reusedSchedule).map (fun c =>
      (decide (c.shared.accepted < 2 ^ 64 - 1 ∧ c.shared.conn 0 = 2 ∧ (c.shared.slots 0).fd = 5),
        decide ((1, .ack 0) ∈ c.shared.trace.filterMap Event.about),
        (c.thread (.worker ())).head.map (fun o => (ServerCall.message o).map (·.subject)),
        (step sampleAgain c (.worker ()) .quiet).isSome)) =
      some (true, true, some (some (.event 0)), true) := by decide +kernel
  obtain ⟨c, hc, hobs⟩ := Option.map_eq_some_iff.mp hrun
  simp only [Prod.mk.injEq, decide_eq_true_eq, List.mem_filterMap] at hobs
  obtain ⟨⟨hfew, hconn, hfd⟩, ⟨x, hx, hack⟩, hhead, hstep⟩ := hobs
  obtain ⟨o, ho, hmessage⟩ := Option.map_eq_some_iff.mp hhead
  obtain ⟨message, hm, hsubject⟩ := Option.map_eq_some_iff.mp hmessage
  obtain ⟨c', hc'⟩ := Option.isSome_iff_exists.mp hstep
  have hr := reach_of_run hc
  obtain ⟨_, hplaced, hframe⟩ := messages_stay_in_session hr hfew
  obtain ⟨conn, task, hsub, hrest⟩ := hframe (.worker ()) .quiet c' o message 0 hc' ho hm
    (by rw [hsubject]; rfl)
  have hfirst : conn = 1 := by
    obtain ⟨body, rfl⟩ := Event.about_eq hack
    obtain ⟨_, _, _, hunique⟩ := hplaced 1 ⟨body, .ack 0⟩ 0 hx rfl
    exact hunique conn task hsub
  refine ⟨c, c', hr, hconn, hfd, hc', hrest 0 ?_⟩
  rw [hconn, hfirst]
  decide

end Sample

end JudgeServer.Network
