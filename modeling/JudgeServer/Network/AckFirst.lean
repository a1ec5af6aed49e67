import JudgeServer.Network.SessionIsolation
import JudgeServer.Lib.Cuts

/-!
# The ack comes first

The barrier keeps the events of a submission back until it is released. Between the
release and the append of the ack the network thread makes no other call, but a worker
may: an event delivered in that gap is ahead of the ack. In every run without such a
delivery the order is kept.
-/

namespace JudgeServer.Network

open JudgeServer.Common
open JudgeServer.Dispatch
open JudgeServer.Lib.Cuts
open JudgeServer.Lib.Interleave
open JudgeServer.Pipeline
open JudgeServer.Protocol

variable {cfg : CleanupConfig} {n : Nat} {parse : JsonParse}

/-- Every event of a submission has the submission's ack before it. -/
def AckedFirst (trace : List Event) : Prop :=
  ∀ a b conn body ticket, trace = a ++ Event.appended conn ⟨body, .event ticket⟩ :: b →
    Acked a ticket

theorem AckedFirst.snoc {trace : List Event} {x : Event} (h : AckedFirst trace)
    (hx : ∀ conn body ticket, x = .appended conn ⟨body, .event ticket⟩ → Acked trace ticket) :
    AckedFirst (trace ++ [x]) := by
  intro a b conn body ticket hs
  rcases split_snoc hs with ⟨_, rfl, rfl⟩ | ⟨b', _, ht⟩
  · exact hx conn body ticket rfl
  · exact h a b' conn body ticket ht

/-- One call: an event is appended by a delivery only. -/
theorem AckedFirst.effect {o : ServerCall n} {e : ServerInput} {s s' : Server n}
    (h : AckedFirst s.trace) (ho : Obeys parse o s)
    (hdeliver : ∀ i sessionId body ticket,
      o = .setPendingResponseIfSession i sessionId ⟨body, .event ticket⟩ →
      (s.slots i).sessionId = sessionId → Acked s.trace ticket)
    (he : Effect o e s s') : AckedFirst s'.trace := by
  cases he with
  | quiet same => rwa [same.trace]
  | read i outcome =>
    rcases readMessage_cases s i outcome with ⟨errno, rfl, hs⟩ | ⟨chunk, rfl, hs⟩
    · rw [hs]
      exact h
    · rw [hs]
      exact h.snoc nofun
  | appended i message =>
    refine h.snoc ?_
    intro conn body ticket hx
    obtain ⟨_, rfl⟩ := Event.appended.inj hx
    rcases ho with hreply | ⟨k, task, hack, _⟩
    · cases hreply
    · cases hack
  | delivered i sessionId message _ _ session used =>
    refine h.snoc ?_
    intro conn body ticket hx
    obtain ⟨_, rfl⟩ := Event.appended.inj hx
    exact hdeliver i sessionId body ticket rfl session
  | handled | sent | released | pushed => exact h.snoc nofun
  | _ => exact h

section Ordered

variable {env : Nat → JudgeEnv} {ω : Type} [DecidableEq ω]

/-- The step is not the delivery of an event, to the session it is for, while the
network thread is about to append the ack of the same submission. -/
def NoEarlyEvent (c : ServerConfig cfg n ω) (t : Thread ω) (_ : ServerInput) : Prop :=
  ∀ i sessionId body ticket, t ≠ .network →
    (c.thread t).head =
      some (ServerCall.setPendingResponseIfSession i sessionId ⟨body, .event ticket⟩) →
    (c.shared.slots i).sessionId = sessionId →
    ∀ j ack, (c.thread .network).head ≠ some (ServerCall.setPendingResponse j ⟨ack, .ack ticket⟩)

/-- An opened submission has its ack, unless that is the network thread's next call. -/
theorem reach_acked {ok : ServerConfig cfg n ω → Thread ω → ServerInput → Prop}
    {c : ServerConfig cfg n ω}
    (hr : Reach (again cfg n parse env ω) ok (serverStart cfg n parse env ω) c) {ticket : Nat}
    (ho : Opened c.shared.trace ticket) :
    Acked c.shared.trace ticket ∨ ∃ i ack, (c.thread .network).head =
      some (ServerCall.setPendingResponse i ⟨ack, .ack ticket⟩) := by
  have hsafe := reach_delivery hr .network
  cases hp : c.thread .network with
  | ret a =>
    rw [hp] at hsafe
    have hpost := hsafe.post
    cases a with
    | true => exact .inl (hpost.guarded.opened ticket ho)
    | false => exact .inl (hpost.opened ticket ho)
  | call o k =>
    rw [hp] at hsafe
    rcases hsafe.pre.2.2 ticket ho with hacked | ⟨i, ack, rfl⟩
    · exact .inl hacked
    · exact .inr ⟨i, ack, rfl⟩

theorem reach_ackedFirst {c : ServerConfig cfg n ω}
    (hr : Reach (again cfg n parse env ω) NoEarlyEvent (serverStart cfg n parse env ω) c) :
    AckedFirst c.shared.trace := by
  refine Reach.invariant (fun s => AckedFirst s.trace) ?_ ?_ hr
  · intro a b conn body ticket hs
    cases a <;> cases hs
  · intro c t e o k r s' hc hok hk he hfirst
    have hhead : (c.thread t).head = some o := by rw [hk]; rfl
    have hobeys : Obeys parse o c.shared := reach_obeys hc hhead
    refine hfirst.effect hobeys ?_ (perform_effect (perform_of_exec he))
    rintro i sessionId body ticket rfl hsession
    obtain ⟨k', conn, task, hevent, _, _, hopened⟩ := hobeys
    obtain rfl := Subject.event.inj hevent
    rcases reach_acked hc hopened with hacked | ⟨j, ack, hnet⟩
    · exact hacked
    · by_cases ht : t = .network
      · subst ht
        rw [hhead] at hnet
        cases hnet
      · exact absurd hnet (hok i sessionId body ticket ht hhead hsession j ack)

/-- In every run without an early event, each event of a submission is appended after the
submission's ack. The ack is on the connection the submission came from, and that is the
connection of the event as long as session ids have not come round. -/
theorem ack_comes_first {c : ServerConfig cfg n ω}
    (hr : Reach (again cfg n parse env ω) NoEarlyEvent (serverStart cfg n parse env ω) c)
    {a b : List Event} {conn : Nat} {body : Bytes} {ticket : Nat}
    (h : c.shared.trace = a ++ Event.appended conn ⟨body, .event ticket⟩ :: b) :
    ∃ origin task, Event.submitted ticket origin task ∈ c.shared.trace ∧
      (∃ ack, Event.appended origin ⟨ack, .ack ticket⟩ ∈ a) ∧
      (c.shared.accepted < 2 ^ 64 - 1 → conn = origin) := by
  have haddr := reach_addressed hr
  obtain ⟨origin, ack, hack⟩ := reach_ackedFirst hr a b conn body ticket h
  have hack' : Event.appended origin ⟨ack, .ack ticket⟩ ∈ c.shared.trace := by
    rw [h]
    exact List.mem_append_left _ hack
  obtain ⟨task, hsub⟩ : ∃ task, Event.submitted ticket origin task ∈ c.shared.trace :=
    haddr.placed origin _ hack'
  refine ⟨origin, task, hsub, ⟨ack, hack⟩, ?_⟩
  intro hfew
  have hevent : Event.appended conn ⟨body, .event ticket⟩ ∈ c.shared.trace := by
    rw [h]
    exact List.mem_append_right _ List.mem_cons_self
  obtain ⟨task', hsub'⟩ := haddr.appended_origin hfew hevent rfl
  exact (haddr.unique ticket conn task' origin task hsub' hsub).1

end Ordered

section Sample

open JudgeServer.Lib.Framing (frame)

/-- The test that no delivery is next while an ack is. -/
def noEarlyTest (c : ServerConfig {} 1 Unit) (t : Thread Unit) (_ : ServerInput) : Bool :=
  match (c.thread t).head, (c.thread .network).head with
  | some (ServerCall.setPendingResponseIfSession _ _ _), some (ServerCall.setPendingResponse _ _) =>
      false
  | _, _ => true

theorem noEarlyTest_ok (c : ServerConfig {} 1 Unit) (t : Thread Unit) (e : ServerInput)
    (h : noEarlyTest c t e = true) : NoEarlyEvent c t e := by
  intro i sessionId body ticket _ ho _ j ack hnet
  unfold noEarlyTest at h
  rw [ho, hnet] at h
  cases h

/-- The ack is appended, then the worker delivers. -/
def orderedSchedule : Schedule :=
  connecting ++ submitting (frame submitText) ++ quietly .network 2 ++ judging ++
    quietly (.worker ()) 2

theorem finished_follows_ack :
    ∃ c a b body, Reach sampleAgain NoEarlyEvent sampleServer c ∧
      c.shared.trace = a ++ Event.appended 1 ⟨body, .event 0⟩ :: b ∧
      ∃ ack, Event.appended 1 ⟨ack, .ack 0⟩ ∈ a := by
  have hrun : (runWhere sampleAgain noEarlyTest sampleServer orderedSchedule).map (fun c =>
      (decide (c.shared.accepted < 2 ^ 64 - 1), c.shared.trace.filterMap Event.about)) =
      some (true, [(1, .ack 0), (1, .event 0)]) := by decide +kernel
  obtain ⟨c, hc, hobs⟩ := Option.map_eq_some_iff.mp hrun
  simp only [Prod.mk.injEq, decide_eq_true_eq] at hobs
  obtain ⟨hfew, habout⟩ := hobs
  obtain ⟨a, x, rest, htrace, _, _, hrest⟩ := List.filterMap_eq_cons_iff.mp habout
  obtain ⟨a', y, b, rfl, _, hy, _⟩ := List.filterMap_eq_cons_iff.mp hrest
  obtain ⟨body, rfl⟩ := Event.about_eq hy
  have hr := reach_of_runWhere noEarlyTest_ok hc
  have hsplit : c.shared.trace = (a ++ x :: a') ++ Event.appended 1 ⟨body, .event 0⟩ :: b := by
    rw [htrace, List.append_assoc, List.cons_append]
  obtain ⟨origin, task, _, ⟨ack, hack⟩, horigin⟩ := ack_comes_first hr hsplit
  rw [← horigin hfew] at hack
  exact ⟨c, a ++ x :: a', b, body, hr, hsplit, ack, hack⟩

/-- The barrier is released, the worker delivers, then the ack is appended. -/
def earlySchedule : Schedule :=
  connecting ++ submitting (frame submitText) ++ judging ++ quietly (.worker ()) 2 ++
    quietly .network 1

theorem finished_precedes_ack :
    ∃ c, Reach sampleAgain anyStep sampleServer c ∧
      c.shared.trace.filterMap Event.about = [(1, .event 0), (1, .ack 0)] ∧
      ¬ AckedFirst c.shared.trace := by
  have hrun : (run sampleAgain sampleServer earlySchedule).map
      (fun c => c.shared.trace.filterMap Event.about) = some [(1, .event 0), (1, .ack 0)] := by
    decide +kernel
  obtain ⟨c, hc, habout⟩ := Option.map_eq_some_iff.mp hrun
  obtain ⟨a, x, b, htrace, hnone, hx, _⟩ := List.filterMap_eq_cons_iff.mp habout
  obtain ⟨body, rfl⟩ := Event.about_eq hx
  refine ⟨c, reach_of_run hc, habout, ?_⟩
  intro hfirst
  obtain ⟨conn, ack, hack⟩ := hfirst a b 1 body 0 htrace
  cases hnone _ hack

end Sample

end JudgeServer.Network
