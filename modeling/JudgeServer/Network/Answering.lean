import JudgeServer.Network.DeliveryThreads
import JudgeServer.Network.Requests

/-!
# Every request is answered

The network thread answers a complete message before it looks at the next one: between
two calls of `select` the requests it has handled and the immediate responses it has
queued are in step, each response on the connection of its request and made from it, and
so are the submissions the store has created. Workers only add events, which are no answers,
and create nothing. An exception in the middle of a request leaves this one request without
an answer, and the thread does not come back.
-/

namespace JudgeServer.Network

open JudgeServer.Common
open JudgeServer.Dispatch
open JudgeServer.Lib.Interleave
open JudgeServer.Pipeline
open JudgeServer.Protocol

variable {cfg : CleanupConfig} {n : Nat} {parse : JsonParse}

/-- A request handed to `handle_complete_message`, or an immediate response. -/
inductive Talk where
  | request (conn : Nat) (body : Bytes)
  | answer (conn : Nat) (message : Message)

def Subject.isEvent : Subject → Bool
  | .event _ => true
  | _ => false

def Event.talk : Event → Option Talk
  | .handled conn body => some (.request conn body)
  | .appended conn message => if message.subject.isEvent then none else some (.answer conn message)
  | _ => none

def talk (trace : List Event) : List Talk := trace.filterMap Event.talk

theorem talk_snoc (trace : List Event) (e : Event) :
    talk (trace ++ [e]) = talk trace ++ e.talk.toList := by
  simp only [talk, List.filterMap_append, List.filterMap_cons, List.filterMap_nil]
  cases e.talk <;> rfl

/-- One request and its answer, with the submission the store has created in between. -/
structure Exchange where
  conn : Nat
  body : Bytes
  created : Option Int
  message : Message

def Exchange.talk (x : Exchange) : List Talk := [.request x.conn x.body, .answer x.conn x.message]

/-- What the response to a message may be: an ack with the id of the submission created for
it or the refusal, the record of the lookup made for it, or the error. -/
def AnswerTo (parse : JsonParse) (s : Server n) (x : Exchange) : Prop :=
  match decodeRequest parse x.body with
  | some request => ∃ id, x.created = some id ∧
      ((∃ ticket task, x.message.subject = .ack ticket ∧ task.request = request ∧
        task.submissionId = id ∧ Event.submitted ticket x.conn task ∈ s.trace ∧
        encodeSubmissionAck id = .ok x.message.body) ∨
      (x.message.subject = .reply ∧
        encodeError (ascii "submission queue unavailable") = .ok x.message.body))
  | none =>
      x.created = none ∧ x.message.subject = .reply ∧
        match decodeQueryRequest parse x.body with
        | some request => ∃ found, Entry.got request.submissionId found ∈ s.store.history ∧
            queryResponse found = .ok x.message.body
        | none => encodeError (ascii "bad request") = .ok x.message.body

/-- All that is recorded is kept. -/
structure Grows (s s' : Server n) : Prop where
  trace : s.trace <+: s'.trace
  history : s.store.history <+: s'.store.history

theorem Grows.refl (s : Server n) : Grows s s := ⟨List.prefix_refl _, List.prefix_refl _⟩

theorem AnswerTo.grows {s s' : Server n} {x : Exchange} (h : AnswerTo parse s x)
    (hg : Grows s s') : AnswerTo parse s' x := by
  unfold AnswerTo at h ⊢
  split
  · next request hd =>
    rw [hd] at h
    obtain ⟨id, hcreated, ⟨ticket, task, hsubject, hrequest, hid, hm, hack⟩ | hrefused⟩ := h
    · exact ⟨id, hcreated, .inl ⟨ticket, task, hsubject, hrequest, hid, hg.trace.subset hm, hack⟩⟩
    · exact ⟨id, hcreated, .inr hrefused⟩
  · next hd =>
    rw [hd] at h
    refine ⟨h.1, h.2.1, ?_⟩
    have hrest := h.2.2
    split
    · next request hq =>
      rw [hq] at hrest
      obtain ⟨found, hm, hresponse⟩ := hrest
      exact ⟨found, hg.history.subset hm, hresponse⟩
    · next hq =>
      rw [hq] at hrest
      exact hrest

/-- The talk and the ids handed out so far: whole exchanges, and then `rest` and `late`. -/
def InStep (parse : JsonParse) (rest : List Talk) (late : Option Int) (s : Server n) : Prop :=
  ∃ exchanges : List Exchange, talk s.trace = exchanges.flatMap Exchange.talk ++ rest ∧
    Pipeline.handedOut s.store.history = exchanges.filterMap Exchange.created ++ late.toList ∧
    ∀ x ∈ exchanges, AnswerTo parse s x

/-- Nothing is open. -/
def AllAnswered (parse : JsonParse) (s : Server n) : Prop := InStep parse [] none s

/-- The message on slot `i` is open, and `created` is the submission made of it. -/
def Asked (parse : JsonParse) (i : Fin n) (body : Bytes) (created : Option Int) (s : Server n) :
    Prop :=
  InStep parse [.request (s.conn i) body] created s

/-- At most one request is open. -/
def Halted (parse : JsonParse) (s : Server n) : Prop :=
  AllAnswered parse s ∨ ∃ conn body created, InStep parse [.request conn body] created s

/-- Nothing has been said and no submission created. -/
structure Silent (s s' : Server n) : Prop extends Grows s s' where
  talk : talk s'.trace = talk s.trace
  handedOut : Pipeline.handedOut s'.store.history = Pipeline.handedOut s.store.history

theorem InStep.silent {rest : List Talk} {late : Option Int} {s s' : Server n}
    (h : InStep parse rest late s) (hs : Silent s s') : InStep parse rest late s' := by
  obtain ⟨exchanges, htalk, hids, hanswers⟩ := h
  exact ⟨exchanges, hs.talk.trans htalk, hs.handedOut.trans hids,
    fun x hx => (hanswers x hx).grows hs.toGrows⟩

theorem Asked.halted {i : Fin n} {body : Bytes} {created : Option Int} {s : Server n}
    (h : Asked parse i body created s) : Halted parse s := .inr ⟨_, _, _, h⟩

/-- The request is answered. -/
theorem Asked.answered {i : Fin n} {body : Bytes} {created : Option Int} {message : Message}
    {s s' : Server n} (h : Asked parse i body created s)
    (hans : AnswerTo parse s ⟨s.conn i, body, created, message⟩) (hg : Grows s s')
    (ht : talk s'.trace = talk s.trace ++ [.answer (s.conn i) message])
    (hids : Pipeline.handedOut s'.store.history = Pipeline.handedOut s.store.history) :
    AllAnswered parse s' := by
  obtain ⟨exchanges, htalk, hcreated, hanswers⟩ := h
  refine ⟨exchanges ++ [⟨s.conn i, body, created, message⟩], ?_, ?_, ?_⟩
  · rw [ht, htalk]
    simp [Exchange.talk]
  · rw [hids, hcreated, List.filterMap_append]
    cases created <;> simp
  · intro x hx
    obtain hx | hx := List.mem_append.mp hx
    · exact (hanswers x hx).grows hg
    · rw [List.mem_singleton.mp hx]
      exact hans.grows hg

/-- The calls that add to the talk or create a submission. -/
def ServerCall.talks : ServerCall n → Bool
  | .handleCompleteMessage _ _ | .setPendingResponse _ _ | .store (.createSubmission _) => true
  | _ => false

theorem acquireSlot_store (s : Server n) (fd : Int) : (s.acquireSlot fd).2.store = s.store := by
  unfold Server.acquireSlot
  dsimp only
  split <;> rfl

theorem releaseSlot_store (s : Server n) (i : Fin n) : (s.releaseSlot i).store = s.store := by
  unfold Server.releaseSlot
  split <;> rfl

theorem perform_store {o : ServerCall n} {e : ServerInput} {s s' : Server n} {r : o.Reply}
    (ho : ∀ c, o ≠ .store c) (h : Server.perform cfg o e s = some (r, s')) : s'.store = s.store := by
  cases o with
  | store c => exact absurd rfl (ho c)
  | select reads writes =>
    cases e with
    | select readReady writeReady listening =>
      obtain ⟨_, _, hr⟩ := Option.map_eq_some_iff.mp h
      obtain ⟨_, rfl⟩ := Prod.mk.inj hr
      rfl
    | selectFailed errno =>
      obtain ⟨_, rfl⟩ := Prod.mk.inj (Option.some.inj h)
      rfl
    | _ => cases h
  | accept =>
    cases e with
    | accept fd =>
      obtain ⟨_, rfl⟩ := Prod.mk.inj (Option.some.inj h)
      rfl
    | _ => cases h
  | acquireSlot fd =>
    obtain ⟨_, rfl⟩ := Prod.mk.inj (Option.some.inj h)
    exact acquireSlot_store s fd
  | releaseSlot i =>
    obtain ⟨_, rfl⟩ := Prod.mk.inj (Option.some.inj h)
    exact releaseSlot_store s i
  | readMessage i =>
    cases e with
    | read outcome =>
      obtain ⟨_, rfl⟩ := Prod.mk.inj (Option.some.inj h)
      cases outcome <;> rfl
    | _ => cases h
  | send i data =>
    cases e with
    | send outcome =>
      cases outcome with
      | accepted count =>
        change (if count ≤ data.length then some (s.send i data (.accepted count)) else none) = _
          at h
        split at h
        · obtain ⟨_, rfl⟩ := Prod.mk.inj (Option.some.inj h)
          rfl
        · cases h
      | failed errno =>
        obtain ⟨_, rfl⟩ := Prod.mk.inj (Option.some.inj h)
        rfl
    | _ => cases h
  | setPendingResponseIfSession i sessionId message =>
    obtain ⟨_, rfl⟩ | ⟨_, _, _, rfl⟩ := setPendingResponseIfSession_cases (Option.some.inj h)
    · rfl
    · rfl
  | push i task =>
    obtain ⟨_, rfl⟩ | ⟨_, rfl⟩ := push_cases (Option.some.inj h)
    · rfl
    · rfl
  | pop =>
    obtain ⟨_, _, hr⟩ := Option.map_eq_some_iff.mp h
    obtain ⟨_, rfl⟩ := Prod.mk.inj hr
    rfl
  | _ =>
    obtain ⟨_, rfl⟩ := Prod.mk.inj (Option.some.inj h)
    rfl

theorem perform_grows {o : ServerCall n} {e : ServerInput} {s s' : Server n} {r : o.Reply}
    (h : Server.perform cfg o e s = some (r, s')) : Grows s s' := by
  refine ⟨effect_trace (perform_effect h), ?_⟩
  by_cases ho : ∀ c, o ≠ .store c
  · rw [perform_store ho h]
  · push Not at ho
    obtain ⟨c, rfl⟩ := ho
    cases e with
    | store input =>
      obtain ⟨_, rfl⟩ := Prod.mk.inj (Option.some.inj h)
      obtain ⟨entry, hentry, -⟩ := Pipeline.perform_effect cfg c input s.store
      exact ⟨[entry], hentry.symm⟩
    | _ => cases h

/-- Other calls add nothing: what they append is an event. -/
theorem perform_talk {o : ServerCall n} {e : ServerInput} {s s' : Server n} {r : o.Reply}
    (ho : o.talks = false) (hobeys : Obeys parse o s)
    (h : Server.perform cfg o e s = some (r, s')) : talk s'.trace = talk s.trace := by
  have hnone : ∀ {x : Event}, x.talk = none → talk (s.trace ++ [x]) = talk s.trace := by
    intro x hx
    rw [talk_snoc, hx]
    exact List.append_nil _
  cases perform_effect h with
  | quiet same => rw [same.trace]
  | handled | appended => cases ho
  | read i outcome =>
    cases outcome with
    | failed errno => rfl
    | bytes chunk => exact hnone rfl
  | delivered i sessionId message =>
    obtain ⟨ticket, _, _, hsubject, _⟩ := hobeys
    refine hnone (x := .appended (s.conn i) message) ?_
    simp [Event.talk, hsubject, Subject.isEvent]
  | sent | released | pushed => exact hnone rfl
  | _ => rfl

theorem perform_handedOut {o : ServerCall n} {e : ServerInput} {s s' : Server n} {r : o.Reply}
    (ho : ∀ request, o ≠ .store (.createSubmission request))
    (h : Server.perform cfg o e s = some (r, s')) :
    Pipeline.handedOut s'.store.history = Pipeline.handedOut s.store.history := by
  by_cases hstore : ∀ c, o ≠ .store c
  · rw [perform_store hstore h]
  · push Not at hstore
    obtain ⟨c, rfl⟩ := hstore
    cases e with
    | store input =>
      obtain ⟨_, rfl⟩ := Prod.mk.inj (Option.some.inj h)
      cases c with
      | createSubmission request => exact absurd rfl (ho request)
      | updateResult id result => exact handedOut_snoc_other _ (by simp)
      | getResult id => exact handedOut_snoc_other _ (by simp)
    | _ => cases h

theorem perform_silent {o : ServerCall n} {e : ServerInput} {s s' : Server n} {r : o.Reply}
    (ho : o.talks = false) (hobeys : Obeys parse o s)
    (h : Server.perform cfg o e s = some (r, s')) : Silent s s' := by
  refine ⟨perform_grows h, perform_talk ho hobeys h, perform_handedOut ?_ h⟩
  rintro request rfl
  cases ho

theorem perform_conn {o : ServerCall n} {e : ServerInput} {s s' : Server n} {r : o.Reply}
    (ho : o.replies = true) (h : Server.perform cfg o e s = some (r, s')) : s'.conn = s.conn := by
  cases perform_effect h with
  | quiet same => exact same.conn
  | turnedAway | opened | closed | read => cases ho
  | consumed | sent => cases ho
  | _ => rfl

/-- The network thread among the others, which add nothing. Its own calls obey, as
those of every run do; it waits for sockets only when nothing is open. -/
def answerContract (parse : JsonParse) (cfg : CleanupConfig) (n : Nat) :
    Contract (serverMachine cfg n) where
  allows o _ s := Obeys parse o s
  rely _ s s' := Silent s s' ∧ s'.conn = s.conn
  pre o s := Halted parse s ∧ (ServerCall.selects o = true → AllAnswered parse s)

section Stability

variable {i : Fin n} {body : Bytes} {created : Option Int}

theorem stable_allAnswered (o : Option (ServerCall n)) :
    Stable ((answerContract parse cfg n).rely o) (AllAnswered parse) :=
  fun _ _ h hr => h.silent hr.1

theorem stable_asked (o : Option (ServerCall n)) :
    Stable ((answerContract parse cfg n).rely o) (Asked parse i body created) := by
  intro s s' h hr
  unfold Asked
  rw [hr.2]
  exact h.silent hr.1

theorem Halted.silent {s s' : Server n} (h : Halted parse s) (hs : Silent s s') :
    Halted parse s' := by
  obtain h | ⟨conn, body, created, h⟩ := h
  · exact .inl (h.silent hs)
  · exact .inr ⟨conn, body, created, h.silent hs⟩

theorem stable_halted (o : Option (ServerCall n)) :
    Stable ((answerContract parse cfg n).rely o) (Halted parse) :=
  fun _ _ h hr => h.silent hr.1

end Stability

section Network

variable {s s' : Server n} {i : Fin n} {body : Bytes} {created : Option Int}

theorem AllAnswered.pre (h : AllAnswered parse s) (o : ServerCall n) :
    (answerContract parse cfg n).pre o s := ⟨.inl h, fun _ => h⟩

theorem Asked.pre (h : Asked parse i body created s) {o : ServerCall n} (ho : o.selects = false) :
    (answerContract parse cfg n).pre o s :=
  ⟨h.halted, fun hs => by rw [ho] at hs; cases hs⟩

theorem AllAnswered.perform {o : ServerCall n} {e : ServerInput} {r : o.Reply} (h : AllAnswered parse s)
    (ho : o.talks = false) (hobeys : Obeys parse o s)
    (he : Server.perform cfg o e s = some (r, s')) : AllAnswered parse s' :=
  h.silent (perform_silent ho hobeys he)

theorem Asked.perform {o : ServerCall n} {e : ServerInput} {r : o.Reply}
    (h : Asked parse i body created s) (ho : o.talks = false) (hreplies : o.replies = true)
    (hobeys : Obeys parse o s) (he : Server.perform cfg o e s = some (r, s')) :
    Asked parse i body created s' := by
  unfold Asked
  rw [perform_conn hreplies he]
  exact h.silent (perform_silent ho hobeys he)

/-- Part of a handler that adds nothing. -/
theorem silent_allAnswered {α : Type} {p : ServerM cfg n α}
    (hp : p.run.Uses fun o : ServerCall n => o.talks = false) (h : AllAnswered parse s) :
    Safe (answerContract parse cfg n) (Ends (AllAnswered parse) (Halted parse)) p.run s := by
  have hsafe : Safe (answerContract parse cfg n) (fun _ => AllAnswered parse) p.run s := by
    refine Safe.of_uses (AllAnswered parse) hp stable_allAnswered h (fun o s _ hs => hs.pre o) ?_
    intro o s e r s' ho hs hobeys he
    exact hs.perform ho hobeys (perform_of_exec he)
  apply hsafe.mono
  intro x s hs
  cases x with
  | ok a => exact hs
  | error e => exact .inl hs

theorem talks_of_worker {o : ServerCall n} (h : o.worker = true) : o.talks = false := by
  cases o with
  | handleCompleteMessage | setPendingResponse => cases h
  | store c =>
    cases c with
    | createSubmission request => cases h
    | _ => rfl
  | _ => rfl

theorem talks_of_flushes {o : ServerCall n} (h : o.flushes = true) : o.talks = false := by
  cases o with
  | handleCompleteMessage | setPendingResponse | store => cases h
  | _ => rfl

theorem queueDeferredMessages_silent (channel : Bytes) (messages : List Message) :
    (queueDeferredMessages channel messages : ServerM cfg n Unit).run.Uses
      (fun o : ServerCall n => o.talks = false) := by
  induction messages with
  | nil => trivial
  | cons msg rest ih =>
    refine Prog.Uses.except_bind ?_ fun _ => ih
    exact (queueProtocolResponseForChannel_uses channel msg).mono fun _ ho => talks_of_worker ho

/-- The answer to the open message is made. -/
def Ready (parse : JsonParse) (i : Fin n) (body : Bytes) (message : Message) (s : Server n) : Prop :=
  ∃ created, Asked parse i body created s ∧ AnswerTo parse s ⟨s.conn i, body, created, message⟩

theorem Ready.halted {message : Message} (h : Ready parse i body message s) : Halted parse s := by
  obtain ⟨created, hasked, -⟩ := h
  exact hasked.halted

theorem Ready.pre {message : Message} (h : Ready parse i body message s) {o : ServerCall n}
    (ho : o.selects = false) : (answerContract parse cfg n).pre o s := by
  obtain ⟨created, hasked, -⟩ := h
  exact hasked.pre ho

theorem stable_ready {message : Message} (o : Option (ServerCall n)) :
    Stable ((answerContract parse cfg n).rely o) (Ready parse i body message) := by
  rintro s s' ⟨created, hasked, hanswer⟩ hr
  refine ⟨created, stable_asked o s s' hasked hr, ?_⟩
  rw [hr.2]
  exact hanswer.grows hr.1.toGrows

theorem Ready.appended {message : Message} {e : ServerInput} {r : Unit}
    (h : Ready parse i body message s) (hobeys : Obeys parse (.setPendingResponse i message) s)
    (he : Server.perform cfg (.setPendingResponse i message) e s = some (r, s')) :
    AllAnswered parse s' := by
  have hevent : message.subject.isEvent = false := by
    obtain hreply | ⟨ticket, task, hack, -⟩ := hobeys
    · rw [hreply]
      rfl
    · rw [hack]
      rfl
  obtain ⟨created, hasked, hanswer⟩ := h
  refine hasked.answered hanswer (perform_grows he) ?_ (perform_handedOut (by simp) he)
  obtain ⟨_, rfl⟩ := Prod.mk.inj (Option.some.inj he)
  show talk (s.trace ++ [.appended (s.conn i) message]) = _
  rw [talk_snoc]
  simp [Event.talk, hevent]

theorem queueImmediateResponse_settles {message : Message} (h : Ready parse i body message s) :
    Safe (answerContract parse cfg n) (Ends (AllAnswered parse) (Halted parse))
      (queueImmediateResponse i message).run s := by
  refine safe_call (Ready parse i body message) (stable_ready _) h (fun s hs => hs.pre rfl) ?_
  intro s e r s' hs hobeys he
  exact silent_allAnswered (p := call (.setStatus i .writable)) ⟨rfl, fun _ => trivial⟩
    (hs.appended hobeys he)

theorem handleQueryOrBadRequest_settles (h : Asked parse i body none s)
    (hd : decodeRequest parse body = none) :
    Safe (answerContract parse cfg n) (Ends (AllAnswered parse) (Halted parse))
      (handleQueryOrBadRequest parse i body).run s := by
  unfold handleQueryOrBadRequest
  cases hq : decodeQueryRequest parse body with
  | none =>
    cases hx : encodeError (ascii "bad request") with
    | error e => exact .ends_throw (stable_halted none) h.halted
    | ok response =>
      refine queueImmediateResponse_settles ⟨none, h, ?_⟩
      unfold AnswerTo
      rw [hd, hq]
      exact ⟨rfl, rfl, hx⟩
  | some request =>
    refine Safe.call (Asked parse i body none) (stable_asked _) h (fun s hs => hs.pre rfl) ?_
    intro s e found s' hs hobeys hexec
    have he := perform_of_exec hexec
    have hs' := hs.perform (o := .store (.getResult request.submissionId)) rfl rfl hobeys he
    have hgot : Entry.got request.submissionId found ∈ s'.store.history := by
      cases e with
      | store input =>
        obtain ⟨rfl, rfl⟩ := Prod.mk.inj (Option.some.inj he)
        exact List.mem_append_right _ List.mem_cons_self
      | _ => cases he
    change Option SubmissionResult at found
    change Safe _ _ (ExceptT.bindCont (fun response => queueImmediateResponse i ⟨response, .reply⟩)
      (Except.mapError ServerError.json (queryResponse found))) s'
    cases hx : queryResponse found with
    | error e => exact .ends_throw (stable_halted none) hs'.halted
    | ok response =>
      refine queueImmediateResponse_settles ⟨none, hs', ?_⟩
      unfold AnswerTo
      rw [hd, hq]
      exact ⟨rfl, rfl, found, hgot, hx⟩

end Network

section Submit

variable {s s' : Server n} {i : Fin n} {body : Bytes} {request : SubmissionRequest}

/-- The message has become a submission, which its own connection made. -/
structure Enrolled (parse : JsonParse) (i : Fin n) (body : Bytes) (request : SubmissionRequest)
    (accepted : Int × Nat) (s : Server n) : Prop where
  asked : Asked parse i body (some accepted.1) s
  submitted : ∃ task, task.request = request ∧ task.submissionId = accepted.1 ∧
    Event.submitted accepted.2 (s.conn i) task ∈ s.trace

theorem stable_enrolled {accepted : Int × Nat} (o : Option (ServerCall n)) :
    Stable ((answerContract parse cfg n).rely o) (Enrolled parse i body request accepted) := by
  intro s s' h hr
  obtain ⟨task, hrequest, hid, hm⟩ := h.submitted
  refine ⟨stable_asked o s s' h.asked hr, task, hrequest, hid, ?_⟩
  rw [hr.2]
  exact hr.1.trace.subset hm

/-- The store has created a submission for the open message. -/
def Created (parse : JsonParse) (i : Fin n) (body : Bytes) (s : Server n) : Prop :=
  ∃ id, Asked parse i body (some id) s

theorem stable_created (o : Option (ServerCall n)) :
    Stable ((answerContract parse cfg n).rely o) (Created parse i body) := by
  rintro s s' ⟨id, h⟩ hr
  exact ⟨id, stable_asked o s s' h hr⟩

theorem Asked.create {e : ServerInput} {submissionId : Int} (h : Asked parse i body none s)
    (he : Server.perform cfg (.store (.createSubmission request)) e s = some (submissionId, s')) :
    Asked parse i body (some submissionId) s' := by
  have hg := perform_grows he
  cases e with
  | store input =>
    obtain ⟨rfl, rfl⟩ := Prod.mk.inj (Option.some.inj he)
    obtain ⟨exchanges, htalk, hids, hanswers⟩ := h
    refine ⟨exchanges, htalk, ?_, fun x hx => (hanswers x hx).grows hg⟩
    refine (handedOut_snoc_created _ _).trans ?_
    rw [hids, Option.toList_none, List.append_nil]
    rfl
  | _ => cases he

def AfterSubmit (parse : JsonParse) (i : Fin n) (body : Bytes) (request : SubmissionRequest) :
    Except ServerError (Option (Int × Nat)) → Server n → Prop
  | .ok none, s => Created parse i body s
  | .ok (some accepted), s => Enrolled parse i body request accepted s
  | .error _, s => Halted parse s

theorem submitAsync_asked (channel : Bytes) (h : Asked parse i body none s) :
    Safe (answerContract parse cfg n) (AfterSubmit parse i body request)
      (submitAsync i request channel).run s := by
  refine safe_call (Asked parse i body none) (stable_asked _) h (fun s hs => hs.pre rfl) ?_
  intro s e submissionId s' hs _ he
  change Int at submissionId
  have hs' := hs.create he
  change Safe _ _ (ExceptT.run (if submissionId ≤ 0 then _ else _)) s'
  split
  · exact .ret (Created parse i body) (stable_created none) ⟨_, hs'⟩ fun _ h => h
  · refine safe_call (Asked parse i body (some submissionId)) (stable_asked _) hs'
      (fun s hs => hs.pre rfl) ?_
    intro s e ticket s' hs hobeys he
    have hs' := hs.perform (o := .push i ⟨submissionId, request, channel⟩) rfl rfl hobeys he
    obtain ⟨rfl, rfl⟩ | ⟨rfl, rfl⟩ := push_cases (Option.some.inj he)
    · exact .ret (Created parse i body) (stable_created none) ⟨_, hs'⟩ fun _ h => h
    · refine .ret (Enrolled parse i body request (submissionId, s.submissions))
        (stable_enrolled none) ⟨hs', ⟨submissionId, request, channel⟩, rfl, rfl, ?_⟩ fun _ h => h
      exact List.mem_append_right _ List.mem_cons_self

def AfterAck (parse : JsonParse) (i : Fin n) (body : Bytes) :
    Except ServerError (Message × List Message) → Server n → Prop
  | .ok r, s => Ready parse i body r.1 s
  | .error _, s => Halted parse s

/-- The release of the barrier behind the encoding of the response. -/
theorem released_ready {channel : Bytes} (message : Message) (h : Ready parse i body message s) :
    Safe (answerContract parse cfg n) (AfterAck parse i body)
      (call (.release channel) >>= fun deferred => pure (message, deferred) :
        ServerM cfg n (Message × List Message)).run s := by
  refine safe_call (Ready parse i body message) (stable_ready _) h (fun s hs => hs.pre rfl) ?_
  intro s e deferred s' hs hobeys he
  have hs' : Ready parse i body message s' := by
    obtain ⟨created, hasked, hanswer⟩ := hs
    refine ⟨created, hasked.perform (o := .release channel) rfl rfl hobeys he, ?_⟩
    rw [perform_conn (o := .release channel) rfl he]
    exact hanswer.grows (perform_grows he)
  exact .ret (Ready parse i body message) (stable_ready none) hs' fun _ h => h

theorem submitEnsuringAckFirst_ready (channel : Bytes) (h : Asked parse i body none s)
    (hd : decodeRequest parse body = some request) :
    Safe (answerContract parse cfg n) (AfterAck parse i body)
      (submitEnsuringAckFirst i request channel).run s := by
  refine safe_call (Asked parse i body none) (stable_asked _) h (fun s hs => hs.pre rfl) ?_
  intro s e _ s' hs hobeys he
  have hs' := hs.perform (o := .markWaiting channel) rfl rfl hobeys he
  refine (submitAsync_asked channel hs').except_bind ?_ ?_
  · intro accepted s hs
    cases accepted with
    | none =>
      obtain ⟨id, hasked⟩ := hs
      change Safe _ _ (encoding (encodeError (ascii "submission queue unavailable")) >>= _ :
        ServerM cfg n (Message × List Message)).run s
      cases hx : encodeError (ascii "submission queue unavailable") with
      | error e => exact .ret (Halted parse) (stable_halted none) hasked.halted fun _ h => h
      | ok response =>
        refine released_ready ⟨response, .reply⟩ ⟨some id, hasked, ?_⟩
        unfold AnswerTo
        rw [hd]
        exact ⟨id, rfl, .inr ⟨rfl, hx⟩⟩
    | some accepted =>
      obtain ⟨submissionId, ticket⟩ := accepted
      change Safe _ _ (encoding (encodeSubmissionAck submissionId) >>= _ :
        ServerM cfg n (Message × List Message)).run s
      cases hx : encodeSubmissionAck submissionId with
      | error e => exact .ret (Halted parse) (stable_halted none) hs.asked.halted fun _ h => h
      | ok response =>
        refine released_ready ⟨response, .ack ticket⟩ ⟨some submissionId, hs.asked, ?_⟩
        obtain ⟨task, hrequest, hid, hm⟩ := hs.submitted
        unfold AnswerTo
        rw [hd]
        exact ⟨submissionId, rfl, .inl ⟨ticket, task, rfl, hrequest, hid, hm, hx⟩⟩
  · intro e s hs
    exact .ret (Halted parse) (stable_halted none) hs fun _ h => h

theorem handleSubmitMessage_settles (h : Asked parse i body none s)
    (hd : decodeRequest parse body = some request) :
    Safe (answerContract parse cfg n) (Ends (AllAnswered parse) (Halted parse))
      (handleSubmitMessage i request).run s := by
  refine safe_call (Asked parse i body none) (stable_asked _) h (fun s hs => hs.pre rfl) ?_
  intro s e sessionId s' hs hobeys he
  have hs' := hs.perform (o := .getSessionId i) rfl rfl hobeys he
  refine (submitEnsuringAckFirst_ready _ hs' hd).except_bind ?_ ?_
  · intro r s hs
    refine Safe.ends_bind (stable_halted none) (queueImmediateResponse_settles hs) ?_
    intro _ s hs
    exact silent_allAnswered (queueDeferredMessages_silent _ _) hs
  · intro e s hs
    exact .ends_throw (stable_halted none) hs

/-- A message is handed on: it is open. -/
theorem AllAnswered.ask {e : ServerInput} {r : Unit} (h : AllAnswered parse s)
    (he : Server.perform cfg (.handleCompleteMessage i body) e s = some (r, s')) :
    Asked parse i body none s' := by
  have hg := perform_grows he
  obtain ⟨_, rfl⟩ := Prod.mk.inj (Option.some.inj he)
  obtain ⟨exchanges, htalk, hids, hanswers⟩ := h
  refine ⟨exchanges, ?_, hids, fun x hx => (hanswers x hx).grows hg⟩
  refine (talk_snoc s.trace (.handled (s.conn i) body)).trans ?_
  rw [htalk, List.append_nil]
  rfl

theorem handleCompleteMessage_settles (h : AllAnswered parse s) :
    Safe (answerContract parse cfg n) (Ends (AllAnswered parse) (Halted parse))
      (handleCompleteMessage parse i body).run s := by
  refine safe_call (AllAnswered parse) (stable_allAnswered _) h (fun s hs => hs.pre _) ?_
  intro s e r s' hs _ he
  have hs' := hs.ask he
  cases hd : decodeRequest parse body with
  | some request => exact handleSubmitMessage_settles hs' hd
  | none => exact handleQueryOrBadRequest_settles hs' hd

theorem readMessage_silent (i : Fin n) :
    (readMessage i : ServerM cfg n (Int × Option Bytes)).run.Uses
      (fun o : ServerCall n => o.talks = false) := by
  refine ⟨rfl, ?_⟩
  intro (r : Int × Option Bytes)
  obtain ⟨totRead, message⟩ := r
  cases message with
  | none => trivial
  | some body => exact ⟨rfl, fun _ => trivial⟩

theorem handleReadEvent_settles (h : AllAnswered parse s) :
    Safe (answerContract parse cfg n) (Ends (AllAnswered parse) (Halted parse))
      (handleReadEvent parse i).run s := by
  have hrelease : ∀ s, AllAnswered parse s →
      Safe (answerContract parse cfg n) (Ends (AllAnswered parse) (Halted parse))
        (call (.releaseSlot i) : ServerM cfg n Unit).run s :=
    fun s hs => silent_allAnswered (p := call (.releaseSlot i)) ⟨rfl, fun _ => trivial⟩ hs
  refine safe_call (AllAnswered parse) (stable_allAnswered _) h (fun s hs => hs.pre _) ?_
  intro s e fd s' hs hobeys he
  have hs' := hs.perform (o := .getFd .handler i) rfl hobeys he
  refine Safe.ends_bind (stable_halted none) (silent_allAnswered (readMessage_silent i) hs') ?_
  intro r s hs
  obtain ⟨bytesRead, message⟩ := r
  change Safe _ _ (ExceptT.run (if bytesRead = 0 then _ else _)) s
  split
  · exact hrelease s hs
  · split
    · exact hrelease s hs
    · cases message with
      | none => exact .ends_ret (stable_allAnswered none) hs
      | some body => exact handleCompleteMessage_settles hs

theorem networkRound_settles (h : AllAnswered parse s) :
    Safe (answerContract parse cfg n)
      (fun a s => if a = true then AllAnswered parse s else Halted parse s)
      (networkRound parse) s := by
  refine networkRound_safe stable_allAnswered stable_halted (fun s hs => .inl hs) ?_
    (fun i s hs => handleReadEvent_settles hs) ?_ ?_ h
  · intro o ho s hs
    have htalks : o.talks = false := by
      cases o with
      | handleCompleteMessage | setPendingResponse | store => cases ho
      | _ => rfl
    exact ⟨hs.pre o, fun e r s' hobeys he => hs.perform htalks hobeys he⟩
  · intro i s hs
    exact silent_allAnswered ((handleWriteEvent_uses i).mono fun _ ho => talks_of_flushes ho) hs
  · intro o ho s hs
    have htalks : o.talks = false ∧ o.selects = false := by
      cases o with
      | exchangeStopped | shutdownQueue => exact ⟨rfl, rfl⟩
      | _ => cases ho
    refine ⟨⟨hs, fun hsel => by rw [htalks.2] at hsel; cases hsel⟩, ?_⟩
    intro e r s' hobeys he
    exact hs.silent (perform_silent htalks.1 hobeys he)

end Submit

section System

variable {env : Nat → JudgeEnv} {ω : Type} [DecidableEq ω]

/-- The other threads are asked nothing. -/
def answerContracts (parse : JsonParse) (cfg : CleanupConfig) (n : Nat) (ω : Type) :
    Thread ω → Contract (serverMachine cfg n)
  | .network => answerContract parse cfg n
  | _ => ⟨fun _ _ _ => True, fun _ _ _ => True, fun _ _ => True⟩

def answerRest (parse : JsonParse) : Thread ω → Bool → Server n → Prop
  | .network, true => AllAnswered parse
  | .network, false => Halted parse
  | _, _ => fun _ => True

omit [DecidableEq ω] in
theorem threadBody_answers (t : Thread ω) {s : Server n} (h : t = .network → AllAnswered parse s) :
    Safe (answerContracts parse cfg n ω t) (answerRest parse t)
      (threadBody cfg n parse env ω t) s := by
  cases t with
  | network =>
    apply (networkRound_settles (h rfl)).mono
    intro a s hs
    cases a with
    | true => exact hs
    | false => exact hs
  | worker w => exact Safe.trivial (fun _ _ => trivial) fun _ _ => trivial
  | control => exact Safe.trivial (fun _ _ => trivial) fun _ _ => trivial

theorem reach_answers {ok : ServerConfig cfg n ω → Thread ω → ServerInput → Prop}
    {c : ServerConfig cfg n ω}
    (hr : Reach (again cfg n parse env ω) ok (serverStart cfg n parse env ω) c) :
    Safe (answerContract parse cfg n) (answerRest parse (ω := ω) .network) (c.thread .network)
      c.shared := by
  refine Reach.safe (answerContracts parse cfg n ω) (answerRest parse) ?_ ?_ ?_ hr .network
  · intro t
    refine threadBody_answers t fun _ => ⟨[], rfl, rfl, by simp⟩
  · intro t a p s hp hs
    obtain ⟨rfl, rfl⟩ := again_eq_some hp
    cases t with
    | network => exact threadBody_answers .network fun _ => hs
    | worker w => exact threadBody_answers (.worker w) nofun
    | control => exact threadBody_answers .control nofun
  · intro c t e o k r s' hc _ hk _ he
    have hhead : (c.thread t).head = some o := by rw [hk]; rfl
    have hobeys : Obeys parse o c.shared := reach_obeys hc hhead
    have hperform := perform_of_exec he
    constructor
    · cases t with
      | network => exact hobeys
      | worker w => trivial
      | control => trivial
    · intro u hu
      cases u with
      | network =>
        have hworker : ServerCall.worker o = true := worker_of_reach hc (Ne.symm hu) hhead
        exact ⟨perform_silent (talks_of_worker hworker) hobeys hperform,
          (perform_worker hworker hperform).conn⟩
      | worker w => trivial
      | control => trivial

/-- The immediate responses queued on a connection. -/
def answersOn (conn : Nat) (trace : List Event) : List Message :=
  trace.filterMap fun
    | .appended c message => if c = conn ∧ message.subject.isEvent = false then some message else none
    | _ => none

def Talk.requestOn (conn : Nat) : Talk → Option Bytes
  | .request c body => if c = conn then some body else none
  | .answer _ _ => none

def Talk.answerOn (conn : Nat) : Talk → Option Message
  | .request _ _ => none
  | .answer c message => if c = conn then some message else none

theorem handledOn_eq (conn : Nat) (trace : List Event) :
    handledOn conn trace = (talk trace).filterMap (Talk.requestOn conn) := by
  unfold handledOn talk
  rw [List.filterMap_filterMap]
  congr 1
  funext e
  cases e with
  | appended c message =>
    cases h : message.subject.isEvent <;> simp [Event.handledOn, Event.talk, Talk.requestOn, h]
  | _ => rfl

theorem answersOn_eq (conn : Nat) (trace : List Event) :
    answersOn conn trace = (talk trace).filterMap (Talk.answerOn conn) := by
  unfold answersOn talk
  rw [List.filterMap_filterMap]
  congr 1
  funext e
  cases e with
  | appended c message =>
    cases h : message.subject.isEvent <;> simp [Event.talk, Talk.answerOn, h]
  | _ => rfl

theorem requestsOn_exchanges (conn : Nat) (exchanges : List Exchange) :
    (exchanges.flatMap Exchange.talk).filterMap (Talk.requestOn conn) =
      (exchanges.filter (·.conn = conn)).map Exchange.body := by
  induction exchanges with
  | nil => rfl
  | cons x exchanges ih =>
    rw [List.flatMap_cons, List.filterMap_append, ih]
    by_cases hc : x.conn = conn <;> simp [Exchange.talk, Talk.requestOn, hc]

theorem answersOn_exchanges (conn : Nat) (exchanges : List Exchange) :
    (exchanges.flatMap Exchange.talk).filterMap (Talk.answerOn conn) =
      (exchanges.filter (·.conn = conn)).map Exchange.message := by
  induction exchanges with
  | nil => rfl
  | cons x exchanges ih =>
    rw [List.flatMap_cons, List.filterMap_append, ih]
    by_cases hc : x.conn = conn <;> simp [Exchange.talk, Talk.answerOn, List.filterMap_cons, hc]

/-- The requests handed on and the responses queued, on every connection and in order, are
those of the exchanges, but for the requests still `opened`; each answer fits; and the ids the
store has handed out are those of the exchanges, in order, but for those of `opened`. -/
structure Matched (parse : JsonParse) (s : Server n) (exchanges : List Exchange)
    (opened : List (Nat × Bytes)) : Prop where
  requests : ∀ conn, handledOn conn s.trace = (exchanges.filter (·.conn = conn)).map Exchange.body ++
    (opened.filter (·.1 = conn)).map Prod.snd
  answers : ∀ conn, answersOn conn s.trace =
    (exchanges.filter (·.conn = conn)).map Exchange.message
  created : ∃ late,
    Pipeline.handedOut s.store.history = exchanges.filterMap Exchange.created ++ late ∧
    late.length ≤ opened.length
  fits : ∀ x ∈ exchanges, AnswerTo parse s x

theorem AllAnswered.matched {s : Server n} (h : AllAnswered parse s) :
    ∃ exchanges, Matched parse s exchanges [] := by
  obtain ⟨exchanges, htalk, hids, hanswers⟩ := h
  rw [List.append_nil] at htalk
  refine ⟨exchanges, ?_, ?_, ⟨[], hids, le_refl _⟩, hanswers⟩
  · intro conn
    rw [handledOn_eq, htalk, requestsOn_exchanges]
    exact (List.append_nil _).symm
  · intro conn
    rw [answersOn_eq, htalk, answersOn_exchanges]

theorem Halted.matched {s : Server n} (h : Halted parse s) :
    ∃ exchanges opened, opened.length ≤ 1 ∧ Matched parse s exchanges opened := by
  obtain h | ⟨conn, body, created, exchanges, htalk, hids, hanswers⟩ := h
  · obtain ⟨exchanges, hmatched⟩ := h.matched
    exact ⟨exchanges, [], Nat.zero_le _, hmatched⟩
  · refine ⟨exchanges, [(conn, body)], le_refl _, ?_, ?_, ⟨created.toList, hids, ?_⟩, hanswers⟩
    · intro c
      rw [handledOn_eq, htalk, List.filterMap_append, requestsOn_exchanges]
      by_cases hc : conn = c <;> simp [Talk.requestOn, hc]
    · intro c
      rw [answersOn_eq, htalk, List.filterMap_append, answersOn_exchanges]
      exact List.append_nil _
    · cases created <;> simp

/-- Whatever the interleaving: on every connection the immediate responses answer the
requests one by one and in order, the last request at most has no answer yet, and none is
open while the thread waits for its sockets. An acknowledged id is the one the store has
handed out for this very request. -/
theorem requests_are_answered {ok : ServerConfig cfg n ω → Thread ω → ServerInput → Prop}
    {c : ServerConfig cfg n ω}
    (hr : Reach (again cfg n parse env ω) ok (serverStart cfg n parse env ω) c) :
    (∃ exchanges opened, opened.length ≤ 1 ∧ Matched parse c.shared exchanges opened) ∧
    ∀ o, (c.thread .network).head = some o → ServerCall.selects o = true →
      ∃ exchanges, Matched parse c.shared exchanges [] := by
  have hsafe := reach_answers hr
  constructor
  · cases hp : c.thread .network with
    | ret a =>
      rw [hp] at hsafe
      have hpost := hsafe.post
      cases a with
      | true => exact Halted.matched (.inl hpost)
      | false => exact Halted.matched hpost
    | call o k =>
      rw [hp] at hsafe
      exact hsafe.pre.1.matched
  · intro o ho hselects
    exact ((hsafe.pre_head ho).2 hselects).matched

end System

section Sample

theorem submit_request_is_answered :
    ∃ c o exchanges, Reach sampleAgain anyStep sampleServer c ∧
      (c.thread .network).head = some o ∧ ServerCall.selects o = true ∧
      handledOn 1 c.shared.trace = [submitText] ∧ Matched sampleParse c.shared exchanges [] := by
  have hrun : (run sampleAgain sampleServer pipelinedSchedule).map (fun c =>
      ((c.thread .network).head.map ServerCall.selects,
        decide (handledOn 1 c.shared.trace = [submitText]))) = some (some true, true) := by
    decide +kernel
  obtain ⟨c, hc, hobs⟩ := Option.map_eq_some_iff.mp hrun
  simp only [Prod.mk.injEq, decide_eq_true_eq] at hobs
  obtain ⟨hhead, hhandled⟩ := hobs
  obtain ⟨o, ho, hsel⟩ := Option.map_eq_some_iff.mp hhead
  have hr := reach_of_run hc
  obtain ⟨exchanges, hmatched⟩ := (requests_are_answered hr).2 o ho hsel
  exact ⟨c, o, exchanges, hr, ho, hsel, hhandled, hmatched⟩

end Sample

end JudgeServer.Network
