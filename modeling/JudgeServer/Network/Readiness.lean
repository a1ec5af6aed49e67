import JudgeServer.Network.EventLoop

/-!
# Responses offered to `select`

A slot is rested when its status agrees with its pending output. Event handlers break
this and restore it; the one place where a worker can break it for good is the gap
between the last look at the pending output and `set_readable`.
-/

namespace JudgeServer.Network

open JudgeServer.Common
open JudgeServer.Dispatch
open JudgeServer.Lib.Interleave
open JudgeServer.Pipeline
open JudgeServer.Protocol

variable {cfg : CleanupConfig} {n : Nat} {parse : JsonParse}

/-- A slot in use takes part in `select`, and for writing if it has output. -/
def Rested (slot : ConnectionSlot) : Prop :=
  slot.fd ≠ 0 → slot.status ≠ .idle ∧ (slot.pendingResponse ≠ [] → slot.status = .writable)

def AllRested (s : Server n) : Prop := ∀ i, Rested (s.slots i)

def RestedBut (i : Fin n) (s : Server n) : Prop := ∀ j, j ≠ i → Rested (s.slots j)

/-- What the network thread is verified against: all slots are rested when the sets are
populated, and no response arrives while `set_readable` is its next call. -/
def offerContract (cfg : CleanupConfig) (n : Nat) : Contract (serverMachine cfg n) where
  allows _ _ _ := True
  rely o s s' := WorkerMove s s' ∧
    ∀ i : Fin n, o = some (.setStatus i .readable) → s'.slots i = s.slots i
  pre o s := ServerCall.populates o = true → AllRested s

theorem rested_move {s s' : Server n} (h : WorkerMove s s') {i : Fin n} (hr : Rested (s.slots i)) :
    Rested (s'.slots i) := by
  rcases h.slots i with he | ⟨_, body, he⟩
  · rwa [he]
  · rw [he]
    intro _
    exact ⟨by simp [ConnectionSlot.setStatus], fun _ => rfl⟩

theorem stable_allRested (o : Option (ServerCall n)) :
    Stable ((offerContract cfg n).rely o) AllRested :=
  fun _ _ hr h i => rested_move h.1 (hr i)

theorem stable_restedBut (i : Fin n) (o : Option (ServerCall n)) :
    Stable ((offerContract cfg n).rely o) (RestedBut i) :=
  fun _ _ hr h j hj => rested_move h.1 (hr j hj)

/-- Nothing pending in slot `i`: this lasts while `set_readable` is next. -/
def Drained (i : Fin n) (s : Server n) : Prop :=
  AllRested s ∧ (s.slots i).pendingResponse = []

theorem stable_drained (i : Fin n) :
    Stable ((offerContract cfg n).rely (some (.setStatus i .readable))) (Drained i) := by
  intro s s' hd h
  refine ⟨stable_allRested _ s s' hd.1 h, ?_⟩
  rw [h.2 i rfl]
  exact hd.2

section Handlers

variable {s s' : Server n} {i : Fin n}

theorem RestedBut.update (h : RestedBut i s) {slot : ConnectionSlot} (hs : Rested slot)
    (he : s'.slots = Function.update s.slots i slot) : AllRested s' := by
  intro j
  rw [he]
  by_cases hj : j = i
  · subst hj
    rwa [Function.update_self]
  · rw [Function.update_of_ne hj]
    exact h j hj

theorem RestedBut.other (h : RestedBut i s) {slot : ConnectionSlot}
    (he : s'.slots = Function.update s.slots i slot) : RestedBut i s' := by
  intro j hj
  rw [he, Function.update_of_ne hj]
  exact h j hj

theorem AllRested.but (h : AllRested s) (i : Fin n) : RestedBut i s := fun j _ => h j

theorem RestedBut.released (h : RestedBut i s) : AllRested (s.releaseSlot i) := by
  unfold Server.releaseSlot
  split
  · next hfd =>
    intro j
    by_cases hj : j = i
    · subst hj
      exact fun hne => absurd hfd hne
    · exact h j hj
  · have hclear : Rested (s.slots i).clear := fun hne => absurd rfl hne
    exact h.update hclear rfl

/-- `set_readable` on a slot with nothing pending. -/
theorem Drained.readable (h : Drained i s) :
    AllRested (s.setSlot i ((s.slots i).setStatus .readable)) := by
  refine (h.1.but i).update ?_ rfl
  intro _
  exact ⟨by simp [ConnectionSlot.setStatus], fun hne => absurd h.2 hne⟩

theorem AllRested.read (h : AllRested s) (outcome : ReadOutcome) :
    AllRested (s.readMessage i outcome).2 := by
  obtain ⟨b, hb⟩ := (s.slots i).readMessage_rest outcome
  have hslot : Rested ((s.slots i).readMessage outcome).2 := by
    rw [hb]
    exact h i
  cases outcome with
  | failed errno => exact (h.but i).update hslot rfl
  | bytes chunk => exact (h.but i).update hslot rfl

/-- A worker's call keeps what is rested. -/
theorem AllRested.worker {o : ServerCall n} (ho : o.worker = true) {e : ServerInput}
    {r : o.Reply} (h : AllRested s) (he : Server.perform cfg o e s = some (r, s')) :
    AllRested s' := fun j => rested_move (perform_worker ho he) (h j)

/-- Part of a handler that leaves the slots alone. -/
theorem offer_quiet {α : Type} {p : ServerM cfg n α} {A : Server n → Prop}
    (hp : p.run.Uses fun o : ServerCall n => o.keepsSlots = true ∧ o.populates = false)
    (hA : ∀ o, Stable ((offerContract cfg n).rely o) A)
    (hk : ∀ s s', A s → s'.slots = s.slots → A s') (h : A s) :
    Safe (offerContract cfg n) (Ends A fun _ => True) p.run s := by
  have hsafe : Safe (offerContract cfg n) (fun _ => A) p.run s := by
    refine Safe.of_uses A hp hA h ?_ ?_
    · intro o s ho _ hpop
      rw [ho.2] at hpop
      cases hpop
    · intro o s e r s' ho ha _ he
      exact hk s s' ha (perform_keepsSlots ho.1 (perform_of_exec he))
  apply hsafe.mono
  intro x s ha
  cases x with
  | ok a => exact ha
  | error e => trivial

theorem AllRested.congr (h : AllRested s) (he : s'.slots = s.slots) : AllRested s' := by
  intro j
  rw [he]
  exact h j

theorem RestedBut.congr (h : RestedBut i s) (he : s'.slots = s.slots) : RestedBut i s' := by
  intro j hj
  rw [he]
  exact h j hj

theorem queueImmediateResponse_rested (message : Message) (h : RestedBut i s) :
    Safe (offerContract cfg n) (Ends AllRested fun _ => True)
      (queueImmediateResponse i message).run s := by
  refine safe_call (RestedBut i) (stable_restedBut i _) h (fun _ _ hp => by cases hp) ?_
  intro s e r s' hs _ he
  obtain ⟨_, rfl⟩ := Prod.mk.inj (Option.some.inj he)
  have hs' : RestedBut i (s.setPendingResponse i message) := hs.other rfl
  refine safe_last (RestedBut i) (stable_restedBut i _) hs' (fun _ _ hp => by cases hp)
    (stable_allRested none) ?_
  intro s e r s' hs _ he
  obtain ⟨_, rfl⟩ := Prod.mk.inj (Option.some.inj he)
  refine hs.update ?_ rfl
  intro _
  exact ⟨by simp [ConnectionSlot.setStatus], fun _ => rfl⟩

theorem queueDeferredMessages_rested (channel : Bytes) (messages : List Message)
    (h : AllRested s) :
    Safe (offerContract cfg n) (Ends AllRested fun _ => True)
      (queueDeferredMessages channel messages : ServerM cfg n Unit).run s := by
  have hworker : ∀ o : ServerCall n, o.worker = true → o.populates = false → ∀ s, AllRested s →
      (offerContract cfg n).pre o s ∧ ∀ e r s', (offerContract cfg n).allows o e s →
        Server.perform cfg o e s = some (r, s') → AllRested s' := by
    intro o ho hp s hs
    refine ⟨fun hpop => ?_, fun e r s' _ he => hs.worker ho he⟩
    change o.populates = true at hpop
    rw [hp] at hpop
    cases hpop
  induction messages generalizing s with
  | nil => exact .ends_ret (stable_allRested none) h
  | cons msg rest ih =>
    refine Safe.ends_bind (fun _ _ _ _ => trivial) ?_ fun _ s hs => ih hs
    refine queueProtocolResponseForChannel_safe stable_allRested stable_allRested ?_ ?_ ?_ h
    · intro s hs
      refine ⟨(hworker _ rfl rfl s hs).1, fun e r s' hok he => ?_⟩
      have hs' := (hworker _ rfl rfl s hs).2 e r s' hok he
      exact ⟨hs', fun _ => hs'⟩
    · intro i sessionId _
      exact hworker _ rfl rfl
    · exact hworker _ rfl rfl

/-- What `offer_quiet` asks of a call. -/
def ServerCall.quiet (o : ServerCall n) : Prop := o.keepsSlots = true ∧ o.populates = false

theorem quiet_of_submits {o : ServerCall n} (h : o.submits = true) : o.quiet := by
  cases o with
  | markWaiting | release | store | push => exact ⟨rfl, rfl⟩
  | _ => cases h

theorem handleSubmitMessage_rested (request : SubmissionRequest) (h : RestedBut i s) :
    Safe (offerContract cfg n) (Ends AllRested fun _ => True)
      (handleSubmitMessage i request).run s := by
  refine safe_call (RestedBut i) (stable_restedBut i _) h (fun _ _ hp => by cases hp) ?_
  intro s e sessionId s' hs _ he
  obtain ⟨_, rfl⟩ := Prod.mk.inj (Option.some.inj he)
  have hack : Safe (offerContract cfg n) (Ends (RestedBut i) fun _ => True)
      (submitEnsuringAckFirst i request (ReplyChannel.toString ⟨toInt32 i, sessionId⟩)).run s :=
    offer_quiet ((submitEnsuringAckFirst_uses i request _).mono fun _ ho => quiet_of_submits ho)
      (stable_restedBut i) (fun _ _ h he => h.congr he) hs
  refine Safe.ends_bind (fun _ _ _ _ => trivial) hack ?_
  intro submitResult s hs
  refine Safe.ends_bind (fun _ _ _ _ => trivial)
    (queueImmediateResponse_rested submitResult.1 hs) ?_
  intro _ s hs
  exact queueDeferredMessages_rested _ _ hs

theorem handleQueryOrBadRequest_rested (body : Bytes) (h : RestedBut i s) :
    Safe (offerContract cfg n) (Ends AllRested fun _ => True)
      (handleQueryOrBadRequest parse i body).run s := by
  unfold handleQueryOrBadRequest
  cases decodeQueryRequest parse body with
  | none =>
    have henc : Safe (offerContract cfg n) (Ends (RestedBut i) fun _ => True)
        (encoding (encodeError (ascii "bad request"))).run s :=
      offer_quiet ((encoding_uses _).mono fun _ ho => quiet_of_submits ho) (stable_restedBut i)
        (fun _ _ h he => h.congr he) h
    refine Safe.ends_bind (fun _ _ _ _ => trivial) henc ?_
    intro response s hs
    exact queueImmediateResponse_rested _ hs
  | some request =>
    have hquery : (ExceptT.adapt .json (handleQuery query request) :
        ServerM cfg n Bytes).run.Uses (ServerCall.quiet : ServerCall n → Prop) :=
      ⟨⟨rfl, rfl⟩, fun _ => trivial⟩
    refine Safe.ends_bind (fun _ _ _ _ => trivial)
      (offer_quiet hquery (stable_restedBut i) (fun _ _ h he => h.congr he) h) ?_
    intro response s hs
    exact queueImmediateResponse_rested _ hs

theorem handleCompleteMessage_rested (body : Bytes) (h : RestedBut i s) :
    Safe (offerContract cfg n) (Ends AllRested fun _ => True)
      (handleCompleteMessage parse i body).run s := by
  refine safe_call (RestedBut i) (stable_restedBut i _) h (fun _ _ hp => by cases hp) ?_
  intro s e r s' hs _ he
  have hs' := hs.congr (perform_keepsSlots (o := .handleCompleteMessage i body) rfl he)
  cases decodeRequest parse body with
  | some request => exact handleSubmitMessage_rested request hs'
  | none => exact handleQueryOrBadRequest_rested body hs'

/-- The loop's own calls, with which it registers a connection. -/
theorem plain_rested {o : ServerCall n} (ho : o.plain = true) {e : ServerInput} {r : o.Reply}
    (h : AllRested s) (he : Server.perform cfg o e s = some (r, s')) : AllRested s' := by
  cases o with
  | acquireSlot fd =>
    have hr : (s.acquireSlot fd).2 = s' := congrArg Prod.snd (Option.some.inj he)
    rw [← hr]
    unfold Server.acquireSlot
    cases hfree : s.freeSlotIds with
    | nil => exact h
    | cons i rest =>
      have hinit : Rested ((s.slots i).init fd s.nextSessionId) :=
        fun _ => ⟨by simp [ConnectionSlot.init], fun hne => absurd rfl hne⟩
      exact (h.but i).update hinit rfl
  | getFd _ _ | isReadable _ | isWritable _ _ | select _ _ | drainWake | accept
  | rejectClient _ _ => exact h.congr (perform_keepsSlots rfl he)
  | _ => cases ho

/-- A call that ends a handler by releasing the slot. -/
theorem releaseSlot_rested (h : RestedBut i s) :
    Safe (offerContract cfg n) (Ends AllRested fun _ => True)
      (call (.releaseSlot i) : ServerM cfg n Unit).run s := by
  refine safe_last (o := .releaseSlot i) (RestedBut i) (stable_restedBut i _) h
    (fun _ _ hp => by cases hp) (stable_allRested none) ?_
  intro s e r s' hs _ he
  obtain ⟨_, rfl⟩ := Prod.mk.inj (Option.some.inj he)
  exact hs.released

theorem handleReadEvent_rested (h : AllRested s) :
    Safe (offerContract cfg n) (Ends AllRested fun _ => True) (handleReadEvent parse i).run s := by
  refine safe_call AllRested (stable_allRested _) h (fun _ _ hp => by cases hp) ?_
  intro s e fd s' hs _ he
  obtain ⟨_, rfl⟩ := Prod.mk.inj (Option.some.inj he)
  have hread : Safe (offerContract cfg n)
      (fun x s => ∀ r, x = .ok r → RestedBut i s ∧ (r.2 = none → AllRested s))
      (readMessage i : ServerM cfg n (Int × Option Bytes)).run s := by
    refine safe_call AllRested (stable_allRested _) hs (fun _ _ hp => by cases hp) ?_
    intro s e r s' hs _ he
    cases e with
    | read outcome =>
      have hs' : AllRested s' := by
        have hr := congrArg Prod.snd (Option.some.inj he)
        change (s.readMessage i outcome).2 = s' at hr
        rw [← hr]
        exact hs.read outcome
      obtain ⟨totRead, message⟩ := r
      cases message with
      | none =>
        refine .ret AllRested (stable_allRested none) hs' ?_
        intro s hs r _
        exact ⟨hs.but i, fun _ => hs⟩
      | some body =>
        refine safe_call (RestedBut i) (stable_restedBut i _) (hs'.but i)
          (fun _ _ hp => by cases hp) ?_
        intro s e r s' hs _ he
        obtain ⟨_, rfl⟩ := Prod.mk.inj (Option.some.inj he)
        refine .ret (RestedBut i) (stable_restedBut i none) (hs.other rfl) ?_
        intro s hs r hr
        obtain rfl := Except.ok.inj hr
        exact ⟨hs, fun hn => by cases hn⟩
    | _ => cases he
  refine hread.except_bind ?_ ?_
  · intro r s hr
    obtain ⟨hbut, hall⟩ := hr r rfl
    obtain ⟨bytesRead, message⟩ := r
    change Safe _ _ (ExceptT.run (if bytesRead = 0 then _ else _)) s
    split
    · exact releaseSlot_rested hbut
    · split
      · exact releaseSlot_rested hbut
      · cases message with
        | some body => exact handleCompleteMessage_rested body hbut
        | none => exact .ends_ret (stable_allRested none) (hall rfl)
  · intro e s _
    exact .ends_throw (fun _ _ _ _ => trivial) trivial

/-- `set_readable` at the end of a write handler. -/
theorem setReadable_rested (h : Drained i s) :
    Safe (offerContract cfg n) (Ends AllRested fun _ => True)
      (call (.setStatus i .readable) : ServerM cfg n Unit).run s := by
  refine safe_last (o := .setStatus i .readable) (Drained i) (stable_drained i) h
    (fun _ _ hp => by cases hp) (stable_allRested none) ?_
  intro s e r s' hs _ he
  obtain ⟨_, rfl⟩ := Prod.mk.inj (Option.some.inj he)
  exact hs.readable

/-- After `consume_pending_response`: everything is sent, or the rest stays writable. -/
theorem consumed_rested {bytes : Nat} {emptied : Bool} (h : AllRested s)
    (he : s.consumePendingResponse i bytes = (emptied, s')) :
    Safe (offerContract cfg n) (Ends AllRested fun _ => True)
      (if emptied = true then call (.setStatus i .readable) else pure () : ServerM cfg n Unit).run
      s' := by
  unfold Server.consumePendingResponse ConnectionSlot.consumePendingResponse at he
  by_cases hlen : (s.slots i).pendingResponse.length ≤ (s.slots i).pendingWriteOffset + bytes
  · simp only [if_pos hlen] at he
    obtain ⟨rfl, rfl⟩ := Prod.mk.inj he
    refine setReadable_rested ⟨(h.but i).update ?_ rfl, by simp⟩
    intro hfd
    exact ⟨(h i hfd).1, fun hne => absurd rfl hne⟩
  · simp only [if_neg hlen] at he
    obtain ⟨rfl, rfl⟩ := Prod.mk.inj he
    refine .ends_ret (stable_allRested none) ((h.but i).update ?_ rfl)
    exact fun hfd => h i hfd

theorem handleWriteEvent_rested (h : AllRested s) :
    Safe (offerContract cfg n) (Ends AllRested fun _ => True)
      (handleWriteEvent i : ServerM cfg n Unit).run s := by
  refine safe_call AllRested (stable_allRested _) h (fun _ _ hp => by cases hp) ?_
  intro s e fd s' hs _ he
  obtain ⟨_, rfl⟩ := Prod.mk.inj (Option.some.inj he)
  refine safe_call AllRested (stable_allRested _) hs (fun _ _ hp => by cases hp) ?_
  intro s e writable s' hs _ he
  obtain ⟨_, rfl⟩ := Prod.mk.inj (Option.some.inj he)
  cases writable with
  | false => exact .ends_ret (stable_allRested none) hs
  | true =>
    refine safe_call AllRested (stable_allRested _) hs (fun _ _ hp => by cases hp) ?_
    intro s e pending s' hs _ he
    obtain ⟨hpending, rfl⟩ := Prod.mk.inj (Option.some.inj he)
    cases pending with
    | false =>
      have hnil : (s.slots i).pendingResponse = [] := by
        have hb : decide ((s.slots i).pendingResponse ≠ []) = false := hpending
        simpa using hb
      exact setReadable_rested ⟨hs, hnil⟩
    | true =>
      refine safe_call AllRested (stable_allRested _) hs (fun _ _ hp => by cases hp) ?_
      intro s e copied s' hs _ he
      obtain ⟨_, rfl⟩ := Prod.mk.inj (Option.some.inj he)
      cases copied with
      | none => exact .ends_throw (fun _ _ _ _ => trivial) trivial
      | some data =>
        refine safe_call AllRested (stable_allRested _) hs (fun _ _ hp => by cases hp) ?_
        intro s e sent s' hs _ he
        have hs' : AllRested s' := hs.congr (perform_keepsSlots (o := .send i data) rfl he)
        obtain ⟨bytesWrite, errno⟩ := sent
        change Safe _ _ (ExceptT.run (if bytesWrite < 0 then _ else _)) s'
        split
        · split
          · exact .ends_ret (stable_allRested none) hs'
          · exact releaseSlot_rested (hs'.but i)
        · refine safe_call AllRested (stable_allRested _) hs' (fun _ _ hp => by cases hp) ?_
          intro s e emptied s' hs _ he
          exact consumed_rested hs (Option.some.inj he)

/-- The network thread keeps every slot rested where it matters. -/
theorem networkRound_rested (h : AllRested s) :
    Safe (offerContract cfg n) (fun a s => if a = true then AllRested s else True)
      (networkRound parse) s := by
  refine networkRound_safe stable_allRested (fun _ _ _ _ _ => trivial) (fun _ _ => trivial) ?_
    (fun i s hs => handleReadEvent_rested hs) (fun i s hs => handleWriteEvent_rested hs) ?_ h
  · intro o ho s hs
    refine ⟨fun _ => hs, ?_⟩
    intro e r s' _ he
    exact plain_rested ho hs he
  · intro o ho s _
    refine ⟨fun hp => ?_, fun _ _ _ _ _ => trivial⟩
    cases o with
    | exchangeStopped | shutdownQueue => cases hp
    | _ => cases ho

end Handlers

/-- A worker's call that is not a response for slot `i` leaves the slot alone. -/
theorem response_elsewhere {o : ServerCall n} (ho : o.worker = true) {e : ServerInput}
    {s s' : Server n} {r : o.Reply} (he : Server.perform cfg o e s = some (r, s')) {i : Fin n}
    (hnot : ∀ sessionId message, o = .setPendingResponseIfSession i sessionId message →
      (s.slots i).sessionId = sessionId → False) : s'.slots i = s.slots i := by
  cases o with
  | setPendingResponseIfSession j sessionId message =>
    rcases setPendingResponseIfSession_cases (Option.some.inj he) with
      ⟨_, rfl⟩ | ⟨_, hs, _, rfl⟩
    · rfl
    · have hij : i ≠ j := by
        rintro rfl
        exact hnot sessionId message rfl hs
      show Function.update s.slots j _ i = s.slots i
      rw [Function.update_of_ne hij]
  | tryDefer _ _ | store _ | pop | isStopping | exchangeStopped | shutdownQueue | wake
  | terminate => exact congrFun (perform_keepsSlots rfl he) i
  | _ => cases ho

section Rested

variable {env : Nat → JudgeEnv} {ω : Type} [DecidableEq ω]

/-- The step is not a response that finds its session while the network thread is about
to make that slot readable. -/
def NoLateResponse (c : ServerConfig cfg n ω) (t : Thread ω) (_ : ServerInput) : Prop :=
  ∀ i sessionId message, t ≠ .network →
    (c.thread t).head = some (ServerCall.setPendingResponseIfSession i sessionId message) →
    (c.shared.slots i).sessionId = sessionId →
    (c.thread .network).head ≠ some (ServerCall.setStatus i .readable)

/-- The network thread against `offerContract`, the others against nothing. -/
def offerContracts (cfg : CleanupConfig) (n : Nat) (ω : Type) :
    Thread ω → Contract (serverMachine cfg n)
  | .network => offerContract cfg n
  | _ => { allows := fun _ _ _ => True, rely := fun _ _ _ => True, pre := fun _ _ => True }

/-- What holds when a thread has finished a round. -/
def offerRest : Thread ω → Bool → Server n → Prop
  | .network, true => AllRested
  | _, _ => fun _ => True

omit [DecidableEq ω] in
theorem threadBody_rested (t : Thread ω) {s : Server n} (h : t = .network → AllRested s) :
    Safe (offerContracts cfg n ω t) (offerRest t) (threadBody cfg n parse env ω t) s := by
  cases t with
  | network =>
    apply (networkRound_rested (h rfl)).mono
    intro a s hs
    cases a with
    | true => exact hs
    | false => trivial
  | worker w => exact .trivial (fun _ _ => trivial) fun a s => by cases a <;> trivial
  | control => exact .trivial (fun _ _ => trivial) fun a s => by cases a <;> trivial

theorem reach_rested {c : ServerConfig cfg n ω}
    (hr : Reach (again cfg n parse env ω) NoLateResponse (serverStart cfg n parse env ω) c) :
    ∀ t, Safe (offerContracts cfg n ω t) (offerRest t) (c.thread t) c.shared := by
  refine Reach.safe (offerContracts cfg n ω) offerRest ?_ ?_ ?_ hr
  · intro t
    exact threadBody_rested t fun _ _ hfd => absurd rfl hfd
  · intro t a p s hp hs
    obtain ⟨rfl, rfl⟩ := again_eq_some hp
    refine threadBody_rested t ?_
    rintro rfl
    exact hs
  · intro c t e o k r s' hc hok hk _ he
    refine ⟨by cases t <;> trivial, ?_⟩
    intro u hu
    cases u with
    | network =>
      have hhead : (c.thread t).head = some o := by rw [hk]; rfl
      have hworker : ServerCall.worker o = true := worker_of_reach hc (Ne.symm hu) hhead
      refine ⟨perform_worker hworker (perform_of_exec he), ?_⟩
      intro i hi
      exact response_elsewhere hworker (perform_of_exec he) fun sessionId message ho hs =>
        hok i sessionId message (Ne.symm hu) (ho ▸ hhead) hs hi
    | worker w => trivial
    | control => trivial

/-- Whenever the network thread is populating the socket sets, a slot in use is readable
or writable, and writable if it has output: in every run without a late response. -/
theorem queued_responses_are_offered {c : ServerConfig cfg n ω}
    (hr : Reach (again cfg n parse env ω) NoLateResponse (serverStart cfg n parse env ω) c)
    {o : ServerCall n} (ho : (c.thread .network).head = some o) (hp : o.populates = true)
    (i : Fin n) (hfd : (c.shared.slots i).fd ≠ 0) :
    ((c.shared.slots i).pendingResponse ≠ [] → (c.shared.slots i).status = .writable) ∧
      (c.shared.slots i).status ≠ .idle := by
  have hsafe := reach_rested hr .network
  cases hnet : c.thread .network with
  | ret a =>
    rw [hnet] at ho
    cases ho
  | call o' k =>
    rw [hnet] at ho hsafe
    obtain rfl := Option.some.inj ho
    have hrest : AllRested c.shared := hsafe.pre hp
    exact ⟨(hrest i hfd).2, (hrest i hfd).1⟩

end Rested

section Sample

open JudgeServer.Lib.Framing (frame)

def submitText : Bytes :=
  ascii "\x7b\"type\":\"submit\",\"uuid\":7,\"pid\":\"1000\",\"lang\":0,\"code\":\"\"\x7d"

/-- A parser that knows one text. -/
def sampleParse : JsonParse := fun payload =>
  if payload = submitText then
    some (.object [(ascii "code", .string []), (ascii "lang", .numberUnsigned 0),
      (ascii "pid", .string (ascii "1000")), (ascii "type", .string (ascii "submit")),
      (ascii "uuid", .numberUnsigned 7)])
  else none

/-- Every program fails to compile. -/
def compileErrorEnv : JudgeEnv :=
  { sampleEnv 1 5 with
    createRunner := fun _ => .ok (some
      { sampleRunner 5 with compile := fun _ => .ok ⟨false, .ce, ascii "error"⟩ }) }

abbrev Schedule := List (Thread Unit × ServerInput)

/-- A server with one slot and one worker. -/
abbrev sampleServer : ServerConfig {} 1 Unit :=
  serverStart {} 1 sampleParse (fun _ => compileErrorEnv) Unit

abbrev sampleAgain := again {} 1 sampleParse (fun _ => compileErrorEnv) Unit

def quietly (t : Thread Unit) (k : Nat) : Schedule := List.replicate k (t, .quiet)

def storing (t : Thread Unit) (k : Nat) : Schedule :=
  List.replicate k (t, .store ⟨0, 0, .stable⟩)

/-- A client connects: a whole round. -/
def connecting : Schedule :=
  quietly .network 1 ++ [(.network, .select [] [] true), (.network, .accept (some 5))] ++
    quietly .network 3

/-- A round in which the client's socket is readable, up to the read. -/
def receiving (chunk : Bytes) : Schedule :=
  quietly .network 2 ++ [(.network, .select [5] [] false)] ++ quietly .network 2 ++
    [(.network, .read (.bytes chunk))]

/-- A round that reads a submit request, up to the release of the barrier. -/
def submitting (chunk : Bytes) : Schedule :=
  receiving chunk ++ quietly .network 4 ++ storing .network 1 ++ quietly .network 2

/-- The worker takes the task, judges it and makes its finished message. -/
def judging : Schedule :=
  quietly (.worker ()) 3 ++ storing (.worker ()) 4 ++ quietly (.worker ()) 2 ++
    storing (.worker ()) 1

/-- A round in which the socket takes all of the ack, up to the last look at the output. -/
def flushing : Schedule :=
  quietly .network 3 ++ [(.network, .select [] [5] false)] ++ quietly .network 5 ++
    [(.network, .send (.accepted 122))] ++ quietly .network 1

/-- The ack is queued and the next round begins. -/
def ackedSchedule : Schedule := connecting ++ submitting (frame submitText) ++ quietly .network 3

/-- What the theorem says of the queued ack. -/
theorem queued_ack_is_offered :
    ∃ c, Reach sampleAgain NoLateResponse sampleServer c ∧
      (c.shared.slots 0).pendingResponse ≠ [] ∧ (c.shared.slots 0).status = .writable := by
  have hrun : (runWhere sampleAgain (fun _ t _ => t = .network) sampleServer ackedSchedule).map
      (fun c => (((c.thread .network).head.map ServerCall.populates),
        decide ((c.shared.slots 0).fd = 0), decide ((c.shared.slots 0).pendingResponse = []))) =
      some (some true, false, false) := by decide +kernel
  obtain ⟨c, hc, hobs⟩ := Option.map_eq_some_iff.mp hrun
  simp only [Prod.mk.injEq, decide_eq_false_iff_not] at hobs
  obtain ⟨hhead, hfd, hpending⟩ := hobs
  obtain ⟨o, ho, hpop⟩ := Option.map_eq_some_iff.mp hhead
  have hr : Reach sampleAgain NoLateResponse sampleServer c := by
    refine reach_of_runWhere ?_ hc
    intro c t e ht i sessionId message hne
    exact absurd (of_decide_eq_true ht) hne
  exact ⟨c, hr, hpending, (queued_responses_are_offered hr ho hpop 0 hfd).1 hpending⟩

/-- The finished message arrives just before `set_readable`. -/
def strandedSchedule : Schedule :=
  connecting ++ submitting (frame submitText) ++ quietly .network 3 ++ flushing ++ judging ++
    quietly (.worker ()) 2 ++ quietly .network 2

/-- With it pending, the slot is offered for reading only. -/
theorem late_response_is_stranded :
    ∃ c o, Reach sampleAgain anyStep sampleServer c ∧
      (c.thread .network).head = some o ∧ ServerCall.populates o = true ∧
      (c.shared.slots 0).fd ≠ 0 ∧ (c.shared.slots 0).pendingResponse ≠ [] ∧
      (c.shared.slots 0).status ≠ .writable := by
  have hrun : (run sampleAgain sampleServer strandedSchedule).map (fun c =>
      (((c.thread .network).head.map ServerCall.populates),
        decide ((c.shared.slots 0).fd = 0), decide ((c.shared.slots 0).pendingResponse = []),
        decide ((c.shared.slots 0).status = .writable))) =
      some (some true, false, false, false) := by decide +kernel
  obtain ⟨c, hc, hobs⟩ := Option.map_eq_some_iff.mp hrun
  simp only [Prod.mk.injEq, decide_eq_false_iff_not] at hobs
  obtain ⟨hhead, hfd, hpending, hstatus⟩ := hobs
  obtain ⟨o, ho, hpop⟩ := Option.map_eq_some_iff.mp hhead
  exact ⟨c, o, reach_of_run hc, ho, hpop, hfd, hpending, hstatus⟩

end Sample

end JudgeServer.Network
