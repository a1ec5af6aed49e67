import JudgeServer.Network.Connections
import JudgeServer.Network.Readiness

/-!
# Requests read off a connection

Per connection, the bytes received are the frames handed to `handle_complete_message`, then
the one that has been read and is about to be, then what is still in the input buffer. A read
takes at most one frame, so the buffer is left without a complete one only as long as no read
completes two.
-/

namespace JudgeServer.Network

open JudgeServer.Common
open JudgeServer.Dispatch
open JudgeServer.Lib.Framing
open JudgeServer.Lib.Interleave
open JudgeServer.Pipeline
open JudgeServer.Protocol

/-- The bytes an entry of the trace received on a connection. -/
def Event.chunkOn (conn : Nat) : Event → Bytes
  | .received c chunk _ _ => if c = conn then chunk else []
  | _ => []

/-- The body it hands to `handle_complete_message`. -/
def Event.handledOn (conn : Nat) : Event → Option Bytes
  | .handled c messageBody => if c = conn then some messageBody else none
  | _ => none

def receivedOn (conn : Nat) (trace : List Event) : Bytes := trace.flatMap (Event.chunkOn conn)

/-- The bodies given to `handle_complete_message`. -/
def handledOn (conn : Nat) (trace : List Event) : List Bytes :=
  trace.filterMap (Event.handledOn conn)

theorem receivedOn_snoc (conn : Nat) (trace : List Event) (e : Event) :
    receivedOn conn (trace ++ [e]) = receivedOn conn trace ++ e.chunkOn conn := by
  simp [receivedOn]

theorem handledOn_snoc (conn : Nat) (trace : List Event) (e : Event) :
    handledOn conn (trace ++ [e]) = handledOn conn trace ++ (e.handledOn conn).toList := by
  simp only [handledOn, List.filterMap_append, List.filterMap_cons, List.filterMap_nil]
  cases e.handledOn conn <;> rfl

variable {cfg : CleanupConfig} {n : Nat} {parse : JsonParse}

/-- The bodies taken off the buffers and not handed on: none, or one on one connection. -/
def takenOn (conn : Nat) (message : Option Bytes) : Nat → List Bytes :=
  fun c => if c = conn then message.toList else []

def noneTaken : Nat → List Bytes := fun _ => []

theorem takenOn_none (conn : Nat) : takenOn conn none = noneTaken := by
  funext c
  exact ite_self _

theorem takenOn_self (conn : Nat) (message : Option Bytes) :
    takenOn conn message conn = message.toList := if_pos rfl

theorem takenOn_other {conn c : Nat} (h : c ≠ conn) (message : Option Bytes) :
    takenOn conn message c = [] := if_neg h

/-- The input of one connection: what was received is what was handled, then what is taken,
then `rest`. -/
structure InputOf (taken : Nat → List Bytes) (conn : Nat) (trace : List Event) (rest : Bytes) :
    Prop where
  stream : receivedOn conn trace = frames (handledOn conn trace ++ taken conn) ++ rest
  noFrame : ¬ HasFrame rest
  short : ∀ body ∈ handledOn conn trace ++ taken conn, body.length < 2 ^ 32

/-- The read leaves no complete frame behind: together with the unread bytes, the piece
holds at most one; and its length is an `int`. -/
def CompletesOne (slot : ConnectionSlot) (chunk : Bytes) : Prop :=
  chunk.length < 2 ^ 31 ∧
    ∀ body rest, splitFrame (slot.unread ++ chunk) = some (body, rest) → ¬ HasFrame rest

/-- What holds of every connection while each read completes at most one frame. -/
def Framed (taken : Nat → List Bytes) (s : Server n) : Prop :=
  PerConnection (fun s i => (s.slots i).unread) (InputOf taken) s

section Input

variable {taken : Nat → List Bytes} {c : Nat} {trace : List Event} {rest : Bytes}

theorem inputOf_fresh (h : ∀ e ∈ trace, e.conn ≠ c) : InputOf noneTaken c trace [] := by
  have hrec : receivedOn c trace = [] := by
    unfold receivedOn
    rw [List.flatMap_eq_nil_iff]
    intro e he
    cases e with
    | received d chunk totRead message => exact if_neg (h _ he)
    | _ => rfl
  have hhan : handledOn c trace = [] := by
    unfold handledOn
    rw [List.filterMap_eq_nil_iff]
    intro e he
    cases e with
    | handled d body => exact if_neg (h _ he)
    | _ => rfl
  refine ⟨?_, by decide, ?_⟩
  · rw [hrec, hhan]
    rfl
  · rw [hhan]
    simp [noneTaken]

theorem InputOf.snoc (h : InputOf taken c trace rest) {e : Event} (hchunk : e.chunkOn c = [])
    (hhandled : e.handledOn c = none) : InputOf taken c (trace ++ [e]) rest := by
  have hhan : handledOn c (trace ++ [e]) = handledOn c trace := by
    rw [handledOn_snoc, hhandled]
    exact List.append_nil _
  refine ⟨?_, h.noFrame, ?_⟩
  · rw [receivedOn_snoc, hchunk, hhan, List.append_nil]
    exact h.stream
  · rw [hhan]
    exact h.short

theorem InputOf.congr (h : InputOf taken c trace rest) {taken' : Nat → List Bytes}
    (he : taken' c = taken c) : InputOf taken' c trace rest := by
  refine ⟨?_, h.noFrame, ?_⟩
  · rw [he]
    exact h.stream
  · rw [he]
    exact h.short

/-- The body that is taken is handed on. -/
theorem InputOf.handled {body : Bytes} (h : InputOf (takenOn c (some body)) c trace rest) :
    InputOf noneTaken c (trace ++ [.handled c body]) rest := by
  have hhan : handledOn c (trace ++ [.handled c body]) ++ noneTaken c =
      handledOn c trace ++ takenOn c (some body) c := by
    have hevent : (Event.handled c body).handledOn c = some body := if_pos rfl
    rw [handledOn_snoc, hevent, takenOn_self]
    exact List.append_nil _
  refine ⟨?_, h.noFrame, ?_⟩
  · rw [receivedOn_snoc, hhan, h.stream]
    exact List.append_nil _
  · rw [hhan]
    exact h.short

/-- One read that completes at most one frame. -/
theorem InputOf.read {slot : ConnectionSlot} {chunk : Bytes}
    (h : InputOf noneTaken c trace slot.unread) (hone : CompletesOne slot chunk) :
    InputOf (takenOn c (slot.readMessage (.bytes chunk)).1.2) c
      (trace ++ [.received c chunk (slot.readMessage (.bytes chunk)).1.1
        (slot.readMessage (.bytes chunk)).1.2]) (slot.readMessage (.bytes chunk)).2.unread := by
  have hstream := h.stream
  have hshort := h.short
  change receivedOn c trace = frames (handledOn c trace ++ []) ++ slot.unread at hstream
  change ∀ body ∈ handledOn c trace ++ [], _ at hshort
  rw [List.append_nil] at hstream hshort
  by_cases hnil : chunk = []
  · subst hnil
    obtain ⟨hout, hunread⟩ := slot.readMessage_end
    have hchunk : (Event.received c [] 0 none).chunkOn c = [] := if_pos rfl
    rw [hout, hunread, takenOn_none]
    exact h.snoc hchunk rfl
  · obtain ⟨hout, hunread⟩ := slot.readMessage_bytes hnil
    rw [hout]
    dsimp only
    have hrec : ∀ totRead message, receivedOn c (trace ++ [.received c chunk totRead message]) =
        frames (handledOn c trace) ++ (slot.unread ++ chunk) := by
      intro totRead message
      rw [receivedOn_snoc, hstream, List.append_assoc]
      congr 2
      exact if_pos rfl
    have hhan : ∀ totRead message,
        handledOn c (trace ++ [.received c chunk totRead message]) = handledOn c trace := by
      intro totRead message
      rw [handledOn_snoc]
      exact List.append_nil _
    cases hsplit : splitFrame (slot.unread ++ chunk) with
    | none =>
      rw [hsplit] at hunread
      refine ⟨?_, ?_, ?_⟩
      · rw [hrec, hhan, hunread, takenOn_self]
        simp
      · rw [hunread]
        exact splitFrame_eq_none.mp hsplit
      · rw [hhan, takenOn_self]
        simpa using hshort
    | some split =>
      obtain ⟨body, rest⟩ := split
      rw [hsplit] at hunread
      obtain ⟨heq, hbody⟩ := frame_of_splitFrame hsplit
      refine ⟨?_, ?_, ?_⟩
      · rw [hrec, hhan, hunread, heq, takenOn_self]
        simp [frames_append, frames_singleton]
      · rw [hunread]
        exact hone.2 body rest hsplit
      · rw [hhan, takenOn_self]
        intro b hb
        obtain hm | hm := List.mem_append.mp hb
        · exact hshort b hm
        · obtain rfl := List.mem_singleton.mp hm
          exact hbody

/-- A body comes with a positive count. -/
theorem readMessage_positive {slot : ConnectionSlot} {chunk : Bytes} (hone : CompletesOne slot chunk)
    {body : Bytes} (h : (slot.readMessage (.bytes chunk)).1.2 = some body) :
    0 < (slot.readMessage (.bytes chunk)).1.1 := by
  by_cases hnil : chunk = []
  · subst hnil
    cases h
  · rw [(slot.readMessage_bytes hnil).1]
    have hlen := List.length_pos_of_ne_nil hnil
    rw [toInt32_of_lt hone.1]
    omega

end Input

section Calls

variable {taken : Nat → List Bytes} {s s' : Server n} {i : Fin n}

/-- The calls by which a body is taken off a buffer and handed on. -/
def ServerCall.takes : ServerCall n → Bool
  | .readMessage _ | .handleCompleteMessage _ _ => true
  | _ => false

theorem takes_of_replies {o : ServerCall n} (h : o.replies = true) : o.takes = false := by
  cases o with
  | readMessage | handleCompleteMessage => cases h
  | _ => rfl

theorem takes_of_flushes {o : ServerCall n} (h : o.flushes = true) : o.takes = false := by
  cases o with
  | readMessage | handleCompleteMessage => cases h
  | _ => rfl

theorem takes_of_plain {o : ServerCall n} (h : o.plain = true) : o.takes = false := by
  cases o with
  | readMessage | handleCompleteMessage => cases h
  | _ => rfl

theorem Framed.move (h : Framed taken s) (hm : WorkerMove s s') : Framed taken s' := by
  obtain ⟨es, htrace, hes⟩ := hm.trace
  refine PerConnection.same h hm.conn ?_ ?_
  · intro i
    obtain heq | ⟨-, body, heq⟩ := hm.slots i
    · rw [heq]
    · rw [heq]
      rfl
  · intro c x _ hx
    rw [htrace]
    clear htrace
    induction es using List.reverseRecOn with
    | nil => rwa [List.append_nil]
    | append_singleton es e ih =>
      obtain ⟨d, m, rfl⟩ := hes e (List.mem_append_right _ List.mem_cons_self)
      rw [← List.append_assoc]
      exact (ih fun x hx => hes x (List.mem_append_left _ hx)).snoc rfl rfl

/-- Other calls take nothing. -/
theorem Framed.perform {o : ServerCall n} {e : ServerInput} {r : o.Reply} (ho : o.takes = false)
    (hc : Connections s) (h : Framed noneTaken s)
    (he : Server.perform cfg o e s = some (r, s')) : Framed noneTaken s' := by
  cases perform_effect he with
  | quiet same =>
    refine PerConnection.same h same.conn (fun i => by rw [same.slots]) ?_
    intro c x _ hx
    rwa [same.trace]
  | read | handled => cases ho
  | turnedAway | marked | deferred | popped =>
    exact PerConnection.same h rfl (fun _ => rfl) fun _ _ _ hx => hx
  | opened fd _ _ i rest free =>
    refine PerConnection.handed hc h rfl ?_ rfl ?_
    · intro j hj
      simp only [Function.update_of_ne hj]
    · intro _
      refine ⟨Nat.lt_succ_self _, ?_⟩
      have hempty : ((s.slots i).init fd s.nextSessionId).unread = [] :=
        Buffer.readable_retrieveAll _
      simp only [Function.update_self, hempty]
      apply inputOf_fresh
      intro e he hlt
      have hp := hc.past e he
      omega
  | closed i _ _ used =>
    refine PerConnection.handed hc h rfl ?_ rfl (fun hne => absurd rfl hne)
    intro j hj
    simp only [Function.update_of_ne hj]
  | status i status =>
    exact PerConnection.same h rfl (slot_update_eq rfl) fun _ _ _ hx => hx
  | consumed i bytes =>
    obtain ⟨pending, offset, hr⟩ := consume_rest (s.slots i) bytes
    refine PerConnection.same h rfl (slot_update_eq ?_) fun _ _ _ hx => hx
    rw [hr]
    rfl
  | appended i message =>
    exact PerConnection.same h rfl (slot_update_eq rfl) fun _ _ _ hx => hx.snoc rfl rfl
  | delivered i sessionId message =>
    exact PerConnection.same h rfl (slot_update_eq rfl) fun _ _ _ hx => hx.snoc rfl rfl
  | sent | released | pushed =>
    exact PerConnection.same h rfl (fun _ => rfl) fun _ _ _ hx => hx.snoc rfl rfl

/-- The message on slot `i` is taken off its buffer. -/
def InHand (i : Fin n) (message : Option Bytes) (s : Server n) : Prop :=
  Framed (takenOn (s.conn i) message) s

theorem InHand.framed (h : InHand i none s) : Framed noneTaken s := by
  rwa [InHand, takenOn_none] at h

theorem InHand.status {message : Option Bytes} (h : InHand i message s)
    (status : ConnectionSlotStatus) :
    InHand i message (s.setSlot i ((s.slots i).setStatus status)) := by
  have hframed : Framed (takenOn (s.conn i) message) s := h
  exact PerConnection.same hframed rfl (slot_update_eq rfl) fun _ _ _ hx => hx

theorem InHand.handled (hc : Connections s) {body : Bytes} (h : InHand i (some body) s) :
    Framed noneTaken (s.record (.handled (s.conn i) body)) := by
  refine PerConnection.moved (i := i) hc h rfl (fun _ _ => rfl) ?_ ?_
  · intro c x _ hne hx
    exact (hx.congr (takenOn_other hne _).symm).snoc rfl (if_neg (Ne.symm hne))
  · intro _ hx
    exact hx.handled

theorem Framed.read (hc : Connections s) (h : Framed noneTaken s) {e : ServerInput}
    {r : Int × Option Bytes} (he : Server.perform cfg (.readMessage i) e s = some (r, s'))
    (hone : ∀ chunk, e = .read (.bytes chunk) → CompletesOne (s.slots i) chunk) :
    InHand i r.2 s' ∧ (∀ body, r.2 = some body → 0 < r.1) := by
  cases e with
  | read outcome =>
    cases outcome with
    | failed errno =>
      obtain ⟨rfl, rfl⟩ := Prod.mk.inj (Option.some.inj he)
      refine ⟨?_, nofun⟩
      show Framed (takenOn _ none) _
      rw [takenOn_none]
      exact PerConnection.same h rfl (slot_update_eq rfl) fun _ _ _ hx => hx
    | bytes chunk =>
      obtain ⟨rfl, rfl⟩ := Prod.mk.inj (Option.some.inj he)
      refine ⟨?_, fun body hbody => readMessage_positive (hone chunk rfl) hbody⟩
      refine PerConnection.moved (i := i) hc h rfl ?_ ?_ ?_
      · intro j hj
        show (Function.update s.slots i _ j).unread = _
        rw [Function.update_of_ne hj]
      · intro c x _ hne hx
        exact (hx.congr (takenOn_other hne _)).snoc (if_neg (Ne.symm hne)) rfl
      · intro _ hx
        show InputOf _ _ _ (Function.update s.slots i _ i).unread
        rw [Function.update_self]
        exact hx.read (hone chunk rfl)
  | _ => cases he

end Calls

/-- The read steps of a run complete at most one frame each. -/
def OneFrameReads {ω : Type} (c : ServerConfig cfg n ω) (t : Thread ω) (e : ServerInput) : Prop :=
  ∀ i chunk, (c.thread t).head = some (ServerCall.readMessage i) → e = .read (.bytes chunk) →
    CompletesOne (c.shared.slots i) chunk

/-- The network thread among the others, with reads that complete at most one frame: nothing
is taken while it is outside its handlers. -/
def framingContract (cfg : CleanupConfig) (n : Nat) : Contract (serverMachine cfg n) where
  allows (o : ServerCall n) e s := Connections s ∧ ∀ i chunk, o = .readMessage i →
    e = .read (.bytes chunk) → CompletesOne (s.slots i) chunk
  rely _ := WorkerMove
  pre (o : ServerCall n) s := (∃ taken, Framed taken s) ∧ (o.plain = true → Framed noneTaken s)

section Handlers

variable {s s' : Server n} {i : Fin n}

theorem stable_framed (o : Option (ServerCall n)) :
    Stable ((framingContract cfg n).rely o) (Framed noneTaken) :=
  fun _ _ h hm => h.move hm

theorem stable_inHand (message : Option Bytes) (o : Option (ServerCall n)) :
    Stable ((framingContract cfg n).rely o) (InHand i message) := by
  intro s s' h hm
  rw [InHand, hm.conn]
  exact Framed.move h hm

theorem Framed.pre (h : Framed noneTaken s) (o : ServerCall n) : (framingContract cfg n).pre o s :=
  ⟨⟨_, h⟩, fun _ => h⟩

theorem InHand.pre {message : Option Bytes} (h : InHand i message s) {o : ServerCall n}
    (ho : o.plain = false) : (framingContract cfg n).pre o s := by
  refine ⟨⟨_, h⟩, ?_⟩
  intro hplain
  rw [ho] at hplain
  cases hplain

/-- Part of a handler that takes nothing. -/
theorem untaking_framed {α : Type} {p : ServerM cfg n α}
    (hp : p.run.Uses fun o : ServerCall n => o.takes = false) (h : Framed noneTaken s) :
    Safe (framingContract cfg n) (Ends (Framed noneTaken) (Framed noneTaken)) p.run s := by
  have hsafe : Safe (framingContract cfg n) (fun _ => Framed noneTaken) p.run s := by
    refine Safe.of_uses (Framed noneTaken) hp stable_framed h (fun o s _ hs => hs.pre o) ?_
    intro o s e r s' ho hs hok he
    exact hs.perform ho hok.1 (perform_of_exec he)
  apply hsafe.mono
  intro x s hs
  cases x with
  | ok a => exact hs
  | error e => exact hs

theorem handleCompleteMessage_framed {body : Bytes} (h : InHand i (some body) s) :
    Safe (framingContract cfg n) (Ends (Framed noneTaken) (Framed noneTaken))
      (handleCompleteMessage parse i body).run s := by
  refine safe_call (InHand i (some body)) (stable_inHand _ _) h (fun s hs => hs.pre rfl) ?_
  intro s e r s' hs hok he
  obtain ⟨_, rfl⟩ := Prod.mk.inj (Option.some.inj he)
  have hs' := hs.handled hok.1
  cases decodeRequest parse body with
  | some request =>
    exact untaking_framed ((handleSubmitMessage_uses i request).mono fun _ => takes_of_replies) hs'
  | none =>
    exact untaking_framed ((handleQueryOrBadRequest_uses i body).mono fun _ => takes_of_replies) hs'

/-- What `read_message` hands on: a body is taken, together with a positive count. -/
def AfterTaking (i : Fin n) : Except ServerError (Int × Option Bytes) → Server n → Prop
  | .ok r, s => InHand i r.2 s ∧ ∀ body, r.2 = some body → 0 < r.1
  | .error _, s => Framed noneTaken s

theorem readMessage_takes (h : Framed noneTaken s) :
    Safe (framingContract cfg n) (AfterTaking i)
      (readMessage i : ServerM cfg n (Int × Option Bytes)).run s := by
  refine safe_call (Framed noneTaken) (stable_framed _) h (fun s hs => hs.pre _) ?_
  intro s e r s' hs hok he
  obtain ⟨hs', hpos⟩ := hs.read hok.1 he fun chunk hchunk => hok.2 i chunk rfl hchunk
  obtain ⟨totRead, message⟩ := r
  cases message with
  | none => exact .ret (InHand i none) (stable_inHand none none) hs' fun _ h => ⟨h, hpos⟩
  | some body =>
    refine safe_call (InHand i (some body)) (stable_inHand _ _) hs' (fun s hs => hs.pre rfl) ?_
    intro s e x s' hs _ he
    obtain ⟨_, rfl⟩ := Prod.mk.inj (Option.some.inj he)
    exact .ret (InHand i (some body)) (stable_inHand _ none) (hs.status .idle)
      fun _ h => ⟨h, hpos⟩

theorem handleReadEvent_framed (h : Framed noneTaken s) :
    Safe (framingContract cfg n) (Ends (Framed noneTaken) (Framed noneTaken))
      (handleReadEvent parse i).run s := by
  refine safe_call (Framed noneTaken) (stable_framed _) h (fun s hs => hs.pre _) ?_
  intro s e fd s' hs _ he
  obtain ⟨_, rfl⟩ := Prod.mk.inj (Option.some.inj he)
  refine (readMessage_takes hs).except_bind ?_ ?_
  · intro r s hs
    obtain ⟨bytesRead, message⟩ := r
    obtain ⟨htaken, hpos⟩ := hs
    cases message with
    | none =>
      have hrelease : Safe (framingContract cfg n) (Ends (Framed noneTaken) (Framed noneTaken))
          (call (.releaseSlot i) : ServerM cfg n Unit).run s :=
        untaking_framed ⟨rfl, fun _ => trivial⟩ htaken.framed
      change Safe _ _ (ExceptT.run (if bytesRead = 0 then _ else _)) s
      split
      · exact hrelease
      · split
        · exact hrelease
        · exact .ends_ret (stable_framed none) htaken.framed
    | some body =>
      have hbytes : 0 < bytesRead := hpos body rfl
      change Safe _ _ (ExceptT.run (if bytesRead = 0 then _ else _)) s
      rw [if_neg (by omega), if_neg (by omega)]
      exact handleCompleteMessage_framed htaken
  · intro e s hs
    exact .ends_throw (stable_framed none) hs

theorem networkRound_framed (h : Framed noneTaken s) :
    Safe (framingContract cfg n) (fun _ => Framed noneTaken) (networkRound parse) s := by
  refine (networkRound_safe stable_framed stable_framed (fun _ hs => hs) ?_
    (fun i s hs => handleReadEvent_framed hs) ?_ ?_ h).mono ?_
  · intro o ho s hs
    exact ⟨hs.pre o, fun e r s' hok he => hs.perform (takes_of_plain ho) hok.1 he⟩
  · intro i s hs
    exact untaking_framed ((handleWriteEvent_uses i).mono fun _ => takes_of_flushes) hs
  · intro o ho s hs
    have htakes : o.takes = false := by
      cases o with
      | readMessage | handleCompleteMessage => cases ho
      | _ => rfl
    exact ⟨hs.pre o, fun e r s' hok he => hs.perform htakes hok.1 he⟩
  · intro a s hs
    exact (ite_self (Framed noneTaken s)).mp hs

end Handlers

section Handled

variable {env : Nat → JudgeEnv} {ω : Type} [DecidableEq ω]

theorem connections_of_reach {ok : ServerConfig cfg n ω → Thread ω → ServerInput → Prop}
    {c : ServerConfig cfg n ω}
    (hr : Reach (again cfg n parse env ω) ok (serverStart cfg n parse env ω) c) :
    Connections c.shared := by
  refine Reach.invariant Connections connections_start ?_ hr
  intro c t e o k r s' _ _ _ he hs
  exact hs.effect (perform_effect (perform_of_exec he))

/-- The other threads are asked nothing. -/
def framingContracts (cfg : CleanupConfig) (n : Nat) (ω : Type) :
    Thread ω → Contract (serverMachine cfg n)
  | .network => framingContract cfg n
  | _ => ⟨fun _ _ _ => True, fun _ _ _ => True, fun _ _ => True⟩

def framingRest : Thread ω → Bool → Server n → Prop
  | .network, _ => Framed noneTaken
  | _, _ => fun _ => True

omit [DecidableEq ω] in
theorem threadBody_framed (t : Thread ω) {s : Server n} (h : t = .network → Framed noneTaken s) :
    Safe (framingContracts cfg n ω t) (framingRest t) (threadBody cfg n parse env ω t) s := by
  cases t with
  | network => exact networkRound_framed (h rfl)
  | worker w => exact Safe.trivial (fun _ _ => trivial) fun _ _ => trivial
  | control => exact Safe.trivial (fun _ _ => trivial) fun _ _ => trivial

theorem reach_framed {c : ServerConfig cfg n ω}
    (hr : Reach (again cfg n parse env ω) OneFrameReads (serverStart cfg n parse env ω) c) :
    Safe (framingContract cfg n) (framingRest (ω := ω) .network) (c.thread .network) c.shared := by
  refine Reach.safe (framingContracts cfg n ω) framingRest ?_ ?_ ?_ hr .network
  · intro t
    refine threadBody_framed t fun _ => ?_
    intro conn hconn
    refine ⟨[], inputOf_fresh (by simp [serverStart]), ?_⟩
    intro i hi
    exact absurd hi.symm hconn
  · intro t a p s hp hs
    obtain ⟨rfl, rfl⟩ := again_eq_some hp
    cases t with
    | network => exact threadBody_framed .network fun _ => hs
    | worker w => exact threadBody_framed (.worker w) nofun
    | control => exact threadBody_framed .control nofun
  · intro c t e o k r s' hc hok hk _ he
    have hhead : (c.thread t).head = some o := by rw [hk]; rfl
    constructor
    · cases t with
      | network =>
        refine ⟨connections_of_reach hc, ?_⟩
        intro i chunk ho hchunk
        exact hok i chunk (ho ▸ hhead) hchunk
      | worker w => trivial
      | control => trivial
    · intro u hu
      cases u with
      | network => exact perform_worker (worker_of_reach hc (Ne.symm hu) hhead) (perform_of_exec he)
      | worker w => trivial
      | control => trivial

/-- In every run whose reads complete at most one frame each: the input buffer of a slot
in use does not begin with a complete frame; and whenever the network thread is outside its
handlers, in `select` say, a connection on which exactly the frames of `bodies` have been
received has had exactly these handed to `handle_complete_message`, in order. -/
theorem requests_are_handled {c : ServerConfig cfg n ω}
    (hr : Reach (again cfg n parse env ω) OneFrameReads (serverStart cfg n parse env ω) c) :
    (∀ i, (c.shared.slots i).fd ≠ 0 → ¬ HasFrame (c.shared.slots i).unread) ∧
    ∀ o, (c.thread .network).head = some o → ServerCall.plain o = true →
      ∀ conn bodies, conn ≠ 0 → (∀ body ∈ bodies, body.length < 2 ^ 32) →
        receivedOn conn c.shared.trace = frames bodies →
        handledOn conn c.shared.trace = bodies := by
  have hsafe := reach_framed hr
  constructor
  · have hframed : ∃ taken, Framed taken c.shared := by
      cases hp : c.thread .network with
      | ret a =>
        rw [hp] at hsafe
        exact ⟨_, hsafe.post⟩
      | call o k =>
        rw [hp] at hsafe
        exact hsafe.pre.1
    obtain ⟨taken, hframed⟩ := hframed
    intro i hfd
    exact (hframed.at_slot ((connections_of_reach hr).used i hfd)).noFrame
  · intro o ho hplain conn bodies hne hshort hrec
    obtain ⟨rest, hin, _⟩ := (hsafe.pre_head ho).2 hplain conn hne
    have hstream := hin.stream
    have hbodies := hin.short
    change receivedOn conn c.shared.trace = frames (handledOn conn c.shared.trace ++ []) ++ rest
      at hstream
    change ∀ body ∈ handledOn conn c.shared.trace ++ [], _ at hbodies
    rw [List.append_nil] at hstream hbodies
    rw [hrec] at hstream
    exact (frames_unique hbodies hshort hstream.symm hin.noFrame).1

end Handled

section Sample

/-- The test that a step is a good read, if it is a read. -/
def oneFrameTest (c : ServerConfig {} 1 Unit) (t : Thread Unit) (e : ServerInput) : Bool :=
  match (c.thread t).head, e with
  | some (ServerCall.readMessage i), .read (.bytes chunk) =>
      chunk.length < 2 ^ 31 &&
        match splitFrame ((c.shared.slots i).unread ++ chunk) with
        | some (_, rest) => !decide (HasFrame rest)
        | none => true
  | _, _ => true

theorem oneFrameTest_reads (c : ServerConfig {} 1 Unit) (t : Thread Unit) (e : ServerInput)
    (h : oneFrameTest c t e = true) : OneFrameReads c t e := by
  intro i chunk ho he
  subst he
  unfold oneFrameTest at h
  simp only [ho] at h
  rw [Bool.and_eq_true, decide_eq_true_eq] at h
  refine ⟨h.1, ?_⟩
  intro body rest hs
  have hrest := h.2
  rw [hs] at hrest
  simpa using hrest

/-- What the theorem says when one submit request has been received. -/
theorem submit_request_is_handled :
    ∃ c, Reach sampleAgain OneFrameReads sampleServer c ∧
      ¬ HasFrame (c.shared.slots 0).unread ∧ handledOn 1 c.shared.trace = [submitText] := by
  have hrun : (runWhere sampleAgain oneFrameTest sampleServer ackedSchedule).map (fun c =>
      ((c.thread .network).head.map ServerCall.plain, decide ((c.shared.slots 0).fd = 0),
        decide (receivedOn 1 c.shared.trace = frames [submitText]))) =
      some (some true, false, true) := by decide +kernel
  obtain ⟨c, hc, hobs⟩ := Option.map_eq_some_iff.mp hrun
  simp only [Prod.mk.injEq, decide_eq_false_iff_not, decide_eq_true_eq] at hobs
  obtain ⟨hhead, hfd, hreceived⟩ := hobs
  obtain ⟨o, ho, hplain⟩ := Option.map_eq_some_iff.mp hhead
  have hr := reach_of_runWhere oneFrameTest_reads hc
  have hshort : ∀ body ∈ [submitText], body.length < 2 ^ 32 := by decide
  exact ⟨c, hr, (requests_are_handled hr).1 0 hfd,
    (requests_are_handled hr).2 o ho hplain 1 [submitText] (by decide) hshort hreceived⟩

/-- Two submit requests arrive in one read; the first is answered and the loop waits. -/
def pipelinedSchedule : Schedule :=
  connecting ++ submitting (frames [submitText, submitText]) ++ quietly .network 3 ++ flushing ++
    quietly .network 4

/-- The second request stays in the buffer with the slot readable and nothing to write. -/
theorem second_request_is_left_unread :
    ∃ c o, Reach sampleAgain anyStep sampleServer c ∧
      (c.thread .network).head = some o ∧ ServerCall.selects o = true ∧
      (c.shared.slots 0).fd ≠ 0 ∧ (c.shared.slots 0).status = .readable ∧
      (c.shared.slots 0).pendingResponse = [] ∧ HasFrame (c.shared.slots 0).unread ∧
      receivedOn 1 c.shared.trace = frames [submitText, submitText] ∧
      handledOn 1 c.shared.trace = [submitText] := by
  have hrun : (run sampleAgain sampleServer pipelinedSchedule).map (fun c =>
      ((c.thread .network).head.map ServerCall.selects,
        decide ((c.shared.slots 0).fd = 0), decide ((c.shared.slots 0).status = .readable ∧
          (c.shared.slots 0).pendingResponse = [] ∧ HasFrame (c.shared.slots 0).unread ∧
          receivedOn 1 c.shared.trace = frames [submitText, submitText] ∧
          handledOn 1 c.shared.trace = [submitText]))) =
      some (some true, false, true) := by decide +kernel
  obtain ⟨c, hc, hobs⟩ := Option.map_eq_some_iff.mp hrun
  simp only [Prod.mk.injEq, decide_eq_false_iff_not, decide_eq_true_eq] at hobs
  obtain ⟨hhead, hfd, hrest⟩ := hobs
  obtain ⟨o, ho, hsel⟩ := Option.map_eq_some_iff.mp hhead
  exact ⟨c, o, reach_of_run hc, ho, hsel, hfd, hrest⟩

end Sample

end JudgeServer.Network
