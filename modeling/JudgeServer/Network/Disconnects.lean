import JudgeServer.Network.Wakeup

/-!
# Clients that vanish

The server together with the far ends of its connections, which may be closed or reset at
any moment. The kernel reports a reset once, to the next write, which fails. It refuses the
writes after that, and every write once a closed end has been reset: with the default
disposition of `SIGPIPE` the process is terminated, with the signal ignored the write fails.
`main` leaves the default. A read may take the pending error too, but then the connection is
released. The error message of the connection limit is written piece by piece here, one
`write` a turn.
-/

namespace JudgeServer.Network

open JudgeServer.Common
open JudgeServer.Dispatch
open JudgeServer.Lib.Framing (frame)
open JudgeServer.Lib.Interleave
open JudgeServer.Pipeline
open JudgeServer.Protocol

variable {cfg : CleanupConfig} {n : Nat} {parse : JsonParse} {env : Nat → JudgeEnv} {ω : Type}

/-- The far end of a connection, as this end knows it: after `reset` the error is pending, when
`refusing` it has been reported or never was to be. -/
inductive Peer where
  | connected | closed | reset | refusing
  deriving DecidableEq, Repr

/-- A reset arrives. A closed end may answer data with one. -/
def Peer.afterReset : Peer → Peer
  | .connected => .reset
  | .closed => .refusing
  | peer => peer

/-- What the process has arranged for `SIGPIPE`. -/
inductive Disposition where
  | default | ignored
  deriving DecidableEq, Repr

/-- `main` calls neither `signal` nor `sigaction`. -/
def mainDisposition : Disposition := .default

def epipe : Errno := .other 32

def econnreset : Errno := .other 104

structure World (cfg : CleanupConfig) (n : Nat) (ω : Type) where
  config : ServerConfig cfg n ω
  /-- The far end of each connection, by the number it was accepted with. -/
  peer : Nat → Peer := fun _ => .connected
  /-- How much of the connection limit's message has been written. -/
  written : Nat := 0
  /-- Terminated by `SIGPIPE`. -/
  killed : Bool := false

/-- What clients do to a connection, and the turns of the server's threads. -/
inductive Action (ω : Type) where
  | close (conn : Nat)
  | reset (conn : Nat)
  | turn (t : Thread ω) (e : ServerInput)

/-- The bytes a write took. -/
def SendOutcome.taken : SendOutcome → Nat
  | .accepted count => count
  | .failed _ => 0

/-- Whether the loop of `send_connection_limit_error_and_close` goes on after a write. -/
def limitGoesOn (written size : Nat) : SendOutcome → Bool
  | .accepted count => 0 < count && written + count < size
  | .failed errno => errno = .interrupted

namespace World

/-- The connection the thread's next call writes to. -/
def writesTo (x : World cfg n ω) (t : Thread ω) : Option Nat :=
  match (x.config.thread t).head with
  | some (ServerCall.send i data) =>
      if 0 < toInt32 data.length then some (x.config.shared.conn i) else none
  | some (ServerCall.rejectClient _ message) =>
      if x.written < message.length then some x.config.shared.accepted else none
  | _ => none

/-- The thread is about to write on a connection that refuses. -/
def refused (x : World cfg n ω) (t : Thread ω) : Bool :=
  (x.writesTo t).any fun conn => x.peer conn = .refusing

/-- The connection whose reset the thread's next call reports. -/
def reporting (x : World cfg n ω) (t : Thread ω) : Option Nat :=
  (x.writesTo t).filter fun conn => x.peer conn = .reset

variable (parse env) [DecidableEq ω]

/-- The thread's next call is made and returns. -/
def complete (x : World cfg n ω) (t : Thread ω) (e : ServerInput) : Option (World cfg n ω) :=
  (step (again cfg n parse env ω) x.config t e).map fun c => { x with config := c }

/-- A turn as far as the server goes. -/
def advance (x : World cfg n ω) (t : Thread ω) (e : ServerInput) : Option (World cfg n ω) :=
  match (x.config.thread t).head, e with
  | some (ServerCall.rejectClient _ message), .send outcome =>
      if x.written + outcome.taken ≤ message.length then
        if limitGoesOn x.written message.length outcome then
          some { x with written := x.written + outcome.taken }
        else ({ x with written := 0 } : World cfg n ω).complete parse env t e
      else none
  | some (ServerCall.rejectClient _ _), _ => none
  | _, _ => x.complete parse env t e

def turn (d : Disposition) (x : World cfg n ω) (t : Thread ω) (e : ServerInput) :
    Option (World cfg n ω) :=
  if x.killed then none
  else if x.refused t then
    match d with
    | .default => some { x with killed := true }
    | .ignored => x.advance parse env t (.send (.failed epipe))
  else
    match x.reporting t with
    | some conn =>
        ({ x with peer := Function.update x.peer conn .refusing } : World cfg n ω).advance
          parse env t (.send (.failed econnreset))
    | none => x.advance parse env t e

def act (d : Disposition) (x : World cfg n ω) : Action ω → Option (World cfg n ω)
  | .close conn =>
      if x.peer conn = .connected then some { x with peer := Function.update x.peer conn .closed }
      else none
  | .reset conn => some { x with peer := Function.update x.peer conn (x.peer conn).afterReset }
  | .turn t e => x.turn parse env d t e

/-- A whole run. -/
def run (d : Disposition) : World cfg n ω → List (Action ω) → Option (World cfg n ω)
  | x, [] => some x
  | x, a :: as => (x.act parse env d a).bind fun y => y.run d as

end World

variable (cfg n parse env ω) in
def worldStart : World cfg n ω where
  config := serverStart cfg n parse env ω

section Programs

/-- A write that failed for good is followed by `release_connection`. -/
def ReleasesNext : (o : ServerCall n) → o.Reply → Option (ServerCall n) → Prop
  | .send i _, sent, next => sent.1 < 0 → sent.2 ≠ .again → next = some (.releaseSlot i)
  | _, _, _ => True

/-- The calls that write to a connection. -/
def ServerCall.writes : ServerCall n → Bool
  | .send _ _ | .rejectClient _ _ => true
  | _ => false

def ServerCall.sends : ServerCall n → Bool
  | .send _ _ => true
  | _ => false

theorem releasesNext_patient : Patient (M := serverMachine cfg n) ReleasesNext := by
  intro o r next h
  cases o with
  | send i data =>
    intro hneg hne
    cases h hneg hne
  | _ => trivial

theorem releasesNext_of_not_sends {o : ServerCall n} (ho : o.sends = false) (r : o.Reply)
    (next : Option (ServerCall n)) : ReleasesNext o r next := by
  cases o with
  | send => cases ho
  | _ => trivial

theorem releases_of_uses {α : Type} {p : Prog (serverMachine cfg n) α}
    (h : p.Uses fun o : ServerCall n => o.sends = false) : p.Leads ReleasesNext :=
  h.leads fun _ r next ho => releasesNext_of_not_sends ho r next

theorem releases_call {α : Type} {o : ServerCall n} (ho : o.sends = false)
    {k : o.Reply → Prog (serverMachine cfg n) α} (hk : ∀ r, (k r).Leads ReleasesNext) :
    Prog.Leads ReleasesNext (Prog.call (M := serverMachine cfg n) o k) :=
  fun r => ⟨releasesNext_of_not_sends ho r _, hk r⟩

theorem handleWriteEvent_releases (i : Fin n) :
    (handleWriteEvent i : ServerM cfg n Unit).run.Leads ReleasesNext := by
  apply releases_call rfl
  intro _
  apply releases_call rfl
  intro writable
  cases writable with
  | false => trivial
  | true =>
    apply releases_call rfl
    intro pending
    cases pending with
    | false => exact releases_call rfl fun _ => trivial
    | true =>
      apply releases_call rfl
      intro copied
      cases copied with
      | none => trivial
      | some resultData =>
        intro (sent : Int × Errno)
        constructor
        · intro hneg hagain
          change Prog.head (ExceptT.run (if sent.1 < 0 then _ else _)) = _
          rw [if_pos hneg, if_neg hagain]
          rfl
        · change Prog.Leads _ (ExceptT.run (if sent.1 < 0 then _ else _))
          split
          · split
            · trivial
            · exact releases_call rfl fun _ => trivial
          · apply releases_call rfl
            intro emptied
            cases emptied with
            | true => exact releases_call rfl fun _ => trivial
            | false => trivial

theorem handleReadEvent_releases (i : Fin n) :
    (handleReadEvent parse i : ServerM cfg n Unit).run.Leads ReleasesNext := by
  apply releases_of_uses
  refine (handleReadEvent_uses i).mono ?_
  intro o ho
  cases o with
  | send => cases ho
  | _ => rfl

theorem networkRound_releases :
    (networkRound parse : Prog (serverMachine cfg n) Bool).Leads ReleasesNext := by
  refine networkRound_leads releasesNext_patient ?_ handleReadEvent_releases
    handleWriteEvent_releases
  intro o ho r next
  apply releasesNext_of_not_sends
  cases o with
  | send => obtain ho | ho := ho <;> cases ho
  | _ => rfl

end Programs

section Runs

variable [DecidableEq ω] {d : Disposition} {x y z : World cfg n ω}

theorem World.complete_cases {t : Thread ω} {e : ServerInput}
    (h : x.complete parse env t e = some y) :
    step (again cfg n parse env ω) x.config t e = some y.config ∧ y.killed = x.killed := by
  obtain ⟨c, hc, rfl⟩ := Option.map_eq_some_iff.1 h
  exact ⟨hc, rfl⟩

/-- The server stays as it is, or makes one of its steps. -/
theorem World.advance_cases {t : Thread ω} {e : ServerInput}
    (h : x.advance parse env t e = some y) :
    (y.config = x.config ∨ step (again cfg n parse env ω) x.config t e = some y.config) ∧
      y.killed = x.killed := by
  unfold World.advance at h
  split at h
  · split at h
    · split at h
      · obtain rfl := Option.some.inj h
        exact ⟨.inl rfl, rfl⟩
      · obtain ⟨hstep, hkilled⟩ := World.complete_cases h
        exact ⟨.inr hstep, hkilled⟩
    · cases h
  · cases h
  · obtain ⟨hstep, hkilled⟩ := World.complete_cases h
    exact ⟨.inr hstep, hkilled⟩

/-- What one action can do. -/
theorem World.act_cases {a : Action ω} (h : x.act parse env d a = some y) :
    (y.config = x.config ∨ ∃ t e, step (again cfg n parse env ω) x.config t e = some y.config) ∧
      (y.killed = x.killed ∨ d = .default ∧ ∃ t e, a = .turn t e ∧ x.refused t = true ∧
        y.killed = true) := by
  cases a with
  | close conn =>
    change (if x.peer conn = .connected then _ else none) = _ at h
    split at h
    · obtain rfl := Option.some.inj h
      exact ⟨.inl rfl, .inl rfl⟩
    · cases h
  | reset conn =>
    obtain rfl := Option.some.inj h
    exact ⟨.inl rfl, .inl rfl⟩
  | turn t e =>
    change x.turn parse env d t e = _ at h
    unfold World.turn at h
    split at h
    · cases h
    · split at h
      · next hrefused =>
        cases d with
        | default =>
          obtain rfl := Option.some.inj h
          exact ⟨.inl rfl, .inr ⟨rfl, t, e, rfl, hrefused, rfl⟩⟩
        | ignored =>
          obtain ⟨hconfig | hstep, hkilled⟩ := World.advance_cases h
          · exact ⟨.inl hconfig, .inl hkilled⟩
          · exact ⟨.inr ⟨t, _, hstep⟩, .inl hkilled⟩
      · split at h
        · obtain ⟨hconfig | hstep, hkilled⟩ := World.advance_cases h
          · exact ⟨.inl hconfig, .inl hkilled⟩
          · exact ⟨.inr ⟨t, _, hstep⟩, .inl hkilled⟩
        · obtain ⟨hconfig | hstep, hkilled⟩ := World.advance_cases h
          · exact ⟨.inl hconfig, .inl hkilled⟩
          · exact ⟨.inr ⟨t, e, hstep⟩, .inl hkilled⟩

/-- The server's part of a run is a run of the server. -/
theorem World.reach_of_run {as : List (Action ω)}
    (hx : Reach (again cfg n parse env ω) anyStep (serverStart cfg n parse env ω) x.config)
    (h : x.run parse env d as = some y) :
    Reach (again cfg n parse env ω) anyStep (serverStart cfg n parse env ω) y.config := by
  induction as generalizing x with
  | nil =>
    obtain rfl := Option.some.inj h
    exact hx
  | cons a as ih =>
    obtain ⟨w, hw, hrest⟩ := Option.bind_eq_some_iff.1 h
    apply ih _ hrest
    obtain ⟨heq | ⟨t, e, hstep⟩, -⟩ := World.act_cases hw
    · rwa [heq]
    · exact hx.tail trivial hstep

variable (parse env d) in
/-- No write of the run goes to a connection that refuses. -/
def World.Spared : World cfg n ω → List (Action ω) → Prop
  | _, [] => True
  | x, a :: as => (∀ t e, a = .turn t e → x.refused t = false) ∧
      ∀ y, x.act parse env d a = some y → y.Spared as

/-- A killed process stays killed. -/
theorem World.killed_run {as : List (Action ω)} (hx : x.killed = true)
    (h : x.run parse env d as = some y) : y.killed = true := by
  induction as generalizing x with
  | nil =>
    obtain rfl := Option.some.inj h
    exact hx
  | cons a as ih =>
    obtain ⟨w, hw, hrest⟩ := Option.bind_eq_some_iff.1 h
    obtain ⟨-, hsame | ⟨-, -, -, -, -, hkilled⟩⟩ := World.act_cases hw
    · exact ih (hsame.trans hx) hrest
    · exact ih hkilled hrest

/-- With the default disposition the process lives exactly as long as its writes are spared. -/
theorem World.alive_iff_spared {as : List (Action ω)} (hx : x.killed = false)
    (h : x.run parse env .default as = some y) :
    y.killed = false ↔ x.Spared parse env .default as := by
  induction as generalizing x with
  | nil =>
    obtain rfl := Option.some.inj h
    exact iff_of_true hx trivial
  | cons a as ih =>
    obtain ⟨w, hw, hrest⟩ := Option.bind_eq_some_iff.1 h
    have hnext : (∀ v, x.act parse env .default a = some v → v.Spared parse env .default as) ↔
        w.Spared parse env .default as := by
      constructor
      · intro hall
        exact hall w hw
      · intro hspared v hv
        obtain rfl := Option.some.inj (hw.symm.trans hv)
        exact hspared
    change _ ↔ _ ∧ _
    rw [hnext]
    by_cases hrefused : ∃ t e, a = .turn t e ∧ x.refused t = true
    · obtain ⟨t, e, rfl, ht⟩ := hrefused
      have hkilled : w.killed = true := by
        change x.turn parse env .default t e = _ at hw
        unfold World.turn at hw
        rw [if_neg (by simp [hx]), if_pos ht] at hw
        obtain rfl := Option.some.inj hw
        rfl
      apply iff_of_false
      · rw [World.killed_run hkilled hrest]
        simp
      · rintro ⟨hall, -⟩
        cases ht.symm.trans (hall t e rfl)
    · have hspared : ∀ t e, a = .turn t e → x.refused t = false := by
        intro t e ha
        by_contra hne
        exact hrefused ⟨t, e, ha, Bool.eq_true_of_not_eq_false hne⟩
      have halive : w.killed = false := by
        obtain ⟨-, hsame | ⟨-, t, e, ha, ht, -⟩⟩ := World.act_cases hw
        · exact hsame.trans hx
        · exact absurd ⟨t, e, ha, ht⟩ hrefused
      rw [ih halive hrest]
      exact (and_iff_right hspared).symm

end Runs

section Costs

variable [DecidableEq ω] {d : Disposition} {x y z : World cfg n ω}

/-- The server without the connection of one slot. -/
structure LosesOnly (i : Fin n) (s s' : Server n) : Prop where
  gone : (s'.slots i).fd = 0
  slots : ∀ j, j ≠ i → s'.slots j = s.slots j
  conn : ∀ j, j ≠ i → s'.conn j = s.conn j
  ackBarrier : s'.ackBarrier = s.ackBarrier
  store : s'.store = s.store
  queue : s'.queue = s.queue
  stopped : s'.stopped = s.stopped
  wakeCounter : s'.wakeCounter = s.wakeCounter
  terminated : s'.terminated = s.terminated

variable (parse env d) in
/-- The other connections are what they were, and the other threads can do what they could. -/
structure CarriesOn (x y : World cfg n ω) : Prop where
  alive : y.killed = false
  peer : ∀ conn, x.writesTo .network ≠ some conn → y.peer conn = x.peer conn
  thread : ∀ t, t ≠ .network → y.config.thread t = x.config.thread t
  enabled : ∀ t, t ≠ .network → ∀ e,
    (y.turn parse env d t e).isSome = (x.turn parse env d t e).isSome

/-- The error a write of the network thread fails with on input `e`, if it does and the process
goes on. -/
def World.failure (d : Disposition) (x : World cfg n ω) (e : ServerInput) : Option Errno :=
  if x.refused .network then
    match d with
    | .default => none
    | .ignored => some epipe
  else if (x.reporting .network).isSome then some econnreset
  else
    match e with
    | .send (.failed errno) => some errno
    | _ => none

variable (parse env d) in
/-- A write that fails for good costs the connection it was made on, and nothing else. -/
structure Copes (x : World cfg n ω) : Prop where
  released : ∀ i data e errno, (x.config.thread .network).head = some (ServerCall.send i data) →
    0 < toInt32 data.length → x.failure d e = some errno → errno ≠ .again →
    x.config.shared.terminated = false →
    ∃ y z, x.turn parse env d .network e = some y ∧
      (y.config.thread .network).head = some (ServerCall.releaseSlot i) ∧
      y.turn parse env d .network .quiet = some z ∧
      LosesOnly i x.config.shared z.config.shared ∧ CarriesOn parse env d x z
  closed : ∀ fd message e errno,
    (x.config.thread .network).head = some (ServerCall.rejectClient fd message) →
    x.written < message.length → x.failure d e = some errno → errno ≠ .interrupted →
    x.config.shared.terminated = false →
    ∃ y, x.turn parse env d .network e = some y ∧
      step (again cfg n parse env ω) x.config .network (.send (.failed errno)) = some y.config ∧
      y.config.shared = x.config.shared ∧ CarriesOn parse env d x y

theorem perform_enabled {o : ServerCall n} (ho : o.worker = true) {s s' : Server n}
    (hqueue : s'.queue = s.queue) (e : ServerInput) :
    (Server.perform cfg o e s').isSome = (Server.perform cfg o e s).isSome := by
  cases o with
  | store call =>
    cases e with
    | store input => rfl
    | _ => rfl
  | pop =>
    change (Option.map _ s'.queue.pop).isSome = (Option.map _ s.queue.pop).isSome
    rw [Option.isSome_map, Option.isSome_map, hqueue]
  | tryDefer | setPendingResponseIfSession | isStopping | exchangeStopped | shutdownQueue | wake
  | terminate => rfl
  | _ => cases ho

/-- A thread that is at neither of the two writes. -/
theorem World.turn_complete {t : Thread ω}
    (hcalls : ∀ o, (x.config.thread t).head = some o → ServerCall.writes o = false)
    (hx : x.killed = false) (e : ServerInput) :
    x.turn parse env d t e = x.complete parse env t e := by
  have hwrites : x.writesTo t = none ∧ x.advance parse env t e = x.complete parse env t e := by
    unfold World.writesTo World.advance
    cases hhead : (x.config.thread t).head with
    | none => exact ⟨rfl, rfl⟩
    | some o =>
      have ho := hcalls o hhead
      cases o with
      | send => cases ho
      | rejectClient => cases ho
      | _ => exact ⟨rfl, rfl⟩
  have hrefused : x.refused t = false := by
    rw [World.refused, hwrites.1]
    rfl
  have hreporting : x.reporting t = none := by
    rw [World.reporting, hwrites.1]
    rfl
  unfold World.turn
  rw [if_neg (by simp [hx]), if_neg (by simp [hrefused]), hreporting]
  exact hwrites.2

theorem writes_of_worker {o : ServerCall n} (h : o.worker = true) : o.writes = false := by
  cases o with
  | send | rejectClient => cases h
  | _ => rfl

theorem step_enabled {c c' : ServerConfig cfg n ω} {t : Thread ω}
    (hcalls : ∀ o, (c.thread t).head = some o → ServerCall.worker o = true)
    (hthread : c'.thread t = c.thread t) (hqueue : c'.shared.queue = c.shared.queue)
    (hterm : c'.shared.terminated = c.shared.terminated) (e : ServerInput) :
    (step (again cfg n parse env ω) c' t e).isSome =
      (step (again cfg n parse env ω) c t e).isSome := by
  unfold step
  rw [hthread]
  cases hc : c.thread t with
  | ret a => rw [Option.isSome_map, Option.isSome_map]
  | call o k =>
    have ho : ServerCall.worker o = true := by
      apply hcalls
      rw [hc]
      rfl
    rw [Option.isSome_map, Option.isSome_map]
    change (if c'.shared.terminated then none else Server.perform cfg o e c'.shared).isSome =
      (if c.shared.terminated then none else Server.perform cfg o e c.shared).isSome
    rw [hterm]
    split
    · rfl
    · exact perform_enabled ho hqueue e

/-- A change of the network thread and of the connections leaves the others their turns. -/
theorem carriesOn_of_network
    (hr : Reach (again cfg n parse env ω) anyStep (serverStart cfg n parse env ω) x.config)
    (hx : x.killed = false) (hy : y.killed = false)
    (hpeer : ∀ conn, x.writesTo .network ≠ some conn → y.peer conn = x.peer conn)
    (hthread : ∀ t, t ≠ .network → y.config.thread t = x.config.thread t)
    (hqueue : y.config.shared.queue = x.config.shared.queue)
    (hterm : y.config.shared.terminated = x.config.shared.terminated) :
    CarriesOn parse env d x y where
  alive := hy
  peer := hpeer
  thread := hthread
  enabled t ht e := by
    have hcalls : ∀ o, (x.config.thread t).head = some o → ServerCall.worker o = true :=
      fun o ho => worker_of_reach hr ht ho
    have hcalls' : ∀ o, (y.config.thread t).head = some o → ServerCall.worker o = true := by
      rwa [hthread t ht]
    rw [World.turn_complete (fun o ho => writes_of_worker (hcalls o ho)) hx,
      World.turn_complete (fun o ho => writes_of_worker (hcalls' o ho)) hy, World.complete,
      World.complete, Option.isSome_map, Option.isSome_map]
    exact step_enabled hcalls (hthread t ht) hqueue hterm e

variable (parse env) in
/-- A write of the network thread that fails. It may take the pending error with it. -/
theorem World.turn_failed {e : ServerInput} {errno : Errno} (hx : x.killed = false)
    (hfails : x.failure d e = some errno) :
    ∃ peer, (∀ conn, x.writesTo .network ≠ some conn → peer conn = x.peer conn) ∧
      x.turn parse env d .network e =
        ({ x with peer := peer } : World cfg n ω).advance parse env .network
          (.send (.failed errno)) := by
  unfold World.failure at hfails
  unfold World.turn
  rw [if_neg (by simp [hx])]
  split at hfails
  · next hrefused =>
    rw [if_pos hrefused]
    cases d with
    | default => cases hfails
    | ignored =>
      obtain rfl := Option.some.inj hfails
      exact ⟨x.peer, fun _ _ => rfl, rfl⟩
  · next hrefused =>
    rw [if_neg hrefused]
    cases hreporting : x.reporting .network with
    | some conn =>
      rw [hreporting] at hfails
      obtain rfl := Option.some.inj hfails
      refine ⟨Function.update x.peer conn .refusing, ?_, rfl⟩
      intro c hc
      have hwrites := (Option.filter_eq_some_iff.mp hreporting).1
      refine Function.update_of_ne ?_ _ _
      rintro rfl
      exact hc hwrites
    | none =>
      rw [hreporting] at hfails
      simp only [Option.isSome_none, Bool.false_eq_true, if_false] at hfails
      split at hfails
      · obtain rfl := Option.some.inj hfails
        exact ⟨x.peer, fun _ _ => rfl, rfl⟩
      · cases hfails

theorem exec_of_perform {o : ServerCall n} {e : ServerInput} {s s' : Server n} {r : o.Reply}
    (hterm : s.terminated = false) (h : Server.perform cfg o e s = some (r, s')) :
    (serverMachine cfg n).exec o e s = some (r, s') := by
  change (if s.terminated then none else Server.perform cfg o e s) = _
  rwa [hterm]

/-- The server after a write on slot `i` that failed. -/
def Server.sendFailed (s : Server n) (i : Fin n) (errno : Errno) : Server n :=
  { s with
    errno := errno
    trace := s.trace ++ [.sent (s.conn i) []] }

theorem perform_sendFailed {s : Server n} {i : Fin n} {data : Bytes} {errno : Errno}
    (hdata : 0 < toInt32 data.length) :
    Server.perform cfg (.send i data) (.send (.failed errno)) s =
      some ((-1, errno), s.sendFailed i errno) := by
  have hsend : ConnectionSlot.send data (.failed errno) = (-1, [], some errno) := by
    unfold ConnectionSlot.send
    rw [if_neg (by omega)]
  change some (s.afterSend i (ConnectionSlot.send data (.failed errno))) = _
  rw [hsend]
  simp [Server.afterSend, Server.sendFailed]

theorem losesOnly_release (s : Server n) (i : Fin n) (errno : Errno) :
    LosesOnly i s ((s.sendFailed i errno).releaseSlot i) := by
  unfold Server.releaseSlot
  split
  · next hfree => exact ⟨hfree, fun _ _ => rfl, fun _ _ => rfl, rfl, rfl, rfl, rfl, rfl, rfl⟩
  · refine ⟨?_, ?_, ?_, rfl, rfl, rfl, rfl, rfl, rfl⟩
    · simp [ConnectionSlot.clear]
    · intro j hj
      exact Function.update_of_ne hj _ _
    · intro j hj
      exact Function.update_of_ne hj _ _

theorem networkThread_releases {c : ServerConfig cfg n ω}
    (hr : Reach (again cfg n parse env ω) anyStep (serverStart cfg n parse env ω) c) :
    (c.thread .network).Leads ReleasesNext := by
  refine Reach.leads networkRound_releases ?_ hr
  intro a p hp
  obtain ⟨-, rfl⟩ := again_eq_some hp
  exact networkRound_releases

theorem copes_released
    (hr : Reach (again cfg n parse env ω) anyStep (serverStart cfg n parse env ω) x.config)
    (hx : x.killed = false) {i : Fin n} {data : Bytes} {e : ServerInput} {errno : Errno}
    (hhead : (x.config.thread .network).head = some (ServerCall.send i data))
    (hdata : 0 < toInt32 data.length) (hfails : x.failure d e = some errno)
    (hagain : errno ≠ .again) (hterm : x.config.shared.terminated = false) :
    ∃ y z, x.turn parse env d .network e = some y ∧
      (y.config.thread .network).head = some (ServerCall.releaseSlot i) ∧
      y.turn parse env d .network .quiet = some z ∧
      LosesOnly i x.config.shared z.config.shared ∧ CarriesOn parse env d x z := by
  obtain ⟨k, hk⟩ := Prog.exists_call hhead
  have hleads := networkThread_releases hr
  rw [hk] at hleads
  have hnext : (k (-1, errno)).head = some (ServerCall.releaseSlot i) :=
    (hleads (-1, errno)).1 (show (-1 : Int) < 0 by decide) hagain
  obtain ⟨k', hk'⟩ := Prog.exists_call hnext
  obtain ⟨peer, hpeer, hturn⟩ := World.turn_failed parse env hx hfails
  let s₁ := x.config.shared.sendFailed i errno
  let y : World cfg n ω := { x with
    peer := peer
    config := ⟨s₁, Function.update x.config.thread .network (k (-1, errno))⟩ }
  let z : World cfg n ω := { y with
    config := ⟨s₁.releaseSlot i, Function.update y.config.thread .network (k' ())⟩ }
  have hnet : y.config.thread .network = .call (ServerCall.releaseSlot i) k' := by
    change Function.update x.config.thread .network (k (-1, errno)) .network = _
    rw [Function.update_self, hk']
  have hy : x.turn parse env d .network e = some y := by
    rw [hturn]
    unfold World.advance
    dsimp only
    rw [hhead]
    dsimp only
    rw [World.complete, step_of_exec hk (exec_of_perform hterm (perform_sendFailed hdata))]
    rfl
  have hz : y.turn parse env d .network .quiet = some z := by
    have hcalls : ∀ o, (y.config.thread .network).head = some o → ServerCall.writes o = false := by
      intro o ho
      rw [hnet] at ho
      obtain rfl := Option.some.inj ho
      rfl
    have hexec : (serverMachine cfg n).exec (.releaseSlot i) .quiet s₁ =
        some ((), s₁.releaseSlot i) := exec_of_perform hterm rfl
    rw [World.turn_complete hcalls hx, World.complete, step_of_exec hnet hexec]
    rfl
  have hloses := losesOnly_release x.config.shared i errno
  have hcarries : CarriesOn parse env d x z := by
    refine carriesOn_of_network hr hx hx hpeer ?_ hloses.queue hloses.terminated
    intro t ht
    exact (Function.update_of_ne ht _ _).trans (Function.update_of_ne ht _ _)
  refine ⟨y, z, hy, ?_, hz, hloses, hcarries⟩
  rw [hnet]
  rfl

theorem copes_closed
    (hr : Reach (again cfg n parse env ω) anyStep (serverStart cfg n parse env ω) x.config)
    (hx : x.killed = false) {fd : Int} {message : Bytes} {e : ServerInput} {errno : Errno}
    (hhead : (x.config.thread .network).head = some (ServerCall.rejectClient fd message))
    (hloop : x.written < message.length) (hfails : x.failure d e = some errno)
    (hintr : errno ≠ .interrupted) (hterm : x.config.shared.terminated = false) :
    ∃ y, x.turn parse env d .network e = some y ∧
      step (again cfg n parse env ω) x.config .network (.send (.failed errno)) = some y.config ∧
      y.config.shared = x.config.shared ∧ CarriesOn parse env d x y := by
  obtain ⟨k, hk⟩ := Prog.exists_call hhead
  obtain ⟨peer, hpeer, hturn⟩ := World.turn_failed parse env hx hfails
  let y : World cfg n ω := { x with
    peer := peer
    config := ⟨x.config.shared, Function.update x.config.thread .network (k ())⟩
    written := 0 }
  have hexec : (serverMachine cfg n).exec (.rejectClient fd message) (.send (.failed errno))
      x.config.shared = some ((), x.config.shared) := exec_of_perform hterm rfl
  have hstep : step (again cfg n parse env ω) x.config .network (.send (.failed errno)) =
      some y.config := step_of_exec hk hexec
  have hy : x.turn parse env d .network e = some y := by
    have hleft : limitGoesOn x.written message.length (.failed errno) = false := by
      simp [limitGoesOn, hintr]
    have hfits : x.written + SendOutcome.taken (.failed errno) ≤ message.length :=
      Nat.le_of_lt hloop
    rw [hturn]
    unfold World.advance
    dsimp only
    rw [hhead]
    dsimp only
    rw [if_pos hfits, if_neg (by simp [hleft]), World.complete, hstep]
    rfl
  refine ⟨y, hy, hstep, rfl, carriesOn_of_network hr hx hx hpeer ?_ rfl rfl⟩
  intro t ht
  exact Function.update_of_ne ht _ _

theorem run_copes {as : List (Action ω)}
    (h : (worldStart cfg n parse env ω).run parse env d as = some x) (hx : x.killed = false) :
    Copes parse env d x := by
  have hr : Reach (again cfg n parse env ω) anyStep (serverStart cfg n parse env ω) x.config :=
    World.reach_of_run .refl h
  constructor
  · intro i data e errno hhead hdata hfails hagain hterm
    exact copes_released hr hx hhead hdata hfails hagain hterm
  · intro fd message e errno hhead hloop hfails hintr hterm
    exact copes_closed hr hx hhead hloop hfails hintr hterm

/-- With the signal ignored no client terminates the server. -/
theorem ignored_signal_is_survived {as : List (Action ω)}
    (h : (worldStart cfg n parse env ω).run parse env .ignored as = some x) :
    x.killed = false ∧ Copes parse env .ignored x := by
  have halive : ∀ (as : List (Action ω)) (w : World cfg n ω), w.killed = false →
      w.run parse env .ignored as = some x → x.killed = false := by
    intro as
    induction as with
    | nil =>
      intro w hw hrun
      obtain rfl := Option.some.inj hrun
      exact hw
    | cons a as ih =>
      intro w hw hrun
      obtain ⟨v, hv, hrest⟩ := Option.bind_eq_some_iff.1 hrun
      obtain ⟨-, hsame | ⟨hdefault, -⟩⟩ := World.act_cases hv
      · exact ih v (hsame.trans hw) hrest
      · cases hdefault
  have hx := halive as _ rfl h
  exact ⟨hx, run_copes h hx⟩

/-- In every run, with what `main` arranges for `SIGPIPE`: the process is alive exactly when
no write so far went to a connection that refuses. As long as it is, a write that fails costs
the one connection, and the other threads carry on. -/
theorem disconnects_are_survived {as : List (Action ω)}
    (h : (worldStart cfg n parse env ω).run parse env mainDisposition as = some x) :
    (x.killed = false ↔ (worldStart cfg n parse env ω).Spared parse env mainDisposition as) ∧
      (x.killed = false → Copes parse env mainDisposition x) :=
  ⟨World.alive_iff_spared rfl h, run_copes h⟩

end Costs

section Sample

def turns (xs : Schedule) : List (Action Unit) := xs.map fun y => .turn y.1 y.2

abbrev sampleWorld : World {} 1 Unit := worldStart {} 1 sampleParse (fun _ => compileErrorEnv) Unit

/-- The round that sends the ack, up to the write. -/
def reachingSend : Schedule :=
  quietly .network 3 ++ [(.network, .select [] [5] false)] ++ quietly .network 5

/-- What the theorem says when the ack is about to be sent. -/
theorem acking_server_is_alive :
    ∃ x, sampleWorld.run sampleParse (fun _ => compileErrorEnv) mainDisposition
        (turns (ackedSchedule ++ reachingSend)) = some x ∧
      sampleWorld.Spared sampleParse (fun _ => compileErrorEnv) mainDisposition
        (turns (ackedSchedule ++ reachingSend)) ∧
      Copes sampleParse (fun _ => compileErrorEnv) mainDisposition x := by
  have hrun : (sampleWorld.run sampleParse (fun _ => compileErrorEnv) mainDisposition
      (turns (ackedSchedule ++ reachingSend))).map (fun x => x.killed) = some false := by
    decide +kernel
  obtain ⟨x, hx, halive⟩ := Option.map_eq_some_iff.mp hrun
  obtain ⟨hspared, hcopes⟩ := disconnects_are_survived hx
  exact ⟨x, hx, hspared.1 halive, hcopes halive⟩

/-- A client submits, closes its end and then resets the connection, before the ack is sent. -/
def vanishing : List (Action Unit) :=
  turns ackedSchedule ++ [.close 1, .reset 1] ++ turns (reachingSend ++ quietly .network 1)

theorem vanished_client_kills_server :
    ∃ x, sampleWorld.run sampleParse (fun _ => compileErrorEnv) mainDisposition vanishing =
      some x ∧ x.killed = true := by
  have hrun : (sampleWorld.run sampleParse (fun _ => compileErrorEnv) mainDisposition
      vanishing).map (fun x => x.killed) = some true := by decide +kernel
  exact Option.map_eq_some_iff.mp hrun

/-- A reset alone is reported to the write. -/
example : (sampleWorld.run sampleParse (fun _ => compileErrorEnv) mainDisposition
    (turns ackedSchedule ++ [.reset 1] ++ turns (reachingSend ++ quietly .network 2))).map
      (fun x => (x.killed, (x.config.shared.slots 0).fd)) = some (false, 0) := by decide +kernel

end Sample

end JudgeServer.Network
