import JudgeServer.Network.ConnectionRegistry
import JudgeServer.Network.Readiness
import JudgeServer.Lib.Watch

/-!
# Responses that wake the loop

A worker makes a slot writable and then calls `wake`; the loop populates its sets, blocks
in `select` and drains the counter when `select` has returned. Watched runs record which
thread made a slot writable and which threads have yet to call `wake`. From the moment
`populate_socket_sets` has looked at a slot, the slot is offered to `select`, or not
writable, or excused: the counter is positive or its worker's `wake` is still to come.
-/

namespace JudgeServer.Network

open JudgeServer.Common
open JudgeServer.Dispatch
open JudgeServer.Lib.Framing (frame)
open JudgeServer.Lib.Interleave
open JudgeServer.Pipeline
open JudgeServer.Protocol

variable {cfg : CleanupConfig} {n : Nat} {parse : JsonParse} {env : Nat → JudgeEnv} {ω : Type}

structure WakeLog (n : Nat) (ω : Type) where
  /-- The thread that made the slot writable, the last time that happened. -/
  madeBy : Fin n → Option (Thread ω) := fun _ => none
  /-- The threads that have delivered a response and not called `wake` since. -/
  owing : Thread ω → Bool := fun _ => false

/-- A response has been put into a slot. -/
def ServerCall.delivered : (o : ServerCall n) → o.Reply → Bool
  | .setPendingResponseIfSession _ _ _, queued => queued
  | _, _ => false

def ServerCall.isWake : ServerCall n → Bool
  | .wake => true
  | _ => false

def Writable (slot : ConnectionSlot) : Prop := slot.status = .writable

instance (slot : ConnectionSlot) : Decidable (Writable slot) :=
  inferInstanceAs (Decidable (_ = _))

def WakeLog.note [DecidableEq ω] (t : Thread ω) (o : ServerCall n) (s : Server n) (r : o.Reply)
    (s' : Server n) (log : WakeLog n ω) : WakeLog n ω where
  madeBy i := if ¬Writable (s.slots i) ∧ Writable (s'.slots i) then some t else log.madeBy i
  owing := Function.update log.owing t (o.delivered r || (log.owing t && !o.isWake))

theorem WakeLog.owing_other [DecidableEq ω] {t u : Thread ω} (h : u ≠ t) (o : ServerCall n)
    (s : Server n) (r : o.Reply) (s' : Server n) (log : WakeLog n ω) :
    (log.note t o s r s').owing u = log.owing u := Function.update_of_ne h _ _

theorem WakeLog.owing_self [DecidableEq ω] (t : Thread ω) (o : ServerCall n)
    (s : Server n) (r : o.Reply) (s' : Server n) (log : WakeLog n ω) :
    (log.note t o s r s').owing t = (o.delivered r || (log.owing t && !o.isWake)) :=
  Function.update_self _ _ _

/-- A thread owes `wake` for what it has just delivered, or still. -/
theorem WakeLog.owing_cases [DecidableEq ω] {t : Thread ω} {o : ServerCall n} {s s' : Server n}
    {r : o.Reply} {log : WakeLog n ω} (h : (log.note t o s r s').owing t = true) :
    o.delivered r = true ∨ log.owing t = true ∧ o ≠ .wake := by
  rw [WakeLog.owing_self, Bool.or_eq_true, Bool.and_eq_true] at h
  obtain hd | ⟨hold, hwake⟩ := h
  · exact .inl hd
  · refine .inr ⟨hold, ?_⟩
    rintro rfl
    cases hwake

def wakeWatcher (cfg : CleanupConfig) (n : Nat) (ω : Type) [DecidableEq ω] :
    Watcher (serverMachine cfg n) (Thread ω) (WakeLog n ω) where
  note := WakeLog.note

/-- After a delivery comes `wake`. -/
def WakesNext (o : ServerCall n) (r : o.Reply) (next : Option (ServerCall n)) : Prop :=
  o.delivered r = true → next = some .wake

theorem wakesNext_patient : Patient (M := serverMachine cfg n) WakesNext := by
  intro o r next h hd
  cases h hd

section Excuses

/-- A server with the notes beside it. -/
abbrev Noted (n : Nat) (ω : Type) := Server n × WakeLog n ω

/-- A slot that need not be offered: the loop is about to be woken. -/
def Excused (i : Fin n) (y : Noted n ω) : Prop :=
  0 < y.1.wakeCounter ∨ ∃ w, y.2.madeBy i = some (.worker w) ∧ y.2.owing (.worker w) = true

theorem wakeCounter_mono {o : ServerCall n} (ho : o.worker = true) {e : ServerInput}
    {s s' : Server n} {r : o.Reply} (h : Server.perform cfg o e s = some (r, s')) :
    s.wakeCounter ≤ s'.wakeCounter := by
  cases o with
  | setPendingResponseIfSession i sessionId message =>
    obtain ⟨-, rfl⟩ | ⟨-, -, -, rfl⟩ := setPendingResponseIfSession_cases (Option.some.inj h)
    · exact Nat.le_refl _
    · exact Nat.le_refl _
  | store call =>
    cases e with
    | store input =>
      obtain ⟨-, rfl⟩ := Prod.mk.inj (Option.some.inj h)
      exact Nat.le_refl _
    | _ => cases h
  | pop =>
    obtain ⟨taken, -, hr⟩ := Option.map_eq_some_iff.1 h
    obtain ⟨-, rfl⟩ := Prod.mk.inj hr
    exact Nat.le_refl _
  | wake =>
    obtain ⟨-, rfl⟩ := Prod.mk.inj (Option.some.inj h)
    dsimp only
    split <;> omega
  | tryDefer | isStopping | exchangeStopped | shutdownQueue | terminate =>
    obtain ⟨-, rfl⟩ := Prod.mk.inj (Option.some.inj h)
    exact Nat.le_refl _
  | _ => cases ho

theorem wake_positive {e : ServerInput} {s s' : Server n} {r : Unit}
    (h : Server.perform cfg .wake e s = some (r, s')) : 0 < s'.wakeCounter := by
  obtain ⟨-, rfl⟩ := Prod.mk.inj (Option.some.inj h)
  dsimp only
  split <;> omega

/-- Only a delivery makes a slot writable. -/
theorem delivered_of_writable {o : ServerCall n} (ho : o.worker = true) {e : ServerInput}
    {s s' : Server n} {r : o.Reply} (h : Server.perform cfg o e s = some (r, s')) {i : Fin n}
    (hs : ¬Writable (s.slots i)) (hs' : Writable (s'.slots i)) : o.delivered r = true := by
  have hchanged : s'.slots ≠ s.slots := by
    intro heq
    rw [heq] at hs'
    exact hs hs'
  cases o with
  | setPendingResponseIfSession j sessionId message =>
    obtain ⟨-, rfl⟩ | ⟨rfl, -⟩ := setPendingResponseIfSession_cases (Option.some.inj h)
    · exact absurd rfl hchanged
    · rfl
  | tryDefer | store | pop | isStopping | exchangeStopped | shutdownQueue | wake | terminate =>
    exact absurd (perform_keepsSlots rfl h) hchanged
  | _ => cases ho

theorem delivered_worker {t : Thread ω} {o : ServerCall n} (ht : t ≠ .network)
    (ho : callsOf t o) {r : o.Reply} (h : o.delivered r = true) : ∃ w, t = .worker w := by
  cases t with
  | network => exact absurd rfl ht
  | worker w => exact ⟨w, rfl⟩
  | control =>
    change o.stops = true at ho
    cases o with
    | exchangeStopped | shutdownQueue => cases h
    | _ => cases ho

/-- What the network thread sees of the others: connections stay where they are, and a slot
that becomes writable is excused. -/
structure Wakes (y y' : Noted n ω) : Prop where
  fd : ∀ i, (y'.1.slots i).fd = (y.1.slots i).fd
  writable : ∀ i, Writable (y'.1.slots i) → Writable (y.1.slots i) ∨ Excused i y'
  excused : ∀ i, Excused i y → Excused i y'

/-- A call of another thread, made with `wake` where the thread owes it. -/
theorem wakes_of_worker [DecidableEq ω] {t : Thread ω} (ht : t ≠ .network) {o : ServerCall n}
    (ho : callsOf t o) {e : ServerInput} {s s' : Server n} {r : o.Reply} {log : WakeLog n ω}
    (howes : log.owing t = true → o = .wake) (h : Server.perform cfg o e s = some (r, s')) :
    Wakes (s, log) (s', log.note t o s r s') := by
  have hworker := worker_of_callsOf ht ho
  have hmade : ∀ i, ¬Writable (s.slots i) → Writable (s'.slots i) →
      Excused i (s', log.note t o s r s') := by
    intro i hs hs'
    have hd := delivered_of_writable hworker h hs hs'
    obtain ⟨w, rfl⟩ := delivered_worker ht ho hd
    refine .inr ⟨w, ?_, ?_⟩
    · exact if_pos ⟨hs, hs'⟩
    · rw [WakeLog.owing_self, hd, Bool.true_or]
  constructor
  · intro i
    obtain heq | ⟨-, body, heq⟩ := (perform_worker hworker h).slots i
    · rw [heq]
    · rw [heq]
      rfl
  · intro i hs'
    by_cases hs : Writable (s.slots i)
    · exact .inl hs
    · exact .inr (hmade i hs hs')
  · intro i hex
    by_cases hnew : ¬Writable (s.slots i) ∧ Writable (s'.slots i)
    · exact hmade i hnew.1 hnew.2
    obtain hpos | ⟨w, hby, how⟩ := hex
    · exact .inl (Nat.lt_of_lt_of_le hpos (wakeCounter_mono hworker h))
    · by_cases hw : Thread.worker w = t
      · -- The worker that owes a `wake` can only be calling it.
        subst hw
        obtain rfl := howes how
        exact .inl (wake_positive h)
      · refine .inr ⟨w, ?_, ?_⟩
        · exact (if_neg hnew).trans hby
        · exact (WakeLog.owing_other hw o s r s' log).trans how

end Excuses

section Coverage

/-- The slots before `rest` are offered for writing, or not writable, or excused, unless their
descriptor has no bit in an `fd_set`. -/
def Covered (rest : List (Fin n)) (writes : List Int) (y : Noted n ω) : Prop :=
  ∀ i, i ∉ rest → (y.1.slots i).fd ≠ 0 → (y.1.slots i).fd < fdSetSize → Writable (y.1.slots i) →
    (y.1.slots i).fd ∈ writes ∨ Excused i y

theorem stable_covered (rest : List (Fin n)) (writes : List Int) :
    Stable Wakes (Covered (ω := ω) rest writes) := by
  intro y y' hc hy i hi hfd hlt hw
  rw [hy.fd i] at hfd hlt ⊢
  obtain hw | hex := hy.writable i hw
  · obtain hmem | hex := hc i hi hfd hlt hw
    · exact .inl hmem
    · exact .inr (hy.excused i hex)
  · exact .inr hex

/-- A slot that is not in use or not writable. -/
theorem Covered.skip {i : Fin n} {rest : List (Fin n)} {writes : List Int} {y : Noted n ω}
    (h : Covered (i :: rest) writes y) (hi : (y.1.slots i).fd ≠ 0 → ¬Writable (y.1.slots i)) :
    Covered rest writes y := by
  intro j hj hfd hlt hw
  by_cases hji : j = i
  · subst hji
    exact absurd hw (hi hfd)
  · exact h j (by simp [hji, hj]) hfd hlt hw

theorem mem_fdSet_of_mem {fds : List Int} {fd : Int} (h : fd ∈ fds) (fd' : Int) :
    fd ∈ fdSet fds fd' := by
  unfold fdSet
  split
  · exact List.mem_append_left _ h
  · exact h

theorem mem_fdSet_self (fds : List Int) {fd : Int} (h : fd < fdSetSize) : fd ∈ fdSet fds fd := by
  rw [fdSet, if_pos h]
  exact List.mem_append_right _ List.mem_cons_self

/-- A slot that is offered. -/
theorem Covered.offer {i : Fin n} {rest : List (Fin n)} {writes : List Int} {y : Noted n ω}
    (h : Covered (i :: rest) writes y) : Covered rest (fdSet writes (y.1.slots i).fd) y := by
  intro j hj hfd hlt hw
  by_cases hji : j = i
  · subst hji
    exact .inl (mem_fdSet_self writes hlt)
  · obtain hmem | hex := h j (by simp [hji, hj]) hfd hlt hw
    · exact .inl (mem_fdSet_of_mem hmem _)
    · exact .inr hex

theorem le_foldl_max (fds : List Int) (start : Int) :
    start ≤ fds.foldl max start ∧ ∀ fd ∈ fds, fd ≤ fds.foldl max start := by
  induction fds generalizing start with
  | nil => exact ⟨le_refl _, fun _ h => absurd h List.not_mem_nil⟩
  | cons x fds ih =>
    obtain ⟨hstart, hall⟩ := ih (max start x)
    refine ⟨(le_max_left start x).trans hstart, ?_⟩
    intro fd hfd
    obtain rfl | hfd := List.mem_cons.mp hfd
    · exact (le_max_right start fd).trans hstart
    · exact hall fd hfd

/-- `select` looks at every bit of the write set. -/
theorem mem_below_maxFd {reads writes : List Int} {fd : Int} (hfd : fd ∈ writes)
    (hlt : fd < fdSetSize) : fd ∈ below (maxFd reads writes + 1) writes := by
  have hle : fd ≤ maxFd reads writes :=
    (le_foldl_max _ 0).2 fd
      (List.mem_filter.mpr ⟨List.mem_append_right _ hfd, decide_eq_true hlt⟩)
  exact List.mem_filter.mpr ⟨hfd, decide_eq_true (Int.lt_add_one_of_le hle)⟩

theorem Covered.below {writes : List Int} {y : Noted n ω} (h : Covered [] writes y)
    (reads : List Int) : Covered [] (below (maxFd reads writes + 1) writes) y := by
  intro i hi hfd hlt hw
  obtain hmem | hex := h i hi hfd hlt hw
  · exact .inl (mem_below_maxFd hmem hlt)
  · exact .inr hex

end Coverage

section Network

variable [DecidableEq ω]

/-- A look at a slot changes nothing, whatever the input. -/
theorem perform_look {o : ServerCall n} (ho : o.populates = true) {e : ServerInput}
    {s s' : Server n} {r : o.Reply} (h : Server.perform cfg o e s = some (r, s')) :
    s' = s ∧ Server.perform cfg o .quiet s = some (r, s) := by
  cases o with
  | getFd site i | isReadable i | isWritable site i =>
    obtain ⟨rfl, rfl⟩ := Prod.mk.inj (Option.some.inj h)
    exact ⟨rfl, rfl⟩
  | _ => cases ho

/-- A call of the watched machine. -/
theorem watched_exec {t : Thread ω} {o : ServerCall n} {e : ServerInput} {y y' : Noted n ω}
    {r : o.Reply} (h : (wakeWatcher cfg n ω).machine.exec (t, o) e y = some (r, y')) :
    Server.perform cfg o e y.1 = some (r, y'.1) ∧ y'.2 = y.2.note t o y.1 r y'.1 := by
  obtain ⟨⟨r', s'⟩, hx, heq⟩ := Option.map_eq_some_iff.1 h
  obtain ⟨rfl, rfl⟩ := Prod.mk.inj heq
  exact ⟨perform_of_exec hx, rfl⟩

/-- Every slot is covered when `select` is called. -/
def coverContract (cfg : CleanupConfig) (n : Nat) (ω : Type) [DecidableEq ω] :
    Contract (wakeWatcher cfg n ω).machine where
  allows _ _ _ := True
  rely _ := Wakes
  pre (x : Thread ω × ServerCall n) y := ∀ reads writes, x.2 = .select reads writes →
    Covered [] writes y

theorem wakes_of_look {o : ServerCall n} {r : o.Reply} {y y' : Noted n ω} (hsame : y'.1 = y.1)
    (hnote : y'.2 = y.2.note .network o y.1 r y'.1) : Wakes y y' := by
  constructor
  · intro i
    rw [hsame]
  · intro i hw
    rw [hsame] at hw
    exact .inl hw
  · intro i hex
    obtain hpos | ⟨w, hby, how⟩ := hex
    · exact .inl (by rwa [hsame])
    · refine .inr ⟨w, ?_, ?_⟩
      · rw [hnote, hsame]
        exact (if_neg fun h => h.1 h.2).trans hby
      · rw [hnote]
        rwa [WakeLog.owing_other (by simp)]

/-- The rule for a look at a slot, which changes nothing. -/
theorem cover_look {α : Type} {Q : Except ServerError α → Noted n ω → Prop} {o : ServerCall n}
    (ho : o.populates = true) {f : o.Reply → ServerM cfg n α} {y : Noted n ω}
    (A : Noted n ω → Prop) (hs : Stable Wakes A) (h : A y)
    (hk : ∀ (y : Noted n ω) r, A y → Server.perform cfg o .quiet y.1 = some (r, y.1) →
      Safe (coverContract cfg n ω) Q ((wakeWatcher cfg n ω).tag .network (f r).run) y) :
    Safe (coverContract cfg n ω) Q ((wakeWatcher cfg n ω).tag .network (call o >>= f).run) y := by
  apply Safe.call A hs h
  · intro y _ reads writes heq
    change o = .select reads writes at heq
    rw [heq] at ho
    cases ho
  · intro y e r y' ha _ he
    obtain ⟨hp, hnote⟩ := watched_exec he
    obtain ⟨hsame, hagain⟩ := perform_look ho hp
    apply hk y' r (hs y y' ha (wakes_of_look hsame hnote))
    rwa [hsame]

/-- A program that does not call `select`. -/
theorem safe_without_select {α : Type} {p : Prog (serverMachine cfg n) α}
    (hp : p.Uses fun o : ServerCall n => o.selects = false) {y : Noted n ω} :
    Safe (coverContract cfg n ω) (fun _ _ => True) ((wakeWatcher cfg n ω).tag .network p) y := by
  refine Safe.of_uses (fun _ => True) ((wakeWatcher cfg n ω).uses_tag hp) ?_ trivial ?_ ?_
  · intro _ _ _ _ _
    trivial
  · intro x y hx _ reads writes heq
    have hno := hx.2
    rw [heq] at hno
    cases hno
  · intro _ _ _ _ _ _ _ _ _
    trivial

/-- The sets that `populate_socket_sets` returns cover all slots. -/
theorem populateSocketSets_covers (rest : List (Fin n)) (reads writes : List Int) {y : Noted n ω}
    (h : Covered rest writes y) :
    Safe (coverContract cfg n ω)
      (fun x y => ∃ reads writes, x = .ok (reads, writes) ∧ Covered [] writes y)
      ((wakeWatcher cfg n ω).tag .network (populateSocketSets rest reads writes).run) y := by
  induction rest generalizing reads writes y with
  | nil => exact .ret (Covered [] writes) (stable_covered _ _) h fun y hy => ⟨reads, writes, rfl, hy⟩
  | cons i rest ih =>
    apply cover_look rfl (Covered (i :: rest) writes) (stable_covered _ _) h
    intro y (fd : Int) hy hget
    have hfd : (y.1.slots i).fd = fd := (Prod.mk.inj (Option.some.inj hget)).1
    change Safe _ _ (Watcher.tag _ _ (ExceptT.run (if fd = 0 then _ else _))) y
    split
    · next hzero => exact ih reads writes (hy.skip fun hne => absurd (hfd.trans hzero) hne)
    · -- The descriptor stays what it is while the two questions are asked.
      have hstable : Stable Wakes fun y : Noted n ω =>
          Covered (i :: rest) writes y ∧ (y.1.slots i).fd = fd := by
        intro y y' h hy
        exact ⟨stable_covered _ _ y y' h.1 hy, (hy.fd i).trans h.2⟩
      apply cover_look rfl _ hstable ⟨hy, hfd⟩
      intro y readable hy hread
      have hread' : decide ((y.1.slots i).status = .readable) = readable :=
        (Prod.mk.inj (Option.some.inj hread)).1
      cases readable with
      | true =>
        apply ih
        apply hy.1.skip
        intro _ (hw : _ = _)
        rw [of_decide_eq_true hread'] at hw
        cases hw
      | false =>
        apply cover_look rfl _ hstable hy
        intro y writable hy hwrite
        have hwrite' : decide ((y.1.slots i).status = .writable) = writable :=
          (Prod.mk.inj (Option.some.inj hwrite)).1
        cases writable with
        | true =>
          apply ih
          have hoffer := hy.1.offer
          rwa [hy.2] at hoffer
        | false => exact ih reads writes (hy.1.skip fun _ => of_decide_eq_false hwrite')

theorem selects_of_answers {o : ServerCall n} (h : o.answers = true) : o.selects = false := by
  cases o with
  | select => cases h
  | _ => rfl

theorem selects_of_flushes {o : ServerCall n} (h : o.flushes = true) : o.selects = false := by
  cases o with
  | select => cases h
  | _ => rfl

/-- What the loop does once `select` has returned. -/
theorem handleReadyEvents_uses (sets : ReadySets) (slots : List (Fin n)) :
    (handleReadyEvents parse sets slots : ServerM cfg n Unit).run.Uses
      (fun o : ServerCall n => o.selects = false) := by
  induction slots with
  | nil => trivial
  | cons i rest ih =>
    refine Prog.Uses.except_bind ⟨rfl, ?_⟩ fun _ => ih
    intro (clientSocket : Int)
    change Prog.Uses _ (ExceptT.run (if clientSocket = 0 then _ else _))
    split
    · trivial
    · split
      · exact (handleReadEvent_uses i).mono fun _ ho => selects_of_answers ho
      · split
        · exact (handleWriteEvent_uses i).mono fun _ ho => selects_of_flushes ho
        · trivial

theorem selects_of_registers {o : ServerCall n} (h : o.registers = true) : o.selects = false := by
  cases o with
  | select => cases h
  | _ => rfl

/-- One round: the sets cover all slots when `select` is called, and it is called once. -/
theorem eventRound_covered (y : Noted n ω) :
    Safe (coverContract cfg n ω) (fun _ _ => True)
      ((wakeWatcher cfg n ω).tag .network (eventRound parse).run) y := by
  have hall : Covered (List.finRange n) [] y := fun i hi => absurd (List.mem_finRange i) hi
  unfold eventRound
  rw [ExceptT.run_bind, Prog.bind_eq, Watcher.tag_bind]
  apply Safe.bind
  apply (populateSocketSets_covers (List.finRange n) [] [] hall).mono
  rintro x y ⟨reads, writes, rfl, hy⟩
  apply Safe.call _ (stable_covered _ _) (hy.below reads)
  · intro y hy reads' writes' heq
    obtain ⟨-, rfl⟩ := ServerCall.select.inj heq
    exact hy
  · intro y e selected y' _ _ _
    apply safe_without_select
    cases selected with
    | error errno => trivial
    | ok sets =>
      have hdrain : (drainWakeFd sets : ServerM cfg n Unit).run.Uses
          (fun o : ServerCall n => o.selects = false) := by
        unfold drainWakeFd
        split
        · exact ⟨rfl, fun _ => trivial⟩
        · trivial
      refine Prog.Uses.except_bind hdrain fun _ => ?_
      have haccept : (acceptClient sets : ServerM cfg n Unit).run.Uses
          (fun o : ServerCall n => o.selects = false) :=
        (acceptClient_uses sets).mono fun _ ho => selects_of_registers ho
      refine Prog.Uses.except_bind haccept fun _ => ?_
      exact Prog.Uses.except_bind (handleReadyEvents_uses sets _) fun _ => trivial

theorem networkRound_covered (y : Noted n ω) :
    Safe (coverContract cfg n ω) (fun _ _ => True)
      ((wakeWatcher cfg n ω).tag .network (networkRound parse)) y := by
  unfold networkRound
  rw [Prog.bind_eq, Watcher.tag_bind]
  apply Safe.bind
  apply (eventRound_covered y).mono
  intro x y _
  apply safe_without_select
  have hstop : (stopPool >>= fun _ => pure false : Prog (serverMachine cfg n) Bool).Uses
      (fun o : ServerCall n => o.selects = false) := by
    refine ⟨rfl, ?_⟩
    intro first
    cases first with
    | true => exact ⟨rfl, fun _ => trivial⟩
    | false => trivial
  cases x with
  | error e => exact hstop
  | ok going =>
    cases going with
    | true => trivial
    | false => exact hstop

end Network

section Workers

theorem wakesNext_keepsSlots {o : ServerCall n} (ho : o.keepsSlots = true) (r : o.Reply)
    (next : Option (ServerCall n)) : WakesNext o r next := by
  intro hd
  cases o with
  | setPendingResponseIfSession => cases ho
  | _ => cases hd

theorem wakes_call {α : Type} {o : ServerCall n} (ho : o.keepsSlots = true)
    {k : o.Reply → Prog (serverMachine cfg n) α} (hk : ∀ r, (k r).Leads WakesNext) :
    Prog.Leads WakesNext (Prog.call (M := serverMachine cfg n) o k) :=
  fun r => ⟨wakesNext_keepsSlots ho r _, hk r⟩

theorem queueProtocolResponseForChannel_wakes (channel : Bytes) (message : Message) :
    (queueProtocolResponseForChannel channel message : ServerM cfg n Unit).run.Leads
      WakesNext := by
  apply wakes_call rfl
  intro deferred
  cases deferred with
  | true => trivial
  | false =>
    cases resolveReplyChannelForDelivery n channel with
    | none => trivial
    | some target =>
      intro queued
      cases queued with
      | true => exact ⟨fun _ => rfl, wakes_call rfl fun _ => trivial⟩
      | false => exact ⟨fun hd => Bool.noConfusion hd, trivial⟩

theorem notify_wakes (ticket : Nat) (task : SubmissionTask)
    {responder : SubmissionTask → ExceptT JsonError (Prog (serverMachine cfg n)) (Option Bytes)}
    (h : (responder task).run.Uses fun o : ServerCall n => o.keepsSlots = true) :
    (notify ticket task responder : ServerM cfg n Unit).run.Leads WakesNext := by
  apply wakes_call rfl
  intro poolStopping
  cases poolStopping with
  | true => trivial
  | false =>
    apply wakes_call rfl
    intro stopping
    cases stopping with
    | true => trivial
    | false =>
      have hresponder : (ExceptT.adapt ServerError.json (responder task) :
          ServerM cfg n (Option Bytes)).run.Leads WakesNext :=
        (h.adapt _).leads fun o r next ho => wakesNext_keepsSlots ho r next
      refine hresponder.except_bind wakesNext_patient ?_
      intro response
      cases response with
      | none => trivial
      | some body => exact queueProtocolResponseForChannel_wakes _ _

theorem workTask_wakes (env : JudgeEnv) (ticket : Nat) (task : SubmissionTask) :
    (workTask env ticket task : ServerM cfg n Unit).run.Leads WakesNext := by
  have hpersist : ∀ r, (persist task.submissionId r :
      ExceptT StdException (Prog (serverMachine cfg n)) Bool).run.Uses
        (fun o : ServerCall n => o.keepsSlots = true) := fun _ => ⟨rfl, fun _ => trivial⟩
  have hprocess := (processSubmission_uses hpersist env task.request).leads
    fun o r next ho => wakesNext_keepsSlots ho r next
  refine Prog.Leads.except_bind wakesNext_patient
    (notify_wakes ticket task ⟨rfl, fun _ => trivial⟩) fun _ => ?_
  refine Prog.Leads.except_bind wakesNext_patient ?_ fun _ =>
    notify_wakes ticket task ⟨rfl, fun _ => trivial⟩
  exact hprocess.bind wakesNext_patient fun _ => trivial

theorem threadBody_wakes (t : Thread ω) (ht : t ≠ .network) :
    (threadBody cfg n parse env ω t).Leads WakesNext := by
  cases t with
  | network => exact absurd rfl ht
  | worker w =>
    apply wakes_call rfl
    intro popped
    cases popped with
    | none => trivial
    | some taken =>
      refine (workTask_wakes _ _ _).bind wakesNext_patient ?_
      intro x
      cases x with
      | ok a => trivial
      | error e => exact wakes_call rfl fun _ => trivial
  | control =>
    apply wakes_call rfl
    intro first
    cases first with
    | true => exact wakes_call rfl fun _ => trivial
    | false => trivial

variable [DecidableEq ω]

/-- A thread calls `wake` when it owes it. -/
def owingContract (cfg : CleanupConfig) (n : Nat) (t : Thread ω) :
    Contract (wakeWatcher cfg n ω).machine where
  allows _ _ _ := True
  rely _ y y' := y'.2.owing t = y.2.owing t
  pre (x : Thread ω × ServerCall n) y := y.2.owing t = true → x.2 = .wake

theorem safe_of_wakesNext {t : Thread ω} {p : Prog (serverMachine cfg n) Bool}
    (hp : p.Leads WakesNext) {y : Noted n ω} (h : y.2.owing t = true → p.head = some .wake) :
    Safe (owingContract cfg n t) (fun _ y => y.2.owing t = false)
      ((wakeWatcher cfg n ω).tag t p) y := by
  induction p generalizing y with
  | ret a =>
    have hfree : y.2.owing t = false := by
      by_contra hne
      cases h (Bool.eq_true_of_not_eq_false hne)
    intro y' hrely
    have hstable : Stable ((owingContract cfg n t).rely none)
        fun y : Noted n ω => y.2.owing t = false := fun y y' hy hy' => hy'.trans hy
    exact hstable.many hfree hrely
  | call o k ih =>
    apply Safe.call (fun y : Noted n ω => y.2.owing t = true → o = .wake)
    · intro y y' hy hrely how
      exact hy (hrely.symm.trans how)
    · intro how
      exact Option.some.inj (h how)
    · intro y hy
      exact hy
    · intro y e r y' hy _ he
      obtain ⟨-, hnote⟩ := watched_exec he
      apply ih r (hp r).2
      intro how
      rw [hnote] at how
      obtain hd | ⟨hold, hnot⟩ := WakeLog.owing_cases how
      · exact (hp r).1 hd
      · exact absurd (hy hold) hnot

/-- A thread that owes `wake` is about to call it. -/
theorem head_of_owing {t : Thread ω} {p : Prog (serverMachine cfg n) Bool} {y : Noted n ω}
    (h : Safe (owingContract cfg n t) (fun _ y => y.2.owing t = false)
      ((wakeWatcher cfg n ω).tag t p) y) (how : y.2.owing t = true) :
    p.head = some ServerCall.wake := by
  cases p with
  | ret a => cases how.symm.trans h.post
  | call o k => exact congrArg some (h.pre how)

end Workers

section Runs

variable [DecidableEq ω]

def wakeContract (cfg : CleanupConfig) (n : Nat) : Thread ω → Contract (wakeWatcher cfg n ω).machine
  | .network => coverContract cfg n ω
  | t => owingContract cfg n t

def wakeRest : Thread ω → Bool → Noted n ω → Prop
  | .network, _, _ => True
  | t, _, y => y.2.owing t = false

theorem threadBody_safe (t : Thread ω) {a : Bool} {y : Noted n ω} (h : wakeRest t a y) :
    Safe (wakeContract cfg n t) (wakeRest t)
      ((wakeWatcher cfg n ω).tag t (threadBody cfg n parse env ω t)) y := by
  cases t with
  | network => exact networkRound_covered y
  | worker w =>
    apply safe_of_wakesNext (threadBody_wakes _ (by simp))
    intro how
    cases how.symm.trans h
  | control =>
    apply safe_of_wakesNext (threadBody_wakes _ (by simp))
    intro how
    cases how.symm.trans h

/-- Along every watched run the threads keep to their contracts. -/
theorem run_wakes {xs : List (Thread ω × ServerInput)} {c : ServerConfig cfg n ω}
    {log : WakeLog n ω}
    (h : (wakeWatcher cfg n ω).run (again cfg n parse env ω) (serverStart cfg n parse env ω) {} xs =
      some (c, log)) (t : Thread ω) :
    Safe (wakeContract cfg n t) (wakeRest t) ((wakeWatcher cfg n ω).tag t (c.thread t))
      (c.shared, log) := by
  have hreach := (wakeWatcher cfg n ω).reach_of_run h
  have hbody : ∀ t : Thread ω, ((wakeWatcher cfg n ω).tag t (threadBody cfg n parse env ω t)).Uses
      fun x : Thread ω × ServerCall n => x.1 = t ∧ callsOf t x.2 :=
    fun t => (wakeWatcher cfg n ω).uses_tag (threadBody_uses t)
  have hagain : ∀ (t : Thread ω) a p,
      (wakeWatcher cfg n ω).tagLoop (again cfg n parse env ω) t a = some p →
        p = (wakeWatcher cfg n ω).tag t (threadBody cfg n parse env ω t) := by
    intro t a p hp
    obtain ⟨q, hq, rfl⟩ := Option.map_eq_some_iff.1 hp
    rw [(again_eq_some hq).2]
  refine Reach.safe (wakeContract cfg n) wakeRest ?_ ?_ ?_ hreach t
  · intro t
    apply threadBody_safe t (a := true)
    cases t <;> trivial
  · intro t a p y hp hrest
    rw [hagain t a p hp]
    exact threadBody_safe t hrest
  · intro c t e x k r y' hc _ hk hpre he
    have hcalls := Reach.uses hbody (fun t a p hp => hagain t a p hp ▸ hbody t) hc t
    rw [hk] at hcalls
    obtain ⟨⟨hname, ho⟩, -⟩ := hcalls
    obtain ⟨u, o⟩ := x
    obtain rfl : u = t := hname
    obtain ⟨hp, hnote⟩ := watched_exec he
    have hallows : (wakeContract cfg n u).allows (u, o) e c.shared := by
      cases u <;> trivial
    apply And.intro hallows
    intro v hv
    have howing : y'.2.owing v = c.shared.2.owing v := by
      rw [hnote]
      exact WakeLog.owing_other hv o _ r _ _
    cases v with
    | worker w => exact howing
    | control => exact howing
    | network =>
      have hne : u ≠ .network := Ne.symm hv
      have howes : c.shared.2.owing u = true → o = .wake := by
        cases u with
        | network => exact absurd rfl hne
        | worker w => exact hpre
        | control => exact hpre
      have hwakes := wakes_of_worker hne ho howes hp
      rw [← hnote] at hwakes
      exact hwakes

/-- A client that is given a slot has a descriptor below `FD_SETSIZE`. -/
def FitsFdSet (c : ServerConfig cfg n ω) (t : Thread ω) (_ : ServerInput) : Prop :=
  ∀ fd, (c.thread t).head = some (ServerCall.acquireSlot fd) → c.shared.freeSlotIds ≠ [] →
    fd < fdSetSize

theorem zero_lt_fdSetSize : 0 < fdSetSize := by decide

theorem fits_of_perform {o : ServerCall n} {e : ServerInput} {s s' : Server n} {r : o.Reply}
    (h : ∀ i, (s.slots i).fd < fdSetSize)
    (ho : ∀ fd, o = .acquireSlot fd → s.freeSlotIds ≠ [] → fd < fdSetSize)
    (he : Server.perform cfg o e s = some (r, s')) (i : Fin n) : (s'.slots i).fd < fdSetSize := by
  cases hreg : o.ofRegistry with
  | false =>
    rw [(perform_keepsFds hreg he).2 i]
    exact h i
  | true =>
    cases perform_effect he with
    | quiet same =>
      rw [same.slots]
      exact h i
    | turnedAway => exact h i
    | opened fd _ _ j rest free =>
      by_cases hij : i = j
      · subst hij
        dsimp only
        rw [Function.update_self]
        refine ho fd rfl ?_
        rw [free]
        exact List.cons_ne_nil _ _
      · dsimp only
        rw [Function.update_of_ne hij]
        exact h i
    | closed j =>
      by_cases hij : i = j
      · subst hij
        dsimp only
        rw [Function.update_self]
        exact zero_lt_fdSetSize
      · dsimp only
        rw [Function.update_of_ne hij]
        exact h i
    | _ => cases hreg

/-- While every client fits, so does every slot. -/
theorem reach_fits {c : ServerConfig cfg n ω}
    (hr : Reach (again cfg n parse env ω) FitsFdSet (serverStart cfg n parse env ω) c)
    (i : Fin n) : (c.shared.slots i).fd < fdSetSize := by
  refine Reach.invariant (fun s => ∀ i, (s.slots i).fd < fdSetSize)
    (fun _ => zero_lt_fdSetSize) ?_ hr i
  intro c t e o k r s' _ hfits hk he hs
  refine fits_of_perform hs ?_ (perform_of_exec he)
  intro fd ho hfree
  exact hfits fd (ho ▸ congrArg Prog.head hk) hfree

/-- No wake-up is lost. In every run of clients that fit, with its notes: whenever the loop is
in `select`, a slot in use that is writable is in the write set, or the counter is positive, or
the worker that made it writable is about to call `wake`. -/
theorem no_lost_wakeup {xs : List (Thread ω × ServerInput)} {c : ServerConfig cfg n ω}
    (h : Trace (again cfg n parse env ω) FitsFdSet (serverStart cfg n parse env ω) xs c) :
    ∃ log, (wakeWatcher cfg n ω).run (again cfg n parse env ω) (serverStart cfg n parse env ω) {}
        xs = some (c, log) ∧
      ∀ reads writes, (c.thread .network).head = some (ServerCall.select reads writes) →
        ∀ i, (c.shared.slots i).fd ≠ 0 → (c.shared.slots i).status = .writable →
          (c.shared.slots i).fd ∈ writes ∨ 0 < c.shared.wakeCounter ∨
            ∃ w, log.madeBy i = some (.worker w) ∧
              (c.thread (.worker w)).head = some ServerCall.wake := by
  have hrun := run_of_trace h
  have hfits := reach_fits h.reach
  rw [← (wakeWatcher cfg n ω).run_fst _ {}] at hrun
  obtain ⟨⟨c, log⟩, hwatched, rfl⟩ := Option.map_eq_some_iff.1 hrun
  refine ⟨log, hwatched, ?_⟩
  intro reads writes hselect i hfd hw
  have hhead : ((wakeWatcher cfg n ω).tag .network (c.thread .network)).head =
      some (.network, ServerCall.select reads writes) :=
    (Watcher.tag_head _ _ _).trans (congrArg _ hselect)
  have hpre := (run_wakes hwatched .network).pre_head hhead
  obtain hmem | hpos | ⟨w, hby, how⟩ :=
    hpre reads writes rfl i List.not_mem_nil hfd (hfits i) hw
  · exact .inl hmem
  · exact .inr (.inl hpos)
  · exact .inr (.inr ⟨w, hby, head_of_owing (run_wakes hwatched (.worker w)) how⟩)

end Runs

section Sample

/-- The write set of a `select`. -/
def ServerCall.offered : ServerCall n → Option (List Int)
  | .select _ writes => some writes
  | _ => none

theorem select_of_offered {o : ServerCall n} {writes : List Int} (h : o.offered = some writes) :
    ∃ reads, o = .select reads writes := by
  cases o with
  | select reads writes' =>
    obtain rfl := Option.some.inj h
    exact ⟨reads, rfl⟩
  | _ => cases h

/-- The socket a call puts into a slot. -/
def ServerCall.accepts : ServerCall n → Option Int
  | .acquireSlot fd => some fd
  | _ => none

def fitsTest (c : ServerConfig {} 1 Unit) (t : Thread Unit) (_ : ServerInput) : Bool :=
  ((c.thread t).head.bind ServerCall.accepts).all (· < fdSetSize)

theorem fitsTest_fits (c : ServerConfig {} 1 Unit) (t : Thread Unit) (e : ServerInput)
    (h : fitsTest c t e = true) : FitsFdSet c t e := by
  intro fd hhead _
  rw [fitsTest, hhead] at h
  exact of_decide_eq_true h

/-- The loop is in `select` when the worker delivers the result. -/
def deliveringSchedule : Schedule :=
  connecting ++ submitting (frame submitText) ++ quietly .network 3 ++ flushing ++
    quietly .network 4 ++ judging ++ quietly (.worker ()) 2

/-- What the theorem says there: nothing is offered, and the worker is about to call `wake`. -/
theorem waking_worker_is_pending :
    ∃ c log reads, (wakeWatcher {} 1 Unit).run sampleAgain sampleServer {} deliveringSchedule =
        some (c, log) ∧
      (c.thread .network).head = some (ServerCall.select reads []) ∧
      (c.shared.slots 0).fd ≠ 0 ∧ (c.shared.slots 0).status = .writable ∧
      ∃ w, log.madeBy 0 = some (.worker w) ∧
        (c.thread (.worker w)).head = some ServerCall.wake := by
  have hrun : (runWhere sampleAgain fitsTest sampleServer deliveringSchedule).map
      (fun c => ((c.thread .network).head.bind ServerCall.offered,
        decide ((c.shared.slots 0).fd = 0),
        decide ((c.shared.slots 0).status = .writable ∧ c.shared.wakeCounter = 0))) =
      some (some [], false, true) := by decide +kernel
  obtain ⟨c, hc, hobs⟩ := Option.map_eq_some_iff.mp hrun
  simp only [Prod.mk.injEq, decide_eq_false_iff_not, decide_eq_true_eq] at hobs
  obtain ⟨hhead, hfd, hw, hzero⟩ := hobs
  obtain ⟨o, ho, hoffer⟩ := Option.bind_eq_some_iff.mp hhead
  obtain ⟨reads, rfl⟩ := select_of_offered hoffer
  obtain ⟨log, hlog, hsafe⟩ := no_lost_wakeup (trace_of_runWhere fitsTest_fits hc)
  obtain hmem | hpos | hworker := hsafe reads [] ho 0 hfd hw
  · exact absurd hmem List.not_mem_nil
  · omega
  · exact ⟨c, log, reads, hlog, ho, hfd, hw, hworker⟩

/-- The client is accepted on descriptor 1024. What lies beyond the read set makes the loop read
its request, in a round of the listening socket that accepts nobody. -/
def beyondSchedule : Schedule :=
  quietly .network 1 ++ [(.network, .select [] [] true), (.network, .accept (some 1024))] ++
    quietly .network 3 ++
  quietly .network 2 ++ [(.network, .select [1024] [] true), (.network, .accept none)] ++
    quietly .network 2 ++ [(.network, .read (.bytes (frame submitText)))] ++
    quietly .network 4 ++ storing .network 1 ++ quietly .network 2 ++ quietly .network 3 ++
  quietly .network 3

/-- The slot with the ack is writable, the loop is in `select` without it, and nobody is about
to wake it. -/
theorem ack_beyond_fd_set_is_lost :
    ∃ c reads, run sampleAgain sampleServer beyondSchedule = some c ∧
      (c.thread .network).head = some (ServerCall.select reads []) ∧
      (c.shared.slots 0).fd = 1024 ∧ (c.shared.slots 0).status = .writable ∧
      c.shared.wakeCounter = 0 ∧
      ∀ w, (c.thread (.worker w)).head ≠ some ServerCall.wake := by
  have hrun : (run sampleAgain sampleServer beyondSchedule).map
      (fun c => ((c.thread .network).head.bind ServerCall.offered,
        decide ((c.shared.slots 0).fd = 1024 ∧ (c.shared.slots 0).status = .writable ∧
          c.shared.wakeCounter = 0),
        (c.thread (.worker ())).head.map ServerCall.isWake)) =
      some (some [], true, some false) := by decide +kernel
  obtain ⟨c, hc, hobs⟩ := Option.map_eq_some_iff.mp hrun
  simp only [Prod.mk.injEq, decide_eq_true_eq] at hobs
  obtain ⟨hhead, ⟨hfd, hw, hzero⟩, hworker⟩ := hobs
  obtain ⟨o, ho, hoffer⟩ := Option.bind_eq_some_iff.mp hhead
  obtain ⟨reads, rfl⟩ := select_of_offered hoffer
  refine ⟨c, reads, hc, ho, hfd, hw, hzero, ?_⟩
  intro w hwake
  rw [hwake] at hworker
  cases hworker

end Sample

end JudgeServer.Network
