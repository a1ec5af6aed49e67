import JudgeServer.Network.EventLoop

/-!
# Connections and the slots they hold

Connections are numbered in the order of registration, `0` standing for none. A session
id is the number modulo `2 ^ 64`. `PerConnection` is the shape of an invariant that
follows each connection through the slot it holds and, after that, through the trace.
-/

namespace JudgeServer.Network

open JudgeServer.Common
open JudgeServer.Dispatch
open JudgeServer.Lib.Interleave
open JudgeServer.Pipeline

variable {cfg : CleanupConfig} {n : Nat}

/-- The connection an entry of the trace is about. -/
def Event.conn : Event → Nat
  | .received c _ _ _ => c
  | .handled c _ => c
  | .submitted _ c _ => c
  | .released _ => 0
  | .appended c _ => c
  | .sent c _ => c

structure Connections (s : Server n) : Prop where
  bound : ∀ i, s.conn i ≤ s.accepted
  used : ∀ i, (s.slots i).fd ≠ 0 → s.conn i ≠ 0
  unique : ∀ i j, s.conn i = s.conn j → s.conn i ≠ 0 → i = j
  session : ∀ i, (s.slots i).sessionId = s.conn i % 2 ^ 64
  next : s.nextSessionId = (s.accepted + 1) % 2 ^ 64
  past : ∀ e ∈ s.trace, e.conn ≤ s.accepted

theorem connections_start : Connections ({} : Server n) where
  bound _ := Nat.le_refl 0
  used _ h := absurd rfl h
  unique _ _ _ h := absurd rfl h
  session _ := rfl
  next := rfl
  past := by simp

section Steps

variable {s s' : Server n}

/-- Steps that neither open nor close a connection. -/
theorem Connections.same (h : Connections s) (hconn : s'.conn = s.conn)
    (hacc : s'.accepted = s.accepted) (hnext : s'.nextSessionId = s.nextSessionId)
    (hfd : ∀ i, (s'.slots i).fd = (s.slots i).fd)
    (hsession : ∀ i, (s'.slots i).sessionId = (s.slots i).sessionId)
    (htrace : ∀ e ∈ s'.trace, e ∈ s.trace ∨ e.conn = 0 ∨ ∃ i, e.conn = s.conn i) :
    Connections s' where
  bound i := by rw [hconn, hacc]; exact h.bound i
  used i hi := by
    rw [hfd] at hi
    rw [hconn]
    exact h.used i hi
  unique i j := by rw [hconn]; exact h.unique i j
  session i := by rw [hsession, hconn]; exact h.session i
  next := by rw [hnext, hacc]; exact h.next
  past e he := by
    rw [hacc]
    rcases htrace e he with hm | hz | ⟨i, hi⟩
    · exact h.past e hm
    · omega
    · have hb := h.bound i
      omega

/-- A function of one slot, after an update that does not change it. -/
theorem slot_update_eq {β : Type} {i : Fin n} {slot : ConnectionSlot} {f : ConnectionSlot → β}
    (h : f slot = f (s.slots i)) (j : Fin n) :
    f (Function.update s.slots i slot j) = f (s.slots j) := by
  by_cases hj : j = i
  · subst hj
    rw [Function.update_self, h]
  · rw [Function.update_of_ne hj]

theorem conn_opened {s : Server n} {i : Fin n} {c : Nat} (j : Fin n) :
    (j = i ∧ Function.update s.conn i c j = c) ∨
      (j ≠ i ∧ Function.update s.conn i c j = s.conn j) := by
  by_cases hj : j = i
  · subst hj
    exact .inl ⟨rfl, Function.update_self _ _ _⟩
  · exact .inr ⟨hj, Function.update_of_ne hj _ _⟩

/-- Steps that give a slot another connection, or none: the new number is one no other slot
holds. -/
theorem Connections.replaced (h : Connections s) {i : Fin n} {slot : ConnectionSlot} {c : Nat}
    (hslots : s'.slots = Function.update s.slots i slot)
    (hconn : s'.conn = Function.update s.conn i c) (htrace : s'.trace = s.trace)
    (hacc : s.accepted ≤ s'.accepted) (hc : c ≤ s'.accepted) (hfresh : c = 0 ∨ s.accepted < c)
    (hused : slot.fd ≠ 0 → c ≠ 0) (hsession : slot.sessionId = c % 2 ^ 64)
    (hnext : s'.nextSessionId = (s'.accepted + 1) % 2 ^ 64) : Connections s' where
  bound j := by
    have hb := h.bound j
    rw [hconn]
    rcases conn_opened (s := s) (i := i) (c := c) j with ⟨_, hj⟩ | ⟨_, hj⟩ <;> omega
  used j hj := by
    rw [hslots] at hj
    rw [hconn]
    by_cases hji : j = i
    · subst hji
      rw [Function.update_self] at hj ⊢
      exact hused hj
    · rw [Function.update_of_ne hji] at hj ⊢
      exact h.used j hj
  unique j k hjk hj := by
    rw [hconn] at hjk hj
    have hbj := h.bound j
    have hbk := h.bound k
    rcases conn_opened (s := s) (i := i) (c := c) j with ⟨hji, he⟩ | ⟨hji, he⟩ <;>
      rcases conn_opened (s := s) (i := i) (c := c) k with ⟨hki, hf⟩ | ⟨hki, hf⟩
    · rw [hji, hki]
    · omega
    · omega
    · exact h.unique j k (by omega) (by omega)
  session j := by
    rw [hslots, hconn]
    by_cases hji : j = i
    · subst hji
      rw [Function.update_self, Function.update_self]
      exact hsession
    · rw [Function.update_of_ne hji, Function.update_of_ne hji]
      exact h.session j
  next := hnext
  past e he := by
    rw [htrace] at he
    exact Nat.le_trans (h.past e he) hacc

theorem consume_rest (slot : ConnectionSlot) (bytes : Nat) :
    ∃ pending offset, (slot.consumePendingResponse bytes).2 =
      { slot with pendingResponse := pending, pendingWriteOffset := offset } := by
  unfold ConnectionSlot.consumePendingResponse
  split
  · exact ⟨_, _, rfl⟩
  · exact ⟨_, _, rfl⟩

/-- Reading: the slot's input buffer, and one entry for the piece received. -/
theorem readMessage_cases (s : Server n) (i : Fin n) (outcome : ReadOutcome) :
    (∃ errno, outcome = .failed errno ∧ (s.readMessage i outcome).2 = s.setSlot i (s.slots i)) ∨
    ∃ chunk, outcome = .bytes chunk ∧ (s.readMessage i outcome).2 =
      (s.setSlot i ((s.slots i).readMessage (.bytes chunk)).2).record
        (.received (s.conn i) chunk ((s.slots i).readMessage (.bytes chunk)).1.1
          ((s.slots i).readMessage (.bytes chunk)).1.2) := by
  cases outcome with
  | failed errno => exact .inl ⟨errno, rfl, rfl⟩
  | bytes chunk => exact .inr ⟨chunk, rfl, rfl⟩

theorem Connections.effect {o : ServerCall n} {e : ServerInput} (h : Connections s)
    (he : Effect o e s s') : Connections s' := by
  have hnew : ∀ {e : Event} {i : Fin n}, e.conn = s.conn i → ∀ x ∈ s.trace ++ [e],
      x ∈ s.trace ∨ x.conn = 0 ∨ ∃ i, x.conn = s.conn i := by
    intro e i hi x hx
    rcases List.mem_append.mp hx with hm | hm
    · exact .inl hm
    · obtain rfl := List.mem_singleton.mp hm
      exact .inr (.inr ⟨i, hi⟩)
  have hcount : (s.nextSessionId + 1) % 2 ^ 64 = (s.accepted + 1 + 1) % 2 ^ 64 := by
    rw [h.next]
    omega
  cases he with
  | quiet same =>
    refine h.same same.conn same.accepted same.nextSessionId ?_ ?_ ?_
    · intro i
      rw [same.slots]
    · intro i
      rw [same.slots]
    · intro x hx
      rw [same.trace] at hx
      exact .inl hx
  | turnedAway fd =>
    exact ⟨fun i => Nat.le_succ_of_le (h.bound i), h.used, h.unique, h.session, hcount,
      fun e he => Nat.le_succ_of_le (h.past e he)⟩
  | opened fd _ _ i rest free =>
    exact h.replaced rfl rfl rfl (Nat.le_succ _) (Nat.le_refl _) (.inr (Nat.lt_succ_self _))
      (fun _ => Nat.succ_ne_zero _) h.next hcount
  | closed i _ _ used =>
    exact h.replaced rfl rfl rfl (Nat.le_refl _) (Nat.zero_le _) (.inl rfl)
      (fun hfd => absurd rfl hfd) rfl h.next
  | read i outcome =>
    rcases readMessage_cases s i outcome with ⟨errno, rfl, hs⟩ | ⟨chunk, rfl, hs⟩
    · rw [hs]
      exact h.same rfl rfl rfl (slot_update_eq rfl) (slot_update_eq rfl) fun e he => .inl he
    · rw [hs]
      obtain ⟨b, hb⟩ := (s.slots i).readMessage_rest (.bytes chunk)
      refine h.same rfl rfl rfl (slot_update_eq ?_) (slot_update_eq ?_) (hnew rfl)
      · rw [hb]
      · rw [hb]
  | status i status =>
    exact h.same rfl rfl rfl (slot_update_eq rfl) (slot_update_eq rfl) fun e he => .inl he
  | handled | sent => exact h.same rfl rfl rfl (fun _ => rfl) (fun _ => rfl) (hnew rfl)
  | consumed i bytes =>
    obtain ⟨pending, offset, hr⟩ := consume_rest (s.slots i) bytes
    refine h.same rfl rfl rfl (slot_update_eq ?_) (slot_update_eq ?_) fun e he => .inl he
    · rw [hr]
    · rw [hr]
  | appended i message =>
    exact h.same rfl rfl rfl (slot_update_eq rfl) (slot_update_eq rfl) (hnew rfl)
  | delivered i sessionId message =>
    exact h.same rfl rfl rfl (slot_update_eq rfl) (slot_update_eq rfl) (hnew rfl)
  | released channel =>
    refine h.same rfl rfl rfl (fun _ => rfl) (fun _ => rfl) ?_
    intro e he
    rcases List.mem_append.mp he with hm | hm
    · exact .inl hm
    · obtain rfl := List.mem_singleton.mp hm
      exact .inr (.inl rfl)
  | pushed i task => exact h.same rfl rfl rfl (fun _ => rfl) (fun _ => rfl) (hnew rfl)
  | marked | deferred | popped =>
    exact h.same rfl rfl rfl (fun _ => rfl) (fun _ => rfl) fun e he => .inl he

end Steps

section PerConnection

variable {γ : Type} {view : Server n → Fin n → γ} {P : Nat → List Event → γ → Prop}

/-- Each connection has a value that satisfies `P` along the trace; while it holds a slot,
the value is what the slot shows. -/
def PerConnection (view : Server n → Fin n → γ) (P : Nat → List Event → γ → Prop)
    (s : Server n) : Prop :=
  ∀ c, c ≠ 0 → ∃ x, P c s.trace x ∧ ∀ i, s.conn i = c → view s i = x

variable {s s' : Server n}

theorem PerConnection.at_slot (h : PerConnection view P s) {i : Fin n} (hi : s.conn i ≠ 0) :
    P (s.conn i) s.trace (view s i) := by
  obtain ⟨x, hx, hat⟩ := h (s.conn i) hi
  rw [hat i rfl]
  exact hx

theorem PerConnection.same (h : PerConnection view P s) (hconn : s'.conn = s.conn)
    (hview : ∀ i, view s' i = view s i)
    (hP : ∀ c x, c ≠ 0 → P c s.trace x → P c s'.trace x) : PerConnection view P s' := by
  intro c hc
  obtain ⟨x, hx, hat⟩ := h c hc
  refine ⟨x, hP c x hc hx, ?_⟩
  intro i hi
  rw [hview]
  rw [hconn] at hi
  exact hat i hi

/-- One connection moves, in the slot it holds. -/
theorem PerConnection.moved {P' : Nat → List Event → γ → Prop} (hc : Connections s)
    (h : PerConnection view P s) {i : Fin n} (hconn : s'.conn = s.conn)
    (hview : ∀ j, j ≠ i → view s' j = view s j)
    (hP : ∀ c x, c ≠ 0 → c ≠ s.conn i → P c s.trace x → P' c s'.trace x)
    (hi : s.conn i ≠ 0 → P (s.conn i) s.trace (view s i) → P' (s.conn i) s'.trace (view s' i)) :
    PerConnection view P' s' := by
  intro c hne
  by_cases hci : c = s.conn i
  · subst hci
    refine ⟨view s' i, hi hne (h.at_slot hne), ?_⟩
    intro j hj
    rw [hconn] at hj
    rw [hc.unique j i hj (hj ▸ hne)]
  · obtain ⟨x, hx, hat⟩ := h c hne
    refine ⟨x, hP c x hne hci hx, ?_⟩
    intro j hj
    rw [hconn] at hj
    have hji : j ≠ i := by
      rintro rfl
      exact hci hj.symm
    rw [hview j hji]
    exact hat j hj

/-- A slot changes hands: to no connection, or to one that is new. -/
theorem PerConnection.handed (hc : Connections s) (h : PerConnection view P s) {i : Fin n} {c : Nat}
    (hconn : s'.conn = Function.update s.conn i c) (hview : ∀ j, j ≠ i → view s' j = view s j)
    (ht : s'.trace = s.trace) (hnew : c ≠ 0 → s.accepted < c ∧ P c s.trace (view s' i)) :
    PerConnection view P s' := by
  have hother : ∀ j, j ≠ i → s'.conn j = s.conn j := by
    intro j hj
    rw [hconn, Function.update_of_ne hj]
  have hself : s'.conn i = c := by rw [hconn, Function.update_self]
  intro d hd
  rw [ht]
  by_cases hdc : d = c
  · subst hdc
    obtain ⟨hlt, hp⟩ := hnew hd
    refine ⟨view s' i, hp, ?_⟩
    intro j hj
    by_cases hji : j = i
    · rw [hji]
    · have hb := hc.bound j
      rw [hother j hji] at hj
      omega
  · obtain ⟨x, hx, hat⟩ := h d hd
    refine ⟨x, hx, ?_⟩
    intro j hj
    have hji : j ≠ i := by
      rintro rfl
      exact hdc (hj.symm.trans hself)
    rw [hview j hji]
    exact hat j (by rw [← hother j hji]; exact hj)

end PerConnection

end JudgeServer.Network
