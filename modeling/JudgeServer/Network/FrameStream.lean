import JudgeServer.Network.ConnectionSlot

/-!
# Messages out of a byte stream

A connection's bytes arrive in pieces, one to a call of `read_message`. Whatever the
pieces are, the bodies returned and the bytes still in the input buffer are the stream:
nothing is lost, repeated or read across a frame's end. Two ways of cutting one stream
therefore return the same bodies, as far as both have come.
-/

namespace JudgeServer.Network

open JudgeServer.Lib.Framing

namespace ConnectionSlot

/-- `read_message` to its end, when `readFd` has appended a piece. -/
def receive (slot : ConnectionSlot) (piece : Bytes) : Option Bytes × ConnectionSlot :=
  let r := slot.readMessage (.bytes piece)
  match r.1.2 with
  | none => (none, r.2)
  | some messageBody => (some messageBody, r.2.setStatus .idle)

/-- The bodies returned by the calls for a list of pieces, and the slot after them. -/
def receiveAll (slot : ConnectionSlot) : List Bytes → List Bytes × ConnectionSlot
  | [] => ([], slot)
  | piece :: rest =>
      let r := slot.receive piece
      let q := r.2.receiveAll rest
      (r.1.toList ++ q.1, q.2)

variable {slot : ConnectionSlot} {piece : Bytes}

theorem receive_eq (hne : piece ≠ []) :
    (slot.receive piece).1 = (splitFrame (slot.unread ++ piece)).map Prod.fst ∧
    (slot.receive piece).2.unread =
      ((splitFrame (slot.unread ++ piece)).map Prod.snd).getD (slot.unread ++ piece) := by
  obtain ⟨hresult, hunread⟩ := slot.readMessage_bytes hne
  rw [receive, ← hunread, hresult]
  cases splitFrame (slot.unread ++ piece) with
  | none => exact ⟨rfl, rfl⟩
  | some split => exact ⟨rfl, rfl⟩

/-- A complete frame is taken off the front. -/
theorem receive_complete (hne : piece ≠ []) (h : HasFrame (slot.unread ++ piece)) :
    ∃ body, (slot.receive piece).1 = some body ∧ body.length < 2 ^ 32 ∧
      slot.unread ++ piece = frame body ++ (slot.receive piece).2.unread := by
  obtain ⟨hbody, hunread⟩ := receive_eq hne
  cases hsplit : splitFrame (slot.unread ++ piece) with
  | none => exact absurd h (splitFrame_eq_none.mp hsplit)
  | some split =>
    obtain ⟨body, rest⟩ := split
    rw [hsplit] at hbody hunread
    obtain ⟨hstream, hlen⟩ := frame_of_splitFrame hsplit
    exact ⟨body, hbody, hlen, by rw [hunread]; exact hstream⟩

/-- Without one the piece is kept for later. -/
theorem receive_incomplete (hne : piece ≠ []) (h : ¬ HasFrame (slot.unread ++ piece)) :
    (slot.receive piece).1 = none ∧ (slot.receive piece).2.unread = slot.unread ++ piece := by
  obtain ⟨hbody, hunread⟩ := receive_eq hne
  rw [splitFrame_eq_none.mpr h] at hbody hunread
  exact ⟨hbody, hunread⟩

/-- One call: what was unread and the piece are the body and what is unread now. -/
theorem receive_stream (slot : ConnectionSlot) (hne : piece ≠ []) :
    frames (slot.receive piece).1.toList ++ (slot.receive piece).2.unread = slot.unread ++ piece ∧
      ∀ body ∈ (slot.receive piece).1, body.length < 2 ^ 32 := by
  by_cases h : HasFrame (slot.unread ++ piece)
  · obtain ⟨body, hbody, hlen, hstream⟩ := receive_complete hne h
    rw [hbody, hstream]
    refine ⟨by rw [Option.toList_some, frames_singleton], ?_⟩
    intro b hb
    obtain rfl := Option.some.inj hb
    exact hlen
  · obtain ⟨hnone, hunread⟩ := receive_incomplete hne h
    rw [hnone, hunread]
    exact ⟨rfl, by simp⟩

theorem receiveAll_stream (slot : ConnectionSlot) {pieces : List Bytes}
    (hne : ∀ piece ∈ pieces, piece ≠ []) :
    frames (slot.receiveAll pieces).1 ++ (slot.receiveAll pieces).2.unread =
      slot.unread ++ pieces.flatten ∧
      ∀ body ∈ (slot.receiveAll pieces).1, body.length < 2 ^ 32 := by
  induction pieces generalizing slot with
  | nil => exact ⟨by simp [receiveAll, frames], by simp [receiveAll]⟩
  | cons piece rest ih =>
    obtain ⟨hfirst, hshort⟩ := slot.receive_stream (hne piece List.mem_cons_self)
    obtain ⟨hrest, hshorts⟩ := ih (slot.receive piece).2 fun p hp => hne p (List.mem_cons_of_mem _ hp)
    rw [receiveAll]
    constructor
    · show frames (_ ++ _) ++ ((slot.receive piece).2.receiveAll rest).2.unread = _
      rw [frames_append, List.append_assoc, hrest, ← List.append_assoc, hfirst, List.flatten_cons,
        List.append_assoc]
    · intro body hbody
      rcases List.mem_append.mp hbody with hbody | hbody
      · exact hshort body (Option.mem_toList.mp hbody)
      · exact hshorts body hbody

theorem unread_init (slot : ConnectionSlot) (fd : Int) (sessionId : Nat) :
    (slot.init fd sessionId).unread = [] :=
  slot.inputBuffer.readable_retrieveAll

end ConnectionSlot

/-- For every connection, whatever its slot was used for before, and every sequence of
non-empty pieces: the bodies returned so far, framed again, and the unread bytes are all
that was received. The next call returns a body exactly when a complete frame is there,
and keeps every byte otherwise. Another cutting of the same stream returns the same
bodies as far as both have come. -/
theorem decoding_ignores_chunking {slot now : ConnectionSlot} {fd : Int} {sessionId : Nat}
    {pieces bodies : List Bytes} (hne : ∀ piece ∈ pieces, piece ≠ [])
    (h : (slot.init fd sessionId).receiveAll pieces = (bodies, now)) :
    frames bodies ++ now.unread = pieces.flatten ∧ (∀ body ∈ bodies, body.length < 2 ^ 32) ∧
    (∀ piece, piece ≠ [] →
      (HasFrame (now.unread ++ piece) → ∃ body, (now.receive piece).1 = some body ∧
        now.unread ++ piece = frame body ++ (now.receive piece).2.unread) ∧
      (¬ HasFrame (now.unread ++ piece) → (now.receive piece).1 = none ∧
        (now.receive piece).2.unread = now.unread ++ piece)) ∧
    ∀ (slot' now' : ConnectionSlot) (pieces' bodies' : List Bytes),
      (∀ piece ∈ pieces', piece ≠ []) → pieces'.flatten = pieces.flatten →
      (slot'.init fd sessionId).receiveAll pieces' = (bodies', now') →
      bodies <+: bodies' ∨ bodies' <+: bodies := by
  have hall : ∀ {slot now : ConnectionSlot} {pieces bodies : List Bytes},
      (∀ piece ∈ pieces, piece ≠ []) →
      (slot.init fd sessionId).receiveAll pieces = (bodies, now) →
      frames bodies ++ now.unread = pieces.flatten ∧ ∀ body ∈ bodies, body.length < 2 ^ 32 := by
    intro slot now pieces bodies hne h
    have hstream := (slot.init fd sessionId).receiveAll_stream hne
    rwa [h, slot.unread_init, List.nil_append] at hstream
  obtain ⟨hstream, hshort⟩ := hall hne h
  refine ⟨hstream, hshort, ?_, ?_⟩
  · intro piece hpiece
    constructor
    · intro hframe
      obtain ⟨body, hbody, -, hsplit⟩ := ConnectionSlot.receive_complete hpiece hframe
      exact ⟨body, hbody, hsplit⟩
    · exact ConnectionSlot.receive_incomplete hpiece
  · intro slot' now' pieces' bodies' hne' hsame h'
    obtain ⟨hstream', hshort'⟩ := hall hne' h'
    exact frames_comparable hshort hshort' (hstream.trans (hsame.symm.trans hstream'.symm))

/-- An empty body and a split header. -/
def splitPieces : List Bytes := [[0, 0], [0, 0, 0], [0, 0, 1, 65]]

theorem decoding_ignores_chunking_split :
    ∃ now, (({} : ConnectionSlot).init 5 1).receiveAll splitPieces = ([[], [65]], now) ∧
      now.unread = [] := by
  have hbodies : ((({} : ConnectionSlot).init 5 1).receiveAll splitPieces).1 = [[], [65]] := by
    decide +kernel
  generalize hrun : (({} : ConnectionSlot).init 5 1).receiveAll splitPieces = r at hbodies
  obtain ⟨bodies, now⟩ := r
  obtain rfl : bodies = [[], [65]] := hbodies
  obtain ⟨hstream, -⟩ := decoding_ignores_chunking (by decide) hrun
  refine ⟨now, rfl, ?_⟩
  have hlength := congrArg List.length hstream
  rw [List.length_append] at hlength
  exact List.length_eq_zero_iff.mp (Nat.add_left_cancel hlength)

end JudgeServer.Network
