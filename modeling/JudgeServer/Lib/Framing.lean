import Mathlib.Algebra.Group.Nat.Defs
import Mathlib.Data.List.Basic

/-!
# Length-prefixed frames

A frame is a four-byte big-endian length followed by that many bytes. `splitFrame`
takes a complete frame off the front of a stream. A stream determines the frames it is
made of, as long as every body is shorter than `2 ^ 32` bytes.
-/

namespace JudgeServer.Lib.Framing

/-- The four bytes of `htonl` of a 32-bit length. -/
def header (n : Nat) : List UInt8 :=
  [(n / 2 ^ 24 % 256).toUInt8, (n / 2 ^ 16 % 256).toUInt8, (n / 2 ^ 8 % 256).toUInt8,
   (n % 256).toUInt8]

/-- `ntohl` of the first four bytes. -/
def headerValue : List UInt8 → Nat
  | a :: b :: c :: d :: _ => a.toNat * 2 ^ 24 + b.toNat * 2 ^ 16 + c.toNat * 2 ^ 8 + d.toNat
  | _ => 0

def frame (body : List UInt8) : List UInt8 := header body.length ++ body

def frames (bodies : List (List UInt8)) : List UInt8 := bodies.flatMap frame

/-- The stream starts with a complete frame. -/
def HasFrame (s : List UInt8) : Prop := 4 ≤ s.length ∧ 4 + headerValue s ≤ s.length

instance (s : List UInt8) : Decidable (HasFrame s) := inferInstanceAs (Decidable (_ ∧ _))

def splitFrame (s : List UInt8) : Option (List UInt8 × List UInt8) :=
  if HasFrame s then
    some ((s.drop 4).take (headerValue s), s.drop (4 + headerValue s))
  else none

@[simp] theorem header_length (n : Nat) : (header n).length = 4 := rfl

theorem headerValue_header {n : Nat} (h : n < 2 ^ 32) (s : List UInt8) :
    headerValue (header n ++ s) = n := by
  have hbyte : ∀ m : Nat, (m % 256).toUInt8.toNat = m % 256 := by
    intro m
    rw [Nat.toUInt8_eq, UInt8.toNat_ofNat_of_lt' (Nat.mod_lt m (by decide))]
  simp only [header, List.cons_append, headerValue, hbyte]
  omega

theorem headerValue_lt (s : List UInt8) : headerValue s < 2 ^ 32 := by
  match s with
  | [] => exact Nat.two_pow_pos 32
  | [_] => exact Nat.two_pow_pos 32
  | [_, _] => exact Nat.two_pow_pos 32
  | [_, _, _] => exact Nat.two_pow_pos 32
  | a :: b :: c :: d :: _ =>
    have ha := a.toNat_lt
    have hb := b.toNat_lt
    have hc := c.toNat_lt
    have hd := d.toNat_lt
    simp only [headerValue]
    omega

/-- The header bytes are determined by the value they stand for. -/
theorem header_headerValue {s : List UInt8} (h : 4 ≤ s.length) : header (headerValue s) = s.take 4 := by
  match s with
  | [] => simp at h
  | [_] => simp at h
  | [_, _] => simp at h
  | [_, _, _] => simp at h
  | a :: b :: c :: d :: _ =>
    have ha := a.toNat_lt
    have hb := b.toNat_lt
    have hc := c.toNat_lt
    have hd := d.toNat_lt
    have hbyte : ∀ (m : Nat) (x : UInt8), m = x.toNat → m.toUInt8 = x := by
      intro m x hm
      rw [hm, Nat.toUInt8_eq, UInt8.ofNat_toNat]
    simp only [headerValue, header, List.take_succ_cons, List.take_zero, List.cons.injEq, and_true]
    refine ⟨hbyte _ a ?_, hbyte _ b ?_, hbyte _ c ?_, hbyte _ d ?_⟩ <;> omega

/-- A complete frame followed by anything splits there. -/
theorem splitFrame_frame {body : List UInt8} (h : body.length < 2 ^ 32) (s : List UInt8) :
    splitFrame (frame body ++ s) = some (body, s) := by
  have hv : headerValue (frame body ++ s) = body.length := by
    unfold frame
    rw [List.append_assoc, headerValue_header h]
  have hlen : (frame body ++ s).length = 4 + body.length + s.length := by
    simp [frame, Nat.add_assoc]
  have hdrop : (frame body ++ s).drop 4 = body ++ s := rfl
  unfold splitFrame
  rw [if_pos (by unfold HasFrame; rw [hv, hlen]; omega), hv, ← List.drop_drop, hdrop,
    List.take_left, List.drop_left]

/-- What is split off was a frame of the stream. -/
theorem frame_of_splitFrame {s body rest : List UInt8} (h : splitFrame s = some (body, rest)) :
    s = frame body ++ rest ∧ body.length < 2 ^ 32 := by
  unfold splitFrame at h
  split at h
  · next hf =>
    obtain ⟨hbody, hrest⟩ := Prod.mk.inj (Option.some.inj h)
    have hlen : body.length = headerValue s := by
      rw [← hbody, List.length_take, List.length_drop]
      have h2 := hf.2
      omega
    constructor
    · unfold frame
      rw [hlen, header_headerValue hf.1, ← hbody, ← hrest, ← List.drop_drop, List.append_assoc,
        List.take_append_drop, List.take_append_drop]
    · rw [hlen]
      exact headerValue_lt s
  · cases h

theorem splitFrame_eq_none {s : List UInt8} : splitFrame s = none ↔ ¬ HasFrame s := by
  unfold splitFrame
  split
  · next h => simp [h]
  · next h => simp [h]

theorem frames_append (a b : List (List UInt8)) : frames (a ++ b) = frames a ++ frames b :=
  List.flatMap_append

theorem frames_singleton (body : List UInt8) : frames [body] = frame body := by
  simp [frames]

theorem splitFrame_frames_cons {x : List UInt8} (hx : x.length < 2 ^ 32) (a : List (List UInt8))
    (r : List UInt8) : splitFrame (frames (x :: a) ++ r) = some (x, frames a ++ r) := by
  change splitFrame (frame x ++ frames a ++ r) = _
  rw [List.append_assoc]
  exact splitFrame_frame hx _

/-- A stream of frames ends where no further complete frame starts: two readings of
the same bytes that both end without a complete frame agree. -/
theorem frames_unique {a b : List (List UInt8)} {r : List UInt8}
    (ha : ∀ x ∈ a, x.length < 2 ^ 32) (hb : ∀ x ∈ b, x.length < 2 ^ 32)
    (h : frames a ++ r = frames b) (hr : ¬ HasFrame r) : a = b ∧ r = [] := by
  induction a generalizing b with
  | nil =>
    cases b with
    | nil => exact ⟨rfl, h⟩
    | cons y b =>
      exfalso
      apply hr
      have hs : splitFrame r = some (y, frames b) := by
        change [] ++ r = frame y ++ frames b at h
        rw [List.nil_append] at h
        rw [h]
        exact splitFrame_frame (hb y List.mem_cons_self) _
      by_contra hno
      rw [splitFrame_eq_none.mpr hno] at hs
      cases hs
  | cons x a ih =>
    have hx := splitFrame_frames_cons (ha x List.mem_cons_self) a r
    cases b with
    | nil =>
      rw [h] at hx
      cases hx
    | cons y b =>
      have hy : splitFrame (frames (y :: b)) = some (y, frames b) :=
        splitFrame_frame (hb y List.mem_cons_self) _
      rw [h, hy] at hx
      obtain ⟨rfl, htail⟩ := Prod.mk.inj (Option.some.inj hx)
      obtain ⟨rfl, hnil⟩ := ih (fun z hz => ha z (List.mem_cons_of_mem _ hz))
        (fun z hz => hb z (List.mem_cons_of_mem _ hz)) htail.symm
      exact ⟨rfl, hnil⟩

/-- Two readings of the same bytes agree as far as both have come. -/
theorem frames_comparable {a b : List (List UInt8)} {r t : List UInt8}
    (ha : ∀ x ∈ a, x.length < 2 ^ 32) (hb : ∀ x ∈ b, x.length < 2 ^ 32)
    (h : frames a ++ r = frames b ++ t) : a <+: b ∨ b <+: a := by
  induction a generalizing b with
  | nil => exact .inl List.nil_prefix
  | cons x a ih =>
    cases b with
    | nil => exact .inr List.nil_prefix
    | cons y b =>
      have hx := splitFrame_frames_cons (ha x List.mem_cons_self) a r
      have hy := splitFrame_frames_cons (hb y List.mem_cons_self) b t
      rw [h, hy] at hx
      obtain ⟨rfl, htail⟩ := Prod.mk.inj (Option.some.inj hx)
      rcases ih (fun z hz => ha z (List.mem_cons_of_mem _ hz))
        (fun z hz => hb z (List.mem_cons_of_mem _ hz)) htail.symm with hp | hp
      · exact .inl (List.prefix_cons_inj y |>.mpr hp)
      · exact .inr (List.prefix_cons_inj y |>.mpr hp)

end JudgeServer.Lib.Framing
