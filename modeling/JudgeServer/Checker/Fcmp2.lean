import JudgeServer.Common.SubmissionTypes
import Mathlib.Data.List.DropRight
import Mathlib.Logic.Function.Iterate

/-!
# The checker program

`checker/src/fcmp2.cpp` over the part of `testlib.h` it reads its files with. A stream is
the list of its bytes that are not read yet. The loop is followed line by line: `after s n`
is what is left of a stream after `n` lines, and `compareLines` is decided by the first
line that is not compared or differs.

Two things of the reader's buffer are left out: it holds `char`s, so the byte 0xFF comes
out of it as the value of `EOF`, and it takes back at most `MAX_UNREAD_COUNT` characters.
Here a stream ends where its bytes end, and every unread character fits.
-/

namespace JudgeServer.Checker

open JudgeServer.Common

def isEoln (b : UInt8) : Bool := b = 10 || b = 13

def isBlanks (b : UInt8) : Bool := b = 10 || b = 13 || b = 32 || b = 9

/-- What a stream that is not strict has left after `InStream::eoln`. A carriage return
that no line feed follows is put back. -/
def eoln : Bytes → Bytes
  | 10 :: rest => rest
  | 13 :: 10 :: rest => rest
  | stream => stream

/-- `InStream::readString`: the line, and what is left of the stream. -/
def readString (stream : Bytes) : Bytes × Bytes :=
  (stream.takeWhile (!isEoln ·), eoln (stream.dropWhile (!isEoln ·)))

def seekEof (stream : Bytes) : Bool := stream.dropWhile isBlanks = []

/-- The results `fcmp2` quits with, and `_dirt`, which is reported as `_pe`. -/
inductive TResult where
  | ok
  | wa
  | pe
  deriving DecidableEq, Repr

def resultExitCode : TResult → Nat
  | .ok => 0
  | .wa => 1
  | .pe => 2

/-- `quitf`: an output with something left is not accepted. -/
def quitf (ouf : Bytes) (result : TResult) : Nat :=
  if result = .ok ∧ ¬seekEof ouf then resultExitCode .pe else resultExitCode result

def delLineBackSpace (str : Bytes) : Bytes :=
  str.rdropWhile fun b => b = 10 || b = 32 || b = 13

/-- The loop of `main`. -/
def compareLines : Nat → Bytes → Bytes → Option Nat
  | 0, _, _ => none
  | fuel + 1, ans, ouf =>
      if ans = [] then some (quitf ouf .ok)
      else
        let j := delLineBackSpace (readString ans).1
        if j = [] ∧ (readString ans).2 = [] then some (quitf ouf .ok)
        else
          let p := delLineBackSpace (readString ouf).1
          if j ≠ p then some (quitf (readString ouf).2 .wa)
          else compareLines fuel (readString ans).2 (readString ouf).2

/-- `fcmp2` ends with an exit code on an expected output and an output. -/
def Exits (ans ouf : Bytes) (code : Nat) : Prop := ∃ fuel, compareLines fuel ans ouf = some code

/-- What is left after a number of lines. -/
def after (stream : Bytes) (n : Nat) : Bytes := (fun s => (readString s).2)^[n] stream

def line (stream : Bytes) (n : Nat) : Bytes := (readString (after stream n)).1

/-- What the checker sees of a line. -/
def seen (stream : Bytes) (n : Nat) : Bytes := delLineBackSpace (line stream n)

/-- A line of the expected output that is compared with the output's: there is one, and it
is not an empty last one. -/
def Compared (ans : Bytes) (n : Nat) : Prop :=
  after ans n ≠ [] ∧ ¬(seen ans n = [] ∧ after ans (n + 1) = [])

instance (ans : Bytes) (n : Nat) : Decidable (Compared ans n) :=
  inferInstanceAs (Decidable (_ ∧ _))

@[simp] theorem after_zero (s : Bytes) : after s 0 = s := rfl

theorem after_succ (s : Bytes) (n : Nat) : after s (n + 1) = after (readString s).2 n := rfl

theorem line_zero (s : Bytes) : line s 0 = (readString s).1 := rfl

theorem line_succ (s : Bytes) (n : Nat) : line s (n + 1) = line (readString s).2 n := rfl

theorem after_add (s : Bytes) (m n : Nat) : after s (m + n) = after (after s m) n := by
  rw [after, Nat.add_comm, Function.iterate_add_apply]
  rfl

theorem compared_after (s : Bytes) (n : Nat) : Compared (after s n) 0 ↔ Compared s n := by
  rw [Compared, Compared, after_add s n 1]
  rfl

/-- One round of the loop. -/
theorem compareLines_succ (fuel : Nat) (ans ouf : Bytes) :
    compareLines (fuel + 1) ans ouf =
      if ¬Compared ans 0 then some (quitf ouf .ok)
      else if seen ans 0 ≠ seen ouf 0 then some (resultExitCode .wa)
      else compareLines fuel (readString ans).2 (readString ouf).2 := by
  by_cases hend : ans = []
  · have hc : ¬Compared ans 0 := fun h => h.1 hend
    rw [compareLines, if_pos hend, if_pos hc]
  · rw [compareLines, if_neg hend]
    by_cases hlast : delLineBackSpace (readString ans).1 = [] ∧ (readString ans).2 = []
    · have hc : ¬Compared ans 0 := fun h => h.2 hlast
      simp only [if_pos hlast, if_pos hc]
    · have hc : Compared ans 0 := ⟨hend, hlast⟩
      simp only [if_neg hlast, if_neg (not_not.2 hc)]
      rfl

/-- The lines before `n` are compared and seen the same. -/
def Passed (ans ouf : Bytes) (n : Nat) : Prop := ∀ i < n, Compared ans i ∧ seen ans i = seen ouf i

/-- The loop gets past these lines. -/
theorem compareLines_passed {n : Nat} {ans ouf : Bytes} (h : Passed ans ouf n) (fuel : Nat) :
    compareLines (n + fuel) ans ouf = compareLines fuel (after ans n) (after ouf n) := by
  induction n generalizing ans ouf with
  | zero => rw [Nat.zero_add, after_zero, after_zero]
  | succ n ih =>
    obtain ⟨hc, hs⟩ := h 0 (by omega)
    rw [Nat.add_right_comm, compareLines_succ, if_neg (not_not.2 hc), if_neg (not_not.2 hs), ih]
    · rfl
    · intro i hi
      exact h (i + 1) (by omega)

theorem compareLines_stable {fuel : Nat} {ans ouf : Bytes} {code : Nat}
    (h : compareLines fuel ans ouf = some code) (more : Nat) :
    compareLines (fuel + more) ans ouf = some code := by
  induction fuel generalizing ans ouf with
  | zero => cases h
  | succ fuel ih =>
    rw [Nat.add_right_comm, compareLines_succ]
    rw [compareLines_succ] at h
    split
    · next hend => rwa [if_pos hend] at h
    · next hend =>
      rw [if_neg hend] at h
      split
      · next hdiff => rwa [if_pos hdiff] at h
      · next hdiff =>
        rw [if_neg hdiff] at h
        exact ih h

theorem exits_unique {ans ouf : Bytes} {c d : Nat} (hc : Exits ans ouf c) (hd : Exits ans ouf d) :
    c = d := by
  obtain ⟨n, hn⟩ := hc
  obtain ⟨m, hm⟩ := hd
  have hleft := compareLines_stable hn m
  have hright := compareLines_stable hm n
  rw [Nat.add_comm m n, hleft] at hright
  exact Option.some.inj hright

/-- How the program ends: at the end of the expected output, or at a difference. -/
def EndsAt (ans ouf : Bytes) (n code : Nat) : Prop :=
  Passed ans ouf n ∧
    (¬Compared ans n ∧ code = quitf (after ouf n) .ok ∨
      Compared ans n ∧ seen ans n ≠ seen ouf n ∧ code = resultExitCode .wa)

theorem endsAt_succ {ans ouf : Bytes} {n code : Nat} (hc : Compared ans 0)
    (hs : seen ans 0 = seen ouf 0) (h : EndsAt (readString ans).2 (readString ouf).2 n code) :
    EndsAt ans ouf (n + 1) code := by
  obtain ⟨hpre, hend⟩ := h
  apply And.intro _ hend
  intro i hi
  cases i with
  | zero => exact ⟨hc, hs⟩
  | succ i => exact hpre i (by omega)

theorem exits_iff {ans ouf : Bytes} {code : Nat} :
    Exits ans ouf code ↔ ∃ n, EndsAt ans ouf n code := by
  constructor
  · rintro ⟨fuel, h⟩
    induction fuel generalizing ans ouf with
    | zero => cases h
    | succ fuel ih =>
      rw [compareLines_succ] at h
      split at h
      · next hc => exact ⟨0, fun i hi => absurd hi (by omega), .inl ⟨hc, (Option.some.inj h).symm⟩⟩
      · next hc =>
        split at h
        · next hs =>
          exact ⟨0, fun i hi => absurd hi (by omega),
            .inr ⟨not_not.1 hc, hs, (Option.some.inj h).symm⟩⟩
        · next hs =>
          obtain ⟨n, hn⟩ := ih h
          exact ⟨n + 1, endsAt_succ (not_not.1 hc) (not_not.1 hs) hn⟩
  · rintro ⟨n, hpre, hend⟩
    use n + 1
    rw [compareLines_passed hpre, compareLines_succ]
    obtain ⟨hc, rfl⟩ | ⟨hc, hs, rfl⟩ := hend
    · have hlast : ¬Compared (after ans n) 0 := by rwa [compared_after]
      rw [if_pos hlast]
    · have hmore : Compared (after ans n) 0 := by rwa [compared_after]
      have hdiff : seen (after ans n) 0 ≠ seen (after ouf n) 0 := hs
      rw [if_neg (not_not.2 hmore), if_pos hdiff]

end JudgeServer.Checker
