import Mathlib.Data.List.Basic
import Mathlib.Data.List.Infix

/-!
# Lexical paths

POSIX paths as byte strings: joining as `std::filesystem::path::operator/` does it, and
the lexical normal form of an absolute path as the names met on the way down from the
root directory. Nothing here looks at a file system.
-/

namespace JudgeServer.Lib.LexicalPath

abbrev Name := List UInt8

def slash : UInt8 := 47
def dot : Name := [46]
def dotdot : Name := [46, 46]

def isAbsolute (p : List UInt8) : Bool := p.head? = some slash

/-- An absolute right side replaces the left one; otherwise a separator is added unless
one is there already. -/
def join (p q : List UInt8) : List UInt8 :=
  if isAbsolute q then q
  else if p = [] ∨ p.getLast? = some slash then p ++ q
  else p ++ slash :: q

/-- The directory reached from `dir` by one name. -/
def descend (dir : List Name) (name : Name) : List Name :=
  if name = [] ∨ name = dot then dir
  else if name = dotdot then dir.dropLast
  else dir ++ [name]

/-- The lexical normal form of an absolute path. -/
def normalNames (p : List UInt8) : List Name := (p.splitOn slash).foldl descend []

/-- `p` lies strictly below the directory `root`. -/
def Inside (root p : List UInt8) : Prop :=
  isAbsolute root = true ∧ isAbsolute p = true ∧
    normalNames root <+: normalNames p ∧ (normalNames root).length < (normalNames p).length

/-- `p` is the directory `dir` or lies somewhere below it. -/
def Within (dir p : List UInt8) : Prop := normalNames dir <+: normalNames p

/-- A proper name: what a directory entry is called. -/
def Proper (name : Name) : Prop := name ≠ [] ∧ name ≠ dot ∧ name ≠ dotdot ∧ slash ∉ name

/-- The lexical normal form of a relative path: so many `..`, then names. -/
structure Climb where
  up : Nat
  down : List Name
  deriving DecidableEq

def Climb.step (c : Climb) (name : Name) : Climb :=
  if name = [] ∨ name = dot then c
  else if name = dotdot then
    if c.down = [] then ⟨c.up + 1, []⟩ else ⟨c.up, c.down.dropLast⟩
  else ⟨c.up, c.down ++ [name]⟩

def climb (p : List UInt8) : Climb := (p.splitOn slash).foldl Climb.step ⟨0, []⟩

theorem isAbsolute_append {p : List UInt8} (h : isAbsolute p = true) (q : List UInt8) :
    isAbsolute (p ++ q) = true := by
  cases p with
  | nil => simp [isAbsolute] at h
  | cons b p => simpa [isAbsolute] using h

theorem isAbsolute_join {p : List UInt8} (h : isAbsolute p = true) (q : List UInt8) :
    isAbsolute (join p q) = true := by
  unfold join
  split_ifs with hq
  · exact hq
  · exact isAbsolute_append h q
  · exact isAbsolute_append h _

theorem normalNames_separator (p q : List UInt8) :
    normalNames (p ++ slash :: q) = (q.splitOn slash).foldl descend (normalNames p) := by
  unfold normalNames
  rw [List.splitOn_append_cons_self, List.foldl_append]

/-- Joining a relative path goes on from where the left side leads. -/
theorem normalNames_join (p : List UInt8) {q : List UInt8} (hq : isAbsolute q = false) :
    normalNames (join p q) = (q.splitOn slash).foldl descend (normalNames p) := by
  unfold join
  rw [if_neg (by rw [hq]; decide)]
  split_ifs with hp
  · obtain rfl | hlast := hp
    · rfl
    · obtain ⟨front, rfl⟩ := List.getLast?_eq_some_iff.mp hlast
      have hsep : front ++ [slash] ++ q = front ++ slash :: q := by simp
      have hfront : normalNames (front ++ [slash]) = normalNames front :=
        normalNames_separator front []
      rw [hsep, normalNames_separator, hfront]
  · exact normalNames_separator p q

theorem descend_proper {name : Name} (h : Proper name) (dir : List Name) :
    descend dir name = dir ++ [name] := by
  obtain ⟨hne, hdot, hdotdot, _⟩ := h
  simp [descend, hne, hdot, hdotdot]

theorem isAbsolute_proper {name : Name} (h : Proper name) : isAbsolute name = false := by
  cases name with
  | nil => rfl
  | cons b name =>
    have hb : b ≠ slash := fun hb => h.2.2.2 (by rw [hb]; exact List.mem_cons_self)
    simp [isAbsolute, hb]

theorem join_right_cancel {p q r : List UInt8} (hq : isAbsolute q = false)
    (hr : isAbsolute r = false) (h : join p q = join p r) : q = r := by
  unfold join at h
  rw [hq, hr, if_neg Bool.false_ne_true, if_neg Bool.false_ne_true] at h
  split at h
  · exact List.append_cancel_left h
  · exact List.cons_injective (List.append_cancel_left h)

theorem normalNames_join_proper (p : List UInt8) {name : Name} (h : Proper name) :
    normalNames (join p name) = normalNames p ++ [name] := by
  rw [normalNames_join p (isAbsolute_proper h), List.splitOn_eq_singleton h.2.2.2]
  exact descend_proper h _

/-- A directory is cut back by the climbs and continued by the names. -/
theorem foldl_descend (dir : List Name) (ns : List Name) (c : Climb) :
    ns.foldl descend (dir.take (dir.length - c.up) ++ c.down) =
      dir.take (dir.length - (ns.foldl Climb.step c).up) ++ (ns.foldl Climb.step c).down := by
  induction ns generalizing c with
  | nil => rfl
  | cons name ns ih =>
    have hstep : descend (dir.take (dir.length - c.up) ++ c.down) name =
        dir.take (dir.length - (c.step name).up) ++ (c.step name).down := by
      unfold descend Climb.step
      split_ifs with hskip hup hdown
      · rfl
      · rw [hdown, List.append_nil, List.append_nil, List.dropLast_eq_take, List.take_take,
          List.length_take]
        congr 1
        dsimp only
        omega
      · exact List.dropLast_append_of_ne_nil hdown
      · rw [List.append_assoc]
    rw [List.foldl_cons, List.foldl_cons, hstep]
    exact ih _

theorem normalNames_join_climb (p : List UInt8) {q : List UInt8} (hq : isAbsolute q = false) :
    normalNames (join p q) =
      (normalNames p).take ((normalNames p).length - (climb q).up) ++ (climb q).down := by
  rw [normalNames_join p hq]
  have h := foldl_descend (normalNames p) (q.splitOn slash) ⟨0, []⟩
  simpa [climb] using h

/-- An entry of a directory lies below what the directory does not leave. -/
theorem inside_join_iff {root dir : List UInt8} (hroot : isAbsolute root = true)
    (hdir : isAbsolute dir = true) {name : Name} (h : Proper name) :
    Inside root (join dir name) ↔ normalNames root <+: normalNames dir := by
  unfold Inside
  rw [normalNames_join_proper dir h, List.prefix_concat_iff]
  constructor
  · rintro ⟨_, _, heq | hbelow, hlt⟩
    · rw [heq] at hlt
      omega
    · exact hbelow
  · intro hbelow
    have hle := hbelow.length_le
    refine ⟨hroot, isAbsolute_join hdir name, Or.inr hbelow, ?_⟩
    simp only [List.length_append, List.length_singleton]
    omega

theorem Within.refl (p : List UInt8) : Within p p := List.prefix_refl _

theorem Within.trans {a b c : List UInt8} (h : Within a b) (h' : Within b c) : Within a c :=
  List.IsPrefix.trans h h'

theorem within_join (dir : List UInt8) {name : Name} (h : Proper name) :
    Within dir (join dir name) := by
  unfold Within
  rw [normalNames_join_proper dir h]
  exact List.prefix_append _ _

/-- Two entries of one directory have nothing below them in common. -/
theorem name_eq_of_within {dir p : List UInt8} {name name' : Name} (h : Proper name)
    (h' : Proper name') (hp : Within (join dir name) p) (hp' : Within (join dir name') p) :
    name = name' := by
  unfold Within at hp hp'
  rw [normalNames_join_proper dir h] at hp
  rw [normalNames_join_proper dir h'] at hp'
  have hlength : (normalNames dir ++ [name]).length = (normalNames dir ++ [name']).length := by simp
  have heq := (List.prefix_of_prefix_length_le hp hp' hlength.le).eq_of_length hlength
  simpa using heq

theorem join_append (p : List UInt8) {q : List UInt8} (hq : q ≠ []) (r : List UInt8) :
    join p (q ++ r) = join p q ++ r := by
  obtain ⟨b, q, rfl⟩ := List.exists_cons_of_ne_nil hq
  have habs : isAbsolute (b :: q ++ r) = isAbsolute (b :: q) := by simp [isAbsolute]
  unfold join
  rw [habs]
  split_ifs <;> simp

end JudgeServer.Lib.LexicalPath
