import Mathlib.Data.List.AList

/-!
# Finite maps with a filter and a size

Mathlib's `AList` is a finite map with unique keys. This file adds what a table
with eviction needs of it: keeping the entries that satisfy a predicate, erasing several
keys, counting entries, and how these interact with `lookup`, `insert` and `erase`.
-/

namespace JudgeServer.Lib.KeyedMap

variable {κ ν : Type*}

abbrev Table (κ : Type*) (ν : Type*) := AList fun _ : κ => ν

def size (m : Table κ ν) : Nat := m.entries.length

/-- Keep the entries whose value satisfies `p`. -/
def keep (p : ν → Bool) (m : Table κ ν) : Table κ ν where
  entries := m.entries.filter fun e => p e.2
  nodupKeys := m.nodupKeys.sublist List.filter_sublist

/-- The number of entries whose value satisfies `p`. -/
def count (p : ν → Bool) (m : Table κ ν) : Nat := m.entries.countP fun e => p e.2

theorem count_le_size (p : ν → Bool) (m : Table κ ν) : count p m ≤ size m :=
  List.countP_le_length

theorem count_eq_size_of_forall {p : ν → Bool} {m : Table κ ν}
    (h : ∀ e ∈ m.entries, p e.2 = true) : count p m = size m :=
  List.countP_eq_length.mpr h

theorem size_keep_le (p : ν → Bool) (m : Table κ ν) : size (keep p m) ≤ size m :=
  List.length_filter_le _ _

/-- Filtering by a weaker predicate does not lose entries counted by a stronger one. -/
theorem count_keep {p q : ν → Bool} (h : ∀ v, p v = true → q v = true) (m : Table κ ν) :
    count p (keep q m) = count p m := by
  simp only [count, keep, List.countP_filter]
  apply List.countP_congr
  intro e _
  cases hp : p e.2 with
  | false => simp
  | true => simp [h _ hp]

/-- Filtering by what every entry satisfies changes nothing. -/
theorem keep_eq_self {p : ν → Bool} {m : Table κ ν} (h : ∀ e ∈ m.entries, p e.2 = true) :
    keep p m = m := by
  apply AList.ext
  exact List.filter_eq_self.mpr h

variable [DecidableEq κ]

theorem lookup_iff {m : Table κ ν} {k : κ} {v : ν} :
    m.lookup k = some v ↔ ⟨k, v⟩ ∈ m.entries := List.mem_dlookup_iff m.nodupKeys

theorem lookup_keep (p : ν → Bool) (m : Table κ ν) (k : κ) :
    (keep p m).lookup k = (m.lookup k).filter p := by
  apply Option.ext
  intro v
  rw [lookup_iff, Option.filter_eq_some_iff, lookup_iff]
  simp [keep]

theorem lookup_erase_eq (m : Table κ ν) (a k : κ) :
    (m.erase a).lookup k = if k = a then none else m.lookup k := by
  by_cases h : k = a
  · subst h; simp
  · simp [h, AList.lookup_erase_ne h]

theorem lookup_insert_eq (m : Table κ ν) (a k : κ) (v : ν) :
    (m.insert a v).lookup k = if k = a then some v else m.lookup k := by
  by_cases h : k = a
  · subst h; simp
  · simp [h, AList.lookup_insert_ne h]

theorem exists_split {m : Table κ ν} {k : κ} {v : ν} (h : m.lookup k = some v) :
    m.entries.Perm (⟨k, v⟩ :: (m.erase k).entries) := by
  have hk : k ∈ m.entries.keys := List.mem_keys_of_mem (lookup_iff.mp h)
  obtain ⟨b, l₁, l₂, hn, he, hr⟩ := List.exists_of_kerase hk
  have hb : (⟨k, b⟩ : Sigma fun _ : κ => ν) ∈ m.entries := by rw [he]; simp
  have hv : some v = some b := by rw [← h, lookup_iff.mpr hb]
  obtain rfl := Option.some.inj hv
  change m.entries.Perm (⟨k, v⟩ :: m.entries.kerase k)
  rw [hr, he]
  exact List.perm_middle

theorem size_erase {m : Table κ ν} {k : κ} {v : ν} (h : m.lookup k = some v) :
    size (m.erase k) + 1 = size m := (exists_split h).length_eq.symm

theorem size_erase_le (m : Table κ ν) (k : κ) : size (m.erase k) ≤ size m :=
  (List.kerase_sublist k m.entries).length_le

/-- Erasing an entry that `p` rejects leaves the count of `p` alone. -/
theorem count_erase {p : ν → Bool} {m : Table κ ν} {k : κ}
    (h : ∀ v, m.lookup k = some v → p v = false) : count p (m.erase k) = count p m := by
  cases hk : m.lookup k with
  | none =>
      have he : m.entries.kerase k = m.entries :=
        List.kerase_of_notMem_keys (List.dlookup_eq_none.mp hk)
      change List.countP _ (m.entries.kerase k) = _
      rw [he]
      rfl
  | some v =>
      have hc := (exists_split hk).countP_eq (fun e => p e.2)
      rw [List.countP_cons, h v hk] at hc
      simpa [count] using hc.symm

/-- An entry that `p` rejects is not counted. -/
theorem count_lt_size {p : ν → Bool} {m : Table κ ν} {k : κ} {v : ν} (h : m.lookup k = some v)
    (hv : p v = false) : count p m < size m := by
  have hc : count p (m.erase k) = count p m := by
    apply count_erase
    intro w hw
    rw [h] at hw
    obtain rfl := Option.some.inj hw
    exact hv
  have hle := count_le_size p (m.erase k)
  have hs := size_erase h
  omega

/-- Erase several keys, one after the other. -/
def eraseAll (ks : List κ) (m : Table κ ν) : Table κ ν := ks.foldl (fun m k => m.erase k) m

theorem lookup_eraseAll (ks : List κ) (k : κ) :
    ∀ m : Table κ ν, (eraseAll ks m).lookup k = if k ∈ ks then none else m.lookup k := by
  induction ks with
  | nil => intro m; rfl
  | cons a ks ih =>
    intro m
    show (eraseAll ks (m.erase a)).lookup k = _
    rw [ih, lookup_erase_eq]
    by_cases ha : k = a <;> by_cases hk : k ∈ ks <;> simp [ha, hk]

/-- Erasing keys that are there, each of them once. -/
theorem size_eraseAll {ks : List κ} (hnodup : ks.Nodup) :
    ∀ m : Table κ ν, (∀ k ∈ ks, ∃ v, m.lookup k = some v) →
      size (eraseAll ks m) + ks.length = size m := by
  induction ks with
  | nil => intro m _; rfl
  | cons a ks ih =>
    intro m hin
    rw [List.nodup_cons] at hnodup
    obtain ⟨v, hv⟩ := hin a List.mem_cons_self
    have hrest : ∀ k ∈ ks, ∃ w, (m.erase a).lookup k = some w := by
      intro k hk
      rw [lookup_erase_eq, if_neg (ne_of_mem_of_not_mem hk hnodup.1)]
      exact hin k (List.mem_cons_of_mem _ hk)
    have hsize := ih hnodup.2 (m.erase a) hrest
    have herase := size_erase hv
    show size (eraseAll ks (m.erase a)) + (ks.length + 1) = size m
    omega

/-- The entries of `m` that a smaller table has lost make up the difference in size. -/
theorem size_add_lost {m new : Table κ ν}
    (hsub : ∀ k v, new.lookup k = some v → m.lookup k = some v) :
    size new + (m.entries.filter fun e => (new.lookup e.1).isNone).length = size m := by
  have hkept : (m.entries.filter fun e => (new.lookup e.1).isSome).Perm new.entries := by
    apply (List.perm_ext_iff_of_nodup (m.nodupKeys.nodup.filter _) new.nodupKeys.nodup).mpr
    rintro ⟨k, v⟩
    rw [List.mem_filter, ← lookup_iff, ← lookup_iff]
    constructor
    · rintro ⟨hm, hsome⟩
      obtain ⟨w, hw⟩ := Option.isSome_iff_exists.mp hsome
      have hold := hsub k w hw
      rw [hm] at hold
      rwa [Option.some.inj hold]
    · intro hnew
      exact ⟨hsub k v hnew, by rw [hnew]; rfl⟩
  have hsplit := List.length_eq_length_filter_add (l := m.entries)
    fun e => (new.lookup e.1).isSome
  have hnone : (fun e : Sigma fun _ : κ => ν => !(new.lookup e.1).isSome) =
      fun e => (new.lookup e.1).isNone := by
    funext e
    exact Option.not_isSome _
  rw [hkept.length_eq, hnone] at hsplit
  exact hsplit.symm

/-- Overwriting an existing entry keeps the size. -/
theorem size_insert_of_lookup {m : Table κ ν} {k : κ} {v : ν} (w : ν)
    (h : m.lookup k = some v) : size (m.insert k w) = size m := by
  have he := size_erase h
  simp only [size, AList.entries_insert, List.length_cons]
  exact he

theorem count_insert {p : ν → Bool} {m : Table κ ν} {k : κ} {v : ν} (w : ν)
    (h : m.lookup k = some v) :
    count p (m.insert k w) + (if p v then 1 else 0) = count p m + if p w then 1 else 0 := by
  have hc := (exists_split h).countP_eq (fun e => p e.2)
  simp only [count, AList.entries_insert, List.countP_cons] at hc ⊢
  change m.entries.countP (fun e => p e.2) = (m.entries.kerase k).countP _ + _ at hc
  omega

end JudgeServer.Lib.KeyedMap
