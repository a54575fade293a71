/-! # Tables

A finite map as a list of entries with distinct keys. -/

namespace BlobExchange

structure Table (κ ν : Type) where
  entries : List (κ × ν)
  nodup : (entries.map Prod.fst).Nodup

namespace Table

variable {κ ν : Type} [DecidableEq κ]

def lookup (k : κ) : List (κ × ν) → Option ν
  | [] => none
  | (j, v) :: rest => if j = k then some v else lookup k rest

/-- The entries with a value under a key, in its place or at the end. -/
def store (k : κ) (v : ν) : List (κ × ν) → List (κ × ν)
  | [] => [(k, v)]
  | (j, w) :: rest => if j = k then (k, v) :: rest else (j, w) :: store k v rest

def remove (k : κ) (entries : List (κ × ν)) : List (κ × ν) :=
  entries.filter fun e => decide (e.1 ≠ k)

theorem mem_keys_store {k j : κ} {v : ν} {entries : List (κ × ν)} :
    j ∈ (store k v entries).map Prod.fst ↔ j = k ∨ j ∈ entries.map Prod.fst := by
  induction entries with
  | nil => simp [store]
  | cons e rest ih =>
    obtain ⟨i, w⟩ := e
    by_cases h : i = k
    · subst h; simp [store]
    · simp only [store, h, if_false, List.map_cons, List.mem_cons, ih]
      grind

theorem nodup_store {k : κ} {v : ν} {entries : List (κ × ν)}
    (h : (entries.map Prod.fst).Nodup) : ((store k v entries).map Prod.fst).Nodup := by
  induction entries with
  | nil => simp [store]
  | cons e rest ih =>
    obtain ⟨i, w⟩ := e
    simp only [List.map_cons, List.nodup_cons] at h
    by_cases hi : i = k
    · subst hi; simpa [store] using h
    · simp only [store, hi, if_false, List.map_cons, List.nodup_cons]
      refine ⟨?_, ih h.2⟩
      rw [mem_keys_store]
      exact fun h' => h'.elim hi h.1

theorem nodup_remove {k : κ} {entries : List (κ × ν)}
    (h : (entries.map Prod.fst).Nodup) : ((remove k entries).map Prod.fst).Nodup :=
  h.sublist (List.filter_sublist.map _)

def empty : Table κ ν := ⟨[], List.nodup_nil⟩

def get? (t : Table κ ν) (k : κ) : Option ν := lookup k t.entries

def insert (t : Table κ ν) (k : κ) (v : ν) : Table κ ν := ⟨store k v t.entries, nodup_store t.nodup⟩

def erase (t : Table κ ν) (k : κ) : Table κ ν := ⟨remove k t.entries, nodup_remove t.nodup⟩

def size (t : Table κ ν) : Nat := t.entries.length

def eraseAll (t : Table κ ν) (ks : List κ) : Table κ ν := ks.foldl erase t

/-! ## What the operations do to `get?` -/

theorem lookup_store {k j : κ} {v : ν} {entries : List (κ × ν)} :
    lookup j (store k v entries) = if j = k then some v else lookup j entries := by
  induction entries with
  | nil => simp [store, lookup, eq_comm]
  | cons e rest ih =>
    obtain ⟨i, w⟩ := e
    by_cases hi : i = k
    · subst hi
      by_cases hj : i = j <;> simp [store, lookup, hj, eq_comm]
      intro h
      exact absurd h.symm hj
    · by_cases hj : i = j
      · subst hj; simp [store, lookup, hi]
      · simp [store, lookup, hi, hj, ih]

theorem lookup_remove {k j : κ} {entries : List (κ × ν)} :
    lookup j (remove k entries) = if j = k then none else lookup j entries := by
  induction entries with
  | nil => simp [remove, lookup]
  | cons e rest ih =>
    obtain ⟨i, w⟩ := e
    unfold remove at ih ⊢
    by_cases hi : i = k
    · subst hi
      by_cases hj : j = i
      · subst hj; simpa [lookup] using ih
      · have hj' : ¬ i = j := fun h => hj h.symm
        simpa [lookup, hj, hj'] using ih
    · by_cases hj : i = j
      · subst hj; simp [lookup, hi]
      · simpa [lookup, hi, hj] using ih

@[simp] theorem get?_empty (k : κ) : (empty : Table κ ν).get? k = none := rfl

theorem get?_insert (t : Table κ ν) (k j : κ) (v : ν) :
    (t.insert k v).get? j = if j = k then some v else t.get? j :=
  lookup_store

theorem get?_erase (t : Table κ ν) (k j : κ) :
    (t.erase k).get? j = if j = k then none else t.get? j :=
  lookup_remove

@[simp] theorem get?_insert_self (t : Table κ ν) (k : κ) (v : ν) :
    (t.insert k v).get? k = some v := by
  simp [get?_insert]

@[simp] theorem get?_erase_self (t : Table κ ν) (k : κ) : (t.erase k).get? k = none := by
  simp [get?_erase]

theorem get?_eraseAll (t : Table κ ν) (ks : List κ) (j : κ) :
    (t.eraseAll ks).get? j = if j ∈ ks then none else t.get? j := by
  unfold eraseAll
  induction ks generalizing t with
  | nil => simp
  | cons k rest ih =>
    rw [List.foldl_cons, ih, get?_erase]
    by_cases hk : j = k
    · simp [hk]
    · simp [hk]

/-! ## What they do to the entries -/

theorem store_store (k : κ) (v w : ν) (entries : List (κ × ν)) :
    store k w (store k v entries) = store k w entries := by
  induction entries with
  | nil => simp [store]
  | cons e rest ih =>
    by_cases hk : e.1 = k
    · simp [store, hk]
    · simp [store, hk, ih]

/-- The value put under a key last is the one that stays. -/
theorem insert_insert (t : Table κ ν) (k : κ) (v w : ν) :
    (t.insert k v).insert k w = t.insert k w := by
  obtain ⟨entries, nodup⟩ := t
  simp only [insert, store_store]

theorem store_of_lookup {k : κ} {v : ν} {entries : List (κ × ν)} (h : lookup k entries = some v) :
    store k v entries = entries := by
  induction entries with
  | nil => cases h
  | cons e rest ih =>
    obtain ⟨j, w⟩ := e
    by_cases hj : j = k
    · simp only [lookup, hj, if_true, Option.some.injEq] at h
      simp [store, hj, h]
    · simp only [lookup, hj, if_false] at h
      simp only [store, hj, if_false, ih h]

theorem remove_of_lookup_none {k : κ} {entries : List (κ × ν)} (h : lookup k entries = none) :
    remove k entries = entries := by
  induction entries with
  | nil => rfl
  | cons e rest ih =>
    obtain ⟨j, w⟩ := e
    by_cases hj : j = k
    · simp [lookup, hj] at h
    · simp only [lookup, hj, if_false] at h
      unfold remove at ih ⊢
      rw [List.filter_cons_of_pos (by simpa using hj), ih h]

theorem entries_erase_of_none {t : Table κ ν} {k : κ} (h : t.get? k = none) :
    (t.erase k).entries = t.entries :=
  remove_of_lookup_none h

/-- A key that is not there cannot be dropped. -/
theorem erase_of_none {t : Table κ ν} {k : κ} (h : t.get? k = none) : t.erase k = t := by
  obtain ⟨entries, nodup⟩ := t
  have hentries := entries_erase_of_none h
  unfold erase at hentries ⊢
  simp only at hentries
  simp only [hentries]

theorem perm_store {k : κ} {v : ν} {entries : List (κ × ν)}
    (nodup : (entries.map Prod.fst).Nodup) :
    (store k v entries).Perm ((k, v) :: remove k entries) := by
  -- the key is found in front, and does not occur again, or further back
  induction entries with
  | nil => exact List.Perm.refl _
  | cons e rest ih =>
    obtain ⟨j, w⟩ := e
    rw [List.map_cons, List.nodup_cons] at nodup
    by_cases hj : j = k
    · subst hj
      have hrest : remove j ((j, w) :: rest) = rest := by
        unfold remove
        rw [List.filter_cons_of_neg (by simp), List.filter_eq_self]
        intro e he
        rw [decide_eq_true_iff]
        intro heq
        have hkey := List.mem_map_of_mem (f := Prod.fst) he
        rw [heq] at hkey
        exact nodup.1 hkey
      rw [hrest]
      simp [store]
    · have hremove : remove k ((j, w) :: rest) = (j, w) :: remove k rest := by
        unfold remove
        rw [List.filter_cons_of_pos (by simpa using hj)]
      rw [hremove]
      simp only [store, hj, if_false]
      exact ((ih nodup.2).cons _).trans (List.Perm.swap _ _ _)

/-- An inserted entry stands beside those with other keys. -/
theorem perm_insert (t : Table κ ν) (k : κ) (v : ν) :
    (t.insert k v).entries.Perm ((k, v) :: (t.erase k).entries) :=
  perm_store t.nodup

theorem perm_of_get? {t : Table κ ν} {k : κ} {v : ν} (h : t.get? k = some v) :
    t.entries.Perm ((k, v) :: (t.erase k).entries) := by
  have hsame : (t.insert k v).entries = t.entries := store_of_lookup h
  rw [← hsame]
  exact perm_insert t k v

end Table

end BlobExchange
