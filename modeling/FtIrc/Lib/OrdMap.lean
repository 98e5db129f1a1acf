import Mathlib.Data.List.Find
import Mathlib.Order.Defs.LinearOrder
import Mathlib.Data.List.Basic
import Mathlib.Tactic.SplitIfs
import Mathlib.Tactic.Lemma

/-!
# Ordered maps

A finite map kept as its list of entries in strictly ascending key order, the order in
which an ordered container is iterated. The order is a field of the structure, so two
maps with the same lookups are the same map (`OrdMap.ext_find?`), and what a loop over the
entries meets is determined by the lookups.
-/

/-- A finite map, its entries in strictly ascending key order. -/
structure OrdMap (κ ν : Type) [LinearOrder κ] where
  entries : List (κ × ν)
  sorted : entries.Pairwise fun a b => a.1 < b.1

namespace OrdMap

variable {κ ν : Type} [LinearOrder κ]

/-- The map without entries. -/
def empty : OrdMap κ ν := ⟨[], List.Pairwise.nil⟩

/-- The value stored under `k`. -/
def find? (m : OrdMap κ ν) (k : κ) : Option ν :=
  (m.entries.find? fun e => decide (e.1 = k)).map Prod.snd

/-- The keys, ascending. -/
def keys (m : OrdMap κ ν) : List κ := m.entries.map Prod.fst

/-- The number of entries. -/
def size (m : OrdMap κ ν) : ℕ := m.entries.length

/-- Insertion into a sorted entry list, replacing an entry with the same key. -/
def insertEntry (k : κ) (v : ν) : List (κ × ν) → List (κ × ν)
  | [] => [(k, v)]
  | e :: es =>
    if k < e.1 then (k, v) :: e :: es
    else if k = e.1 then (k, v) :: es
    else e :: insertEntry k v es

theorem mem_insertEntry {k : κ} {v : ν} {es : List (κ × ν)} {x : κ × ν}
    (h : x ∈ insertEntry k v es) : x = (k, v) ∨ x ∈ es := by
  induction es with
  | nil => exact Or.inl (List.mem_singleton.mp h)
  | cons e es ih =>
    unfold insertEntry at h
    split_ifs at h with hlt heq
    · exact List.mem_cons.mp h
    · rcases List.mem_cons.mp h with h | h
      · exact Or.inl h
      · exact Or.inr (List.mem_cons_of_mem _ h)
    · rcases List.mem_cons.mp h with h | h
      · exact Or.inr (h ▸ List.mem_cons_self)
      · exact (ih h).imp id (List.mem_cons_of_mem _)

theorem sorted_insertEntry {k : κ} {v : ν} {es : List (κ × ν)}
    (h : es.Pairwise fun a b => a.1 < b.1) :
    (insertEntry k v es).Pairwise fun a b => a.1 < b.1 := by
  induction es with
  | nil => exact List.pairwise_singleton _ _
  | cons e es ih =>
    obtain ⟨hhead, htail⟩ := List.pairwise_cons.mp h
    unfold insertEntry
    split_ifs with hlt heq
    · refine List.pairwise_cons.mpr ⟨fun x hx => ?_, h⟩
      rcases List.mem_cons.mp hx with rfl | hx
      · exact hlt
      · exact lt_trans hlt (hhead x hx)
    · exact List.pairwise_cons.mpr ⟨fun x hx => heq ▸ hhead x hx, htail⟩
    · refine List.pairwise_cons.mpr ⟨fun x hx => ?_, ih htail⟩
      rcases mem_insertEntry hx with rfl | hx
      · exact lt_of_le_of_ne (not_lt.mp hlt) (Ne.symm heq)
      · exact hhead x hx

/-- Store `v` under `k`. -/
def insert (m : OrdMap κ ν) (k : κ) (v : ν) : OrdMap κ ν :=
  ⟨insertEntry k v m.entries, sorted_insertEntry m.sorted⟩

/-- Remove the entry stored under `k`. -/
def erase (m : OrdMap κ ν) (k : κ) : OrdMap κ ν :=
  ⟨m.entries.filter fun e => decide (e.1 ≠ k), m.sorted.filter _⟩

/-- Change the value stored under `k` in place. -/
def modify (m : OrdMap κ ν) (k : κ) (f : ν → ν) : OrdMap κ ν :=
  ⟨m.entries.map fun e => if e.1 = k then (e.1, f e.2) else e, by
    rw [List.pairwise_map]
    refine m.sorted.imp fun {a b} hab => ?_
    split_ifs <;> exact hab⟩

/-- Change every value in place. -/
def mapValues (m : OrdMap κ ν) (f : ν → ν) : OrdMap κ ν :=
  ⟨m.entries.map fun e => (e.1, f e.2), List.pairwise_map.mpr m.sorted⟩

/-! ## Lookups -/

theorem find?_eq_some {m : OrdMap κ ν} {k : κ} {v : ν} :
    m.find? k = some v ↔ (k, v) ∈ m.entries := by
  obtain ⟨es, hs⟩ := m
  simp only [find?]
  induction es with
  | nil => simp
  | cons e es ih =>
    obtain ⟨hhead, htail⟩ := List.pairwise_cons.mp hs
    rw [List.find?_cons]
    by_cases hk : e.1 = k
    · simp only [hk, decide_true, Option.map_some, Option.some.injEq, List.mem_cons]
      constructor
      · intro hv
        exact Or.inl (Prod.ext hk.symm hv.symm)
      · rintro (h | h)
        · rw [← h]
        · exact absurd (hhead _ h) (hk ▸ lt_irrefl _)
    · simp only [hk, decide_false, ih htail, List.mem_cons]
      refine ⟨Or.inr, fun h => h.resolve_left fun h => hk ?_⟩
      rw [← h]

theorem find?_eq_none {m : OrdMap κ ν} {k : κ} :
    m.find? k = none ↔ ∀ v, (k, v) ∉ m.entries := by
  rw [← not_iff_not, ← ne_eq, Option.ne_none_iff_exists']
  simp only [find?_eq_some, not_forall, not_not]

theorem mem_keys {m : OrdMap κ ν} {k : κ} : k ∈ m.keys ↔ ∃ v, m.find? k = some v := by
  simp only [keys, List.mem_map, find?_eq_some, Prod.exists, exists_and_right, exists_eq_right]

theorem nodup_keys (m : OrdMap κ ν) : m.keys.Nodup :=
  List.pairwise_map.mpr (m.sorted.imp fun h => ne_of_lt h)

@[simp] theorem find?_empty (k : κ) : (empty : OrdMap κ ν).find? k = none := rfl

@[simp] theorem entries_empty : (empty : OrdMap κ ν).entries = [] := rfl

theorem find?_insert (m : OrdMap κ ν) (k : κ) (v : ν) (j : κ) :
    (m.insert k v).find? j = if j = k then some v else m.find? j := by
  obtain ⟨es, hs⟩ := m
  simp only [find?, insert]
  clear hs
  induction es with
  | nil =>
    by_cases hj : k = j
    · simp [insertEntry, hj]
    · simp [insertEntry, hj, Ne.symm hj]
  | cons e es ih =>
    unfold insertEntry
    by_cases hlt : k < e.1
    · rw [if_pos hlt, List.find?_cons]
      by_cases hj : k = j
      · simp [hj]
      · simp [hj, Ne.symm hj]
    rw [if_neg hlt]
    by_cases hke : k = e.1
    · rw [if_pos hke, List.find?_cons, List.find?_cons, ← hke]
      by_cases hj : k = j
      · simp [hj]
      · simp [hj, Ne.symm hj]
    rw [if_neg hke, List.find?_cons, List.find?_cons]
    by_cases hej : e.1 = j
    · have hjk : j ≠ k := fun h => hke (h ▸ hej.symm)
      simp [hej, hjk]
    · simp only [hej, decide_false]
      exact ih

@[simp] theorem find?_insert_self (m : OrdMap κ ν) (k : κ) (v : ν) :
    (m.insert k v).find? k = some v := by
  rw [find?_insert, if_pos rfl]

theorem find?_insert_ne (m : OrdMap κ ν) {k j : κ} (v : ν) (h : j ≠ k) :
    (m.insert k v).find? j = m.find? j := by
  rw [find?_insert, if_neg h]

theorem find?_erase (m : OrdMap κ ν) (k j : κ) :
    (m.erase k).find? j = if j = k then none else m.find? j := by
  split_ifs with h
  · rw [find?_eq_none]
    intro v hv
    simp [erase, h] at hv
  · cases hf : m.find? j with
    | none =>
      rw [find?_eq_none] at hf ⊢
      intro v hv
      exact hf v (List.mem_filter.mp hv).1
    | some v =>
      rw [find?_eq_some] at hf ⊢
      exact List.mem_filter.mpr ⟨hf, by simpa using h⟩

@[simp] theorem find?_erase_self (m : OrdMap κ ν) (k : κ) : (m.erase k).find? k = none := by
  rw [find?_erase, if_pos rfl]

theorem find?_erase_ne (m : OrdMap κ ν) {k j : κ} (h : j ≠ k) :
    (m.erase k).find? j = m.find? j := by
  rw [find?_erase, if_neg h]

theorem find?_modify (m : OrdMap κ ν) (k : κ) (f : ν → ν) (j : κ) :
    (m.modify k f).find? j = if j = k then (m.find? j).map f else m.find? j := by
  obtain ⟨es, hs⟩ := m
  simp only [find?, modify]
  clear hs
  induction es with
  | nil => simp
  | cons e es ih =>
    rw [List.map_cons, List.find?_cons, List.find?_cons]
    have hfst : (if e.1 = k then (e.1, f e.2) else e).1 = e.1 := by split_ifs <;> rfl
    rw [hfst]
    by_cases hej : e.1 = j
    · simp only [hej, decide_true, Option.map_some]
      split_ifs <;> rfl
    · simp only [hej, decide_false]
      exact ih

@[simp] theorem find?_modify_self (m : OrdMap κ ν) (k : κ) (f : ν → ν) :
    (m.modify k f).find? k = (m.find? k).map f := by
  rw [find?_modify, if_pos rfl]

theorem find?_modify_ne (m : OrdMap κ ν) {k j : κ} (f : ν → ν) (h : j ≠ k) :
    (m.modify k f).find? j = m.find? j := by
  rw [find?_modify, if_neg h]

@[simp] theorem keys_modify (m : OrdMap κ ν) (k : κ) (f : ν → ν) :
    (m.modify k f).keys = m.keys := by
  simp only [keys, modify, List.map_map]
  refine List.map_congr_left fun e _ => ?_
  simp only [Function.comp]
  split_ifs <;> rfl

@[simp] theorem find?_mapValues (m : OrdMap κ ν) (f : ν → ν) (k : κ) :
    (m.mapValues f).find? k = (m.find? k).map f := by
  simp only [find?, mapValues, List.find?_map, Option.map_map]
  rfl

@[simp] theorem keys_mapValues (m : OrdMap κ ν) (f : ν → ν) : (m.mapValues f).keys = m.keys := by
  simp only [keys, mapValues, List.map_map]
  rfl

/-! ## Extensionality -/

theorem nodup_of_sorted {es : List (κ × ν)} (h : es.Pairwise fun a b => a.1 < b.1) : es.Nodup :=
  h.imp fun hab heq => absurd hab (by rw [heq]; exact lt_irrefl _)

/-- Sorted entry lists with the same members are the same list. -/
theorem entries_ext {es fs : List (κ × ν)} (hes : es.Pairwise fun a b => a.1 < b.1)
    (hfs : fs.Pairwise fun a b => a.1 < b.1) (h : ∀ x, x ∈ es ↔ x ∈ fs) : es = fs := by
  have hperm : es.Perm fs :=
    (List.perm_ext_iff_of_nodup (nodup_of_sorted hes) (nodup_of_sorted hfs)).mpr h
  refine hperm.eq_of_pairwise (fun a b _ _ hab hba => ?_) hes hfs
  exact absurd (lt_trans hab hba) (lt_irrefl _)

/-- Maps with the same keys have them in the same order. -/
theorem keys_ext {μ : Type} {m : OrdMap κ ν} {n : OrdMap κ μ} (h : ∀ k, k ∈ m.keys ↔ k ∈ n.keys) :
    m.keys = n.keys := by
  have hperm : m.keys.Perm n.keys :=
    (List.perm_ext_iff_of_nodup m.nodup_keys n.nodup_keys).mpr h
  refine hperm.eq_of_pairwise (fun a b _ _ hab hba => ?_) (List.pairwise_map.mpr m.sorted)
    (List.pairwise_map.mpr n.sorted)
  exact absurd (lt_trans hab hba) (lt_irrefl _)

/-- A map is determined by its lookups. -/
theorem ext_find? {m n : OrdMap κ ν} (h : ∀ k, m.find? k = n.find? k) : m = n := by
  have hmem : ∀ x, x ∈ m.entries ↔ x ∈ n.entries := fun ⟨k, v⟩ => by
    rw [← find?_eq_some, ← find?_eq_some, h]
  cases m
  cases n
  congr 1
  exact entries_ext ‹_› ‹_› hmem

theorem erase_insert_ne (m : OrdMap κ ν) {k j : κ} (v : ν) (h : j ≠ k) :
    (m.insert k v).erase j = (m.erase j).insert k v := by
  refine ext_find? fun i => ?_
  simp only [find?_erase, find?_insert]
  split_ifs with h1 h2 h2
  · exact absurd (h1.symm.trans h2) h
  · rfl
  · rfl
  · rfl

theorem erase_comm (m : OrdMap κ ν) (j k : κ) : (m.erase j).erase k = (m.erase k).erase j := by
  refine ext_find? fun i => ?_
  simp only [find?_erase]
  split_ifs <;> rfl

theorem size_erase_le (m : OrdMap κ ν) (k : κ) : (m.erase k).size ≤ m.size :=
  List.length_filter_le _ _

/-- Entries without the key, which fail a test anyway, are not missed by a search. -/
theorem find?_entries_erase {m : OrdMap κ ν} {k : κ} {P Q : κ × ν → Bool}
    (hdrop : ∀ e ∈ m.entries, e.1 = k → P e = false)
    (hsame : ∀ e ∈ m.entries, e.1 ≠ k → Q e = P e) :
    (m.erase k).entries.find? Q = m.entries.find? P := by
  rw [erase, List.find?_filter]
  refine List.find?_congr fun e he => ?_
  by_cases hk : e.1 = k
  · simp [hk, hdrop e he hk]
  · simp [hk, hsame e he hk]

theorem countP_entries_erase_le {m : OrdMap κ ν} {k : κ} {P Q : κ × ν → Bool}
    (hsame : ∀ e ∈ m.entries, e.1 ≠ k → Q e = P e) :
    (m.erase k).entries.countP Q ≤ m.entries.countP P := by
  rw [erase, List.countP_filter]
  refine List.countP_mono_left fun e he htest => ?_
  rw [Bool.and_eq_true, decide_eq_true_eq] at htest
  rw [← hsame e he htest.2]
  exact htest.1

/-- Two changes of one value are one change. -/
theorem modify_modify (m : OrdMap κ ν) (k : κ) (f g : ν → ν) :
    (m.modify k f).modify k g = m.modify k fun v => g (f v) := by
  refine ext_find? fun j => ?_
  simp only [find?_modify]
  split_ifs
  · rw [Option.map_map]
    rfl
  · rfl

/-- Changes of different values commute, and so do a change and an erasure or an insertion elsewhere. -/
theorem modify_modify_ne (m : OrdMap κ ν) {k j : κ} (f g : ν → ν) (h : j ≠ k) :
    (m.modify k f).modify j g = (m.modify j g).modify k f := by
  refine ext_find? fun i => ?_
  simp only [find?_modify]
  split_ifs with hj hk
  · exact absurd (hj.symm.trans hk) h
  · rfl
  · rfl
  · rfl

theorem erase_modify_ne (m : OrdMap κ ν) {k j : κ} (f : ν → ν) (h : j ≠ k) :
    (m.modify k f).erase j = (m.erase j).modify k f := by
  refine ext_find? fun i => ?_
  simp only [find?_modify, find?_erase]
  split_ifs with hj hk
  · exact absurd (hj.symm.trans hk) h
  · rfl
  · rfl
  · rfl

theorem insert_modify_ne (m : OrdMap κ ν) {k j : κ} (f : ν → ν) (v : ν) (h : j ≠ k) :
    (m.modify k f).insert j v = (m.insert j v).modify k f := by
  refine ext_find? fun i => ?_
  simp only [find?_modify, find?_insert]
  split_ifs with hj hk
  · exact absurd (hj.symm.trans hk) h
  · rfl
  · rfl
  · rfl

/-- Only the value that is there matters for a change. -/
theorem modify_congr {m : OrdMap κ ν} {k : κ} {v : ν} {f g : ν → ν} (h : m.find? k = some v)
    (hfg : f v = g v) : m.modify k f = m.modify k g := by
  refine ext_find? fun j => ?_
  simp only [find?_modify]
  split_ifs with hj
  · rw [hj, h, Option.map_some, Option.map_some, hfg]
  · rfl

/-- A value changed right after it was stored is stored changed. -/
theorem modify_insert (m : OrdMap κ ν) (k : κ) (v : ν) (f : ν → ν) :
    (m.insert k v).modify k f = m.insert k (f v) := by
  refine ext_find? fun j => ?_
  simp only [find?_modify, find?_insert]
  split_ifs <;> rfl

theorem keys_erase (m : OrdMap κ ν) (k : κ) :
    (m.erase k).keys = m.keys.filter fun j => decide (j ≠ k) := by
  simp only [keys, erase, List.filter_map]
  rfl

/-- A new entry is the only change of the entries. -/
theorem entries_insert_perm {m : OrdMap κ ν} {k : κ} (h : m.find? k = none) (v : ν) :
    (m.insert k v).entries.Perm ((k, v) :: m.entries) := by
  have hk : (k, v) ∉ m.entries := find?_eq_none.mp h v
  refine (List.perm_ext_iff_of_nodup (nodup_of_sorted (m.insert k v).sorted)
    (List.nodup_cons.mpr ⟨hk, nodup_of_sorted m.sorted⟩)).mpr fun ⟨j, w⟩ => ?_
  rw [List.mem_cons, ← find?_eq_some, ← find?_eq_some, find?_insert, Prod.mk.injEq]
  by_cases hj : j = k
  · simp [hj, h, eq_comm]
  · simp [hj]

end OrdMap
