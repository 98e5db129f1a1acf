import FtIrc.Lib.OrdMap
import Mathlib.Logic.Function.Basic

/-!
# Maps to objects behind addresses

A map with the addresses of its values, and the objects that live there. An address outlives its
object if it has been copied out of the map; reading there finds nothing. `Holds` says which map
of values such a map stands for.
-/

/-- A map from keys to addresses, and the object at each address, if there is one. -/
structure PtrMap (κ ν : Type) [LinearOrder κ] where
  pointers : OrdMap κ ℕ
  object : ℕ → Option ν

namespace PtrMap

variable {κ ν : Type} [LinearOrder κ]

/-- Change the object at an address. -/
def modify (b : PtrMap κ ν) (p : ℕ) (f : ν → ν) : PtrMap κ ν :=
  { b with object := Function.update b.object p ((b.object p).map f) }

/-- Delete the object of a key, and then the key; there must be an object to delete. -/
def delete? (b : PtrMap κ ν) (k : κ) : Option (PtrMap κ ν) :=
  match b.pointers.find? k with
  | none => some b
  | some p => (b.object p).map fun _ =>
    { pointers := b.pointers.erase k, object := Function.update b.object p none }

@[simp] theorem pointers_modify (b : PtrMap κ ν) (p : ℕ) (f : ν → ν) :
    (b.modify p f).pointers = b.pointers := rfl

theorem object_modify (b : PtrMap κ ν) (p : ℕ) (f : ν → ν) (q : ℕ) :
    (b.modify p f).object q = if q = p then (b.object p).map f else b.object q :=
  Function.update_apply ..

/-- The addresses of the map are different and lead to the values of `m`. -/
structure Holds (b : PtrMap κ ν) (m : OrdMap κ ν) : Prop where
  keys : ∀ k, b.pointers.find? k = none → m.find? k = none
  object : ∀ k p, b.pointers.find? k = some p → ∃ v, b.object p = some v ∧ m.find? k = some v
  injective : ∀ j k p, b.pointers.find? j = some p → b.pointers.find? k = some p → j = k

namespace Holds

variable {b : PtrMap κ ν} {m : OrdMap κ ν} (h : b.Holds m) {k : κ} {p : ℕ} {v : ν}
include h

theorem ne_of_ne {j : κ} {q : ℕ} (hj : b.pointers.find? j = some q) (hp : b.pointers.find? k = some p)
    (hne : j ≠ k) : q ≠ p := by
  rintro rfl
  exact hne (h.injective j k q hj hp)

/-- To change an object is to change the value of its key. -/
theorem modify (hp : b.pointers.find? k = some p) (f : ν → ν) : (b.modify p f).Holds (m.modify k f) where
  keys j hj := by
    rw [pointers_modify] at hj
    have hjk : j ≠ k := by
      rintro rfl
      rw [hp] at hj
      cases hj
    rw [OrdMap.find?_modify_ne m f hjk]
    exact h.keys j hj
  object j q hj := by
    obtain ⟨v, hobject, hfind⟩ := h.object j q hj
    by_cases hjk : j = k
    · subst hjk
      obtain rfl := Option.some_inj.mp (hj.symm.trans hp)
      refine ⟨f v, ?_, ?_⟩
      · rw [object_modify, if_pos rfl, hobject, Option.map_some]
      · rw [OrdMap.find?_modify_self, hfind, Option.map_some]
    · refine ⟨v, ?_, ?_⟩
      · rw [object_modify, if_neg (h.ne_of_ne hj hp hjk), hobject]
      · rw [OrdMap.find?_modify_ne m f hjk, hfind]
  injective := h.injective

/-- To delete the object of a key is to erase the key. -/
theorem delete (hp : b.pointers.find? k = some p) :
    ∃ b', b.delete? k = some b' ∧ b'.Holds (m.erase k)
      ∧ ∀ j, j ≠ k → b'.pointers.find? j = b.pointers.find? j := by
  obtain ⟨v, hobject, hfind⟩ := h.object k p hp
  refine ⟨{ pointers := b.pointers.erase k, object := Function.update b.object p none }, ?_, ?_, ?_⟩
  · rw [delete?, hp]
    dsimp only
    rw [hobject, Option.map_some]
  · constructor
    · intro j hj
      by_cases hjk : j = k
      · rw [hjk, OrdMap.find?_erase_self]
      · rw [OrdMap.find?_erase_ne m hjk]
        exact h.keys j (by rwa [← OrdMap.find?_erase_ne b.pointers hjk])
    · intro j q hj
      have hjk : j ≠ k := by
        rintro rfl
        rw [OrdMap.find?_erase_self] at hj
        cases hj
      rw [OrdMap.find?_erase_ne _ hjk] at hj
      obtain ⟨w, hobject', hfind'⟩ := h.object j q hj
      refine ⟨w, ?_, ?_⟩
      · exact (Function.update_of_ne (h.ne_of_ne hj hp hjk) ..).trans hobject'
      · rw [OrdMap.find?_erase_ne m hjk, hfind']
    · intro i j q hi hj
      rw [OrdMap.find?_erase] at hi hj
      split_ifs at hi hj
      exact h.injective i j q hi hj
  · exact fun j hjk => OrdMap.find?_erase_ne _ hjk

/-- Addresses and values are in the same order. -/
theorem keys_eq : b.pointers.keys = m.keys := by
  refine OrdMap.keys_ext fun k => ?_
  rw [OrdMap.mem_keys, OrdMap.mem_keys]
  constructor
  · rintro ⟨p, hp⟩
    obtain ⟨v, _, hfind⟩ := h.object k p hp
    exact ⟨v, hfind⟩
  · rintro ⟨v, hfind⟩
    by_contra hnone
    rw [h.keys k (Option.eq_none_iff_forall_not_mem.mpr fun p hp => hnone ⟨p, hp⟩)] at hfind
    cases hfind

end Holds

end PtrMap
