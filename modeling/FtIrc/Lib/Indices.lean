import Mathlib.Data.List.Basic
import Mathlib.Data.List.Range

/-!
# Loops over indices

A loop `for (i = start; i < size; ++i)` that reads `xs[i]`, where a read past the end is `none`.
When every turn reads inside of the list, the loop computes what the fold over the elements does.
-/

/-- The values `i` takes in `for (i = start; i < size; ++i)`. -/
def indices (start size : ℕ) : List ℕ := List.range' start (size - start)

/-- Replace the elements of a list one after the other, each where it stands. -/
def replaceInPlace {α : Type*} (f : α → α) (xs : List α) : Option (List α) :=
  (indices 0 xs.length).foldlM (fun result i => (result[i]?).map fun a => result.set i (f a)) xs

namespace Indices

variable {α σ τ : Type*} {k n : ℕ} {xs : List α}

theorem indices_nil (h : n = k) : indices k n = [] := by
  rw [indices, h, Nat.sub_self]
  rfl

theorem indices_cons (h : k < n) : indices k n = k :: indices (k + 1) n := by
  have hsub : n - k = n - (k + 1) + 1 := by omega
  rw [indices, hsub, List.range'_succ]
  rfl

/-- A loop whose turns simulate those of a fold ends where the fold does. -/
theorem foldlM_simulates {R : σ → τ → Prop} {body : σ → ℕ → Option σ} {f : τ → α → τ}
    (hn : n = k + xs.length)
    (hbody : ∀ i a s t, xs[i]? = some a → R s t → ∃ s', body s (k + i) = some s' ∧ R s' (f t a))
    {s : σ} {t : τ} (h : R s t) :
    ∃ s', (indices k n).foldlM body s = some s' ∧ R s' (xs.foldl f t) := by
  induction xs generalizing k s t with
  | nil =>
    rw [indices_nil (k := k) hn]
    exact ⟨s, rfl, h⟩
  | cons a xs ih =>
    rw [List.length_cons] at hn
    obtain ⟨s', hs', h'⟩ := hbody 0 a s t rfl h
    have hrest := ih (k := k + 1) (by omega) (fun i b u v hb => by
      rw [Nat.add_assoc, Nat.add_comm 1 i]
      exact hbody (i + 1) b u v hb) h'
    rw [indices_cons (by omega), List.foldlM_cons]
    show ∃ s'', (body s (k + 0) >>= _) = some s'' ∧ _
    rw [hs']
    exact hrest

theorem foldlM_eq {body : σ → ℕ → Option σ} {f : σ → α → σ} (hn : n = k + xs.length)
    (hbody : ∀ i a s, xs[i]? = some a → body s (k + i) = some (f s a)) (s : σ) :
    (indices k n).foldlM body s = some (xs.foldl f s) := by
  obtain ⟨s', hs', rfl⟩ := foldlM_simulates (R := Eq) hn
    (fun i a s t ha hst => ⟨f s a, hbody i a s ha, congrArg (f · a) hst⟩) (rfl : s = s)
  exact hs'

theorem allM_eq {test : ℕ → Option Bool} {p : α → Bool} (hn : n = k + xs.length)
    (htest : ∀ i a, xs[i]? = some a → test (k + i) = some (p a)) :
    (indices k n).allM test = some (xs.all p) := by
  induction xs generalizing k with
  | nil =>
    rw [indices_nil (k := k) hn]
    rfl
  | cons a xs ih =>
    rw [List.length_cons] at hn
    have hrest := ih (k := k + 1) (by omega) fun i b hb => by
      rw [Nat.add_assoc, Nat.add_comm 1 i]
      exact htest (i + 1) b hb
    rw [indices_cons (by omega), List.allM, List.all_cons]
    show (test (k + 0) >>= _) = _
    rw [htest 0 a rfl]
    cases hp : p a with
    | true => exact hrest
    | false => rfl

theorem findSomeM?_eq {test : ℕ → Option (Option τ)} {g : α → Option τ} (hn : n = k + xs.length)
    (htest : ∀ i a, xs[i]? = some a → test (k + i) = some (g a)) :
    (indices k n).findSomeM? test = some (xs.findSome? g) := by
  induction xs generalizing k with
  | nil =>
    rw [indices_nil (k := k) hn]
    rfl
  | cons a xs ih =>
    rw [List.length_cons] at hn
    have hrest := ih (k := k + 1) (by omega) fun i b hb => by
      rw [Nat.add_assoc, Nat.add_comm 1 i]
      exact htest (i + 1) b hb
    rw [indices_cons (by omega), List.findSomeM?, List.findSome?_cons]
    show (test (k + 0) >>= _) = _
    rw [htest 0 a rfl]
    cases hg : g a with
    | some b => rfl
    | none => exact hrest

/-- Replacing all elements in place is mapping. -/
theorem replaceInPlace_eq (f : α → α) (xs : List α) : replaceInPlace f xs = some (xs.map f) := by
  have hgeneral : ∀ (front xs : List α) (n : ℕ), n = front.length + xs.length →
      (indices front.length n).foldlM (fun result i => (result[i]?).map fun a => result.set i (f a))
        (front ++ xs) = some (front ++ xs.map f) := by
    intro front xs n hn
    induction xs generalizing front with
    | nil =>
      rw [indices_nil (k := front.length) hn]
      rfl
    | cons a xs ih =>
      rw [List.length_cons] at hn
      have hread : (front ++ a :: xs)[front.length]? = some a := by simp
      have hwrite : (front ++ a :: xs).set front.length (f a) = (front ++ [f a]) ++ xs := by simp
      have hrest := ih (front ++ [f a]) (by simp; omega)
      rw [List.length_append] at hrest
      rw [indices_cons (by omega), List.foldlM_cons, hread]
      show (indices (front.length + 1) n).foldlM _ ((front ++ a :: xs).set front.length (f a)) = _
      rw [hwrite]
      simpa using hrest
  exact hgeneral [] xs xs.length (by simp)

end Indices
