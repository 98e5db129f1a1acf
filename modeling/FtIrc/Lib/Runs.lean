import Mathlib.Logic.Relation
import Mathlib.Dynamics.FixedPoints.Basic

/-!
# Runs of a transition relation

Facts about `Relation.ReflTransGen`, the runs of a transition relation: where on a run
something must have changed, what every step preserves, and where a measure that goes down ends.
-/

namespace Relation

variable {σ : Type*} {R : σ → σ → Prop} {P : σ → Prop} {s t : σ}

/-- A property that fails at the start of a run and holds at its end came to hold in a step. -/
theorem ReflTransGen.exists_step_of_not (h : ReflTransGen R s t) (hs : ¬ P s) (ht : P t) :
    ∃ u v, ReflTransGen R s u ∧ R u v ∧ ReflTransGen R v t ∧ ¬ P u ∧ P v := by
  induction h with
  | refl => exact absurd ht hs
  | @tail u v hpath hstep ih =>
    by_cases hu : P u
    · obtain ⟨a, b, hsa, hab, hbu, ha, hb⟩ := ih hu
      exact ⟨a, b, hsa, hab, hbu.tail hstep, ha, hb⟩
    · exact ⟨u, v, hpath, hstep, .refl, hu, ht⟩

/-- The last such step: from then on the property holds. -/
theorem ReflTransGen.exists_last_step (h : ReflTransGen R s t) (hs : ¬ P s) (ht : P t) :
    ∃ u v, ReflTransGen R s u ∧ R u v ∧ ¬ P u ∧ P v
      ∧ ReflTransGen (fun a b => R a b ∧ P a ∧ P b) v t := by
  induction h with
  | refl => exact absurd ht hs
  | @tail u v hpath hstep ih =>
    by_cases hu : P u
    · obtain ⟨a, b, hsa, hab, ha, hb, hbu⟩ := ih hu
      exact ⟨a, b, hsa, hab, ha, hb, hbu.tail ⟨hstep, hu, ht⟩⟩
    · exact ⟨u, v, hpath, hstep, hu, ht, .refl⟩

/-- A property every step preserves holds along a run. -/
theorem ReflTransGen.preserves (h : ReflTransGen R s t) (hstep : ∀ u v, R u v → P u → P v)
    (hs : P s) : P t := by
  induction h with
  | refl => exact hs
  | tail _ huv ih => exact hstep _ _ huv ih

/-- Every step adds entries to a log. The log of a run fits its end, and each entry was justified by
the step that made it. -/
theorem ReflTransGen.exists_log {E : Type*} {L : σ → List E → Prop} {J : σ → σ → E → Prop}
    (h : ReflTransGen R s t) (hs : L s [])
    (hstep : ∀ u v l, ReflTransGen R s u → R u v → L u l →
      ∃ more, L v (l ++ more) ∧ ∀ e ∈ more, J u v e) :
    ∃ log, L t log ∧ ∀ e ∈ log, ∃ u v, ReflTransGen R s u ∧ R u v ∧ ReflTransGen R v t ∧ J u v e := by
  induction h with
  | refl => exact ⟨[], hs, fun _ he => absurd he List.not_mem_nil⟩
  | @tail u v hpath huv ih =>
    obtain ⟨log, hlog, hmade⟩ := ih
    obtain ⟨more, hmore, hmade'⟩ := hstep u v log hpath huv hlog
    refine ⟨log ++ more, hmore, fun e he => ?_⟩
    rcases List.mem_append.mp he with he | he
    · obtain ⟨a, b, hsa, hab, hbu, hJ⟩ := hmade e he
      exact ⟨a, b, hsa, hab, hbu.tail huv, hJ⟩
    · exact ⟨u, v, hpath, huv, .refl, hmade' e he⟩

end Relation

/-- A turn that changes something brings a measure down: after as many turns as the measure counts
no turn changes anything. -/
theorem Function.IsFixedPt.iterate_of_descends {σ : Type*} {f : σ → σ} {P : σ → Prop} {μ : σ → ℕ}
    (hkeep : ∀ x, P x → P (f x)) (hstep : ∀ x, P x → f x = x ∨ μ (f x) < μ x) {n : ℕ} {x : σ}
    (hx : P x) (hn : μ x ≤ n) : Function.IsFixedPt f (f^[n] x) := by
  induction n generalizing x with
  | zero =>
    rcases hstep x hx with hfixed | hless
    · exact hfixed
    · omega
  | succ n ih =>
    rw [Function.iterate_succ_apply]
    rcases hstep x hx with hfixed | hless
    · rw [hfixed, Function.iterate_fixed hfixed]
      exact hfixed
    · exact ih (hkeep x hx) (by omega)
