import ExtQuiche.Base.Machine

/-!
# Machines with an account of their runs

Library `Base`. What a statement about runs needs to remember beyond the state is kept in
an account, a function of the steps so far. The account never blocks a step and is not
looked at by one, so the machine with it has the same runs.
-/

namespace ExtQuiche.Base

universe u v

/-- An account of runs: what it is initially, and what a step adds to it. -/
structure Account (σ : Type u) (ι : Type v) (η : Type u) where
  start : η
  add : η → σ → ι → σ → η

namespace Machine

variable {σ η : Type u} {ι : Type v} {M : Machine σ ι} {A : Account σ ι η}

/-- The machine that keeps the account beside its state. -/
def withAccount (M : Machine σ ι) (A : Account σ ι η) : Machine (σ × η) ι where
  init p := M.init p.1 ∧ p.2 = A.start
  step p l := (M.step p.1 l).map fun t ↦ (t, A.add p.2 p.1 l t)

/-- A step of the machine, and its entry in the account. -/
theorem withAccount_step {s t : σ} {a b : η} {l : ι} :
    (M.withAccount A).step (s, a) l = some (t, b) ↔ M.step s l = some t ∧ A.add a s l t = b := by
  constructor
  · intro h
    obtain ⟨u, hu, heq⟩ := Option.map_eq_some_iff.mp h
    cases heq
    exact ⟨hu, rfl⟩
  · rintro ⟨ht, rfl⟩
    exact Option.map_eq_some_iff.mpr ⟨t, ht, rfl⟩

/-- Without its account, a run is a run of the machine. -/
theorem ReachableWhile.forget {ok : σ × η → ι → Prop} {p : σ × η}
    (h : (M.withAccount A).ReachableWhile ok p) : M.Reachable p.1 := by
  induction h with
  | init h => exact .init h.1
  | step l _ _ ht ih => exact .step l ih trivial (withAccount_step.mp ht).1

/-- It is one whose steps meet what does not look at the account. -/
theorem ReachableWhile.forget_account {ok : σ → ι → Prop} {p : σ × η}
    (h : (M.withAccount A).ReachableWhile (fun p l ↦ ok p.1 l) p) : M.ReachableWhile ok p.1 := by
  induction h with
  | init h => exact .init h.1
  | step l _ hl ht ih => exact .step l ih hl (withAccount_step.mp ht).1

/-- What holds initially and is kept by every step and its entry in the account holds wherever
such steps lead. -/
theorem ReachableWhile.account_invariant {ok : σ × η → ι → Prop} {I : σ → η → Prop}
    (h0 : ∀ s, M.init s → I s A.start)
    (hstep : ∀ s a l t, (M.withAccount A).ReachableWhile ok (s, a) → I s a → ok (s, a) l →
      M.step s l = some t → I t (A.add a s l t))
    {s : σ} {a : η} (h : (M.withAccount A).ReachableWhile ok (s, a)) : I s a := by
  apply h.invariant (I := fun p ↦ I p.1 p.2)
  · rintro ⟨s, a⟩ ⟨hs, rfl⟩
    exact h0 s hs
  · rintro ⟨s, a⟩ l ⟨t, b⟩ hreach hI hok ht
    obtain ⟨hs, rfl⟩ := withAccount_step.mp ht
    exact hstep s a l t hreach hI hok hs

end Machine

end ExtQuiche.Base
