import Mathlib.Data.Option.Basic

/-!
# Labelled machines, runs and invariants

Library `Base`. A machine is a partial step function over labels; every answer of
the environment is part of the label. Invariants are shown on one step and carried
to every reachable state; a side condition on the steps of a run is a relation
between the state before a step and its label.
-/

namespace ExtQuiche.Base

universe u v

/-- Initial states and a partial step: `none` where the label cannot happen. -/
structure Machine (σ : Type u) (ι : Type v) where
  init : σ → Prop
  step : σ → ι → Option σ

namespace Machine

variable {σ : Type u} {ι : Type v} (M : Machine σ ι)

/-- State after the labels of a run, in order. -/
def run (s : σ) : List ι → Option σ
  | [] => some s
  | l :: ls => (M.step s l).bind fun t ↦ run t ls

/-- Every step of the run meets `ok` in the state before it. -/
def Along (ok : σ → ι → Prop) : σ → List ι → Prop
  | _, [] => True
  | s, l :: ls => ok s l ∧
    match M.step s l with
    | none => True
    | some t => Along ok t ls

/-- A decidable condition is decided along a run. -/
instance decidableAlong (ok : σ → ι → Prop) [∀ s l, Decidable (ok s l)] :
    ∀ s ls, Decidable (M.Along ok s ls)
  | _, [] => .isTrue trivial
  | s, l :: ls =>
    match h : M.step s l with
    | none => decidable_of_iff (ok s l) (by simp [Along, h])
    | some t =>
      have := decidableAlong ok t ls
      decidable_of_iff (ok s l ∧ M.Along ok t ls) (by simp [Along, h])

/-- The machine that takes only the steps that meet `ok`. -/
def restrict (ok : σ → ι → Prop) [∀ s l, Decidable (ok s l)] : Machine σ ι where
  init := M.init
  step s l := if ok s l then M.step s l else none

/-- States reached from an initial one by steps that all meet `ok`. -/
inductive ReachableWhile (ok : σ → ι → Prop) : σ → Prop
  | init {s : σ} (h : M.init s) : ReachableWhile ok s
  | step {s t : σ} (l : ι) (hs : ReachableWhile ok s) (hl : ok s l)
      (ht : M.step s l = some t) : ReachableWhile ok t

/-- States reached from an initial one by any steps. -/
abbrev Reachable : σ → Prop := M.ReachableWhile fun _ _ ↦ True

/-- The empty run ends where it starts. -/
@[simp] theorem run_nil (s : σ) : M.run s [] = some s := rfl

/-- A run takes its first step, then the rest. -/
@[simp] theorem run_cons (s : σ) (l : ι) (ls : List ι) :
    M.run s (l :: ls) = (M.step s l).bind fun t ↦ M.run t ls := rfl

/-- Runs compose. -/
theorem run_append (s : σ) (ls ms : List ι) :
    M.run s (ls ++ ms) = (M.run s ls).bind fun t ↦ M.run t ms := by
  induction ls generalizing s with
  | nil => rfl
  | cons l ls ih =>
    rw [List.cons_append, run_cons, run_cons, Option.bind_assoc]
    congr 1
    funext t
    exact ih t

/-- The empty run meets every condition. -/
@[simp] theorem along_nil (ok : σ → ι → Prop) (s : σ) : M.Along ok s [] := trivial

/-- A run meets the condition when its first step and its rest do. -/
theorem along_cons {ok : σ → ι → Prop} {s t : σ} {l : ι} {ls : List ι}
    (ht : M.step s l = some t) : M.Along ok s (l :: ls) ↔ ok s l ∧ M.Along ok t ls := by
  simp [Along, ht]

/-- A step of the restricted machine is a step that meets the condition. -/
theorem restrict_step {ok : σ → ι → Prop} [∀ s l, Decidable (ok s l)] {s t : σ} {l : ι} :
    (M.restrict ok).step s l = some t ↔ ok s l ∧ M.step s l = some t := by
  simp [restrict]

variable {M}

/-- A weaker condition reaches at least as much. -/
theorem ReachableWhile.mono {ok ok' : σ → ι → Prop} (h : ∀ s l, ok s l → ok' s l)
    {s : σ} (hs : M.ReachableWhile ok s) : M.ReachableWhile ok' s := by
  induction hs with
  | init h0 => exact .init h0
  | step l _ hl ht ih => exact .step l ih (h _ _ hl) ht

/-- What holds initially and is kept by every admitted step holds wherever such
steps lead. The kept property may use that the state before is reached. -/
theorem ReachableWhile.invariant {ok : σ → ι → Prop} {I : σ → Prop}
    (h0 : ∀ s, M.init s → I s)
    (hstep : ∀ s l t, M.ReachableWhile ok s → I s → ok s l → M.step s l = some t → I t)
    {s : σ} (hs : M.ReachableWhile ok s) : I s := by
  induction hs with
  | init h => exact h0 _ h
  | step l hs hl ht ih => exact hstep _ l _ hs ih hl ht

/-- A run whose steps meet the condition stays among the states so reached. -/
theorem ReachableWhile.run {ok : σ → ι → Prop} {s t : σ} {ls : List ι}
    (hs : M.ReachableWhile ok s) (hok : M.Along ok s ls) (h : M.run s ls = some t) :
    M.ReachableWhile ok t := by
  induction ls generalizing s with
  | nil => cases h; exact hs
  | cons l ls ih =>
    obtain ⟨u, hu, ht⟩ := Option.bind_eq_some_iff.mp h
    rw [along_cons M hu] at hok
    exact ih (.step l hs hok.1 hu) hok.2 ht

/-- Every run from a reachable state ends in one. -/
theorem Reachable.run {s t : σ} {ls : List ι} (hs : M.Reachable s)
    (h : M.run s ls = some t) : M.Reachable t := by
  induction ls generalizing s with
  | nil => cases h; exact hs
  | cons l ls ih =>
    obtain ⟨u, hu, ht⟩ := Option.bind_eq_some_iff.mp h
    exact ih (.step l hs trivial hu) ht

/-- A property kept by every step, reached or not, is kept by every run. -/
theorem run_invariant {I : σ → Prop} (hstep : ∀ s l t, I s → M.step s l = some t → I t)
    {s t : σ} {ls : List ι} (hs : I s) (h : M.run s ls = some t) : I t := by
  induction ls generalizing s with
  | nil => cases h; exact hs
  | cons l ls ih =>
    obtain ⟨u, hu, ht⟩ := Option.bind_eq_some_iff.mp h
    exact ih (hstep s l u hs hu) ht

/-- Reachable states map to reachable states where every step maps to a step or to none. -/
theorem Reachable.map {τ : Type u} {κ : Type v} {M : Machine σ ι} {N : Machine τ κ} {f : σ → τ}
    (hinit : ∀ s, M.init s → N.init (f s))
    (hstep : ∀ s l t, M.step s l = some t → f t = f s ∨ ∃ k, N.step (f s) k = some (f t))
    {s : σ} (hs : M.Reachable s) : N.Reachable (f s) := by
  induction hs with
  | init h => exact .init (hinit _ h)
  | step l _ _ ht ih =>
    rcases hstep _ l _ ht with heq | ⟨k, hk⟩
    · exact heq ▸ ih
    · exact .step k ih trivial hk

end Machine

end ExtQuiche.Base
