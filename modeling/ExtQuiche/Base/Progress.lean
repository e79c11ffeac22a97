import ExtQuiche.Base.Machine

/-!
# Progress against an environment

Library `Base`. Some labels of a machine are the steps of one party, the others those of
its environment. The party is bound to reach a goal when it is never stuck on the way and
gets there by finitely many steps of its own, with any number of steps of the environment
before each of them.
-/

namespace ExtQuiche.Base.Machine

universe u v

variable {σ : Type u} {ι : Type v} (M : Machine σ ι)

/-- The environment alone leads from one state to the other. -/
inductive Meanwhile (mine : ι → Prop) (s : σ) : σ → Prop
  | now : Meanwhile mine s s
  | step {t u : σ} (l : ι) (ht : Meanwhile mine s t) (hl : ¬ mine l) (hu : M.step t l = some u) :
      Meanwhile mine s u

/-- The party is bound to reach the goal. -/
inductive Inevitable (mine : ι → Prop) (goal : σ → Prop) : σ → Prop
  | now {s : σ} (h : goal s) : Inevitable mine goal s
  | later {s : σ} (hcan : ∀ t, M.Meanwhile mine s t → ∃ l u, mine l ∧ M.step t l = some u)
      (hnext : ∀ t l u, M.Meanwhile mine s t → mine l → M.step t l = some u →
        Inevitable mine goal u) : Inevitable mine goal s

/-- What the party needs to reach the goal: inside its task it can always go on, its own
steps bring a measure down, and the environment does not bring it up again. -/
structure Descends (mine : ι → Prop) (goal inside : σ → Prop) (measure : σ → Nat) : Prop where
  can : ∀ s, inside s → ∃ l t, mine l ∧ M.step s l = some t
  own : ∀ s l t, inside s → mine l → M.step s l = some t →
    (goal t ∨ inside t) ∧ measure t < measure s
  env : ∀ s l t, inside s → ¬ mine l → M.step s l = some t → inside t ∧ measure t ≤ measure s

section

variable {M} {mine : ι → Prop} {goal inside : σ → Prop} {measure : σ → Nat}

/-- Without an environment every step is one of the party. -/
theorem Inevitable.next {s : σ} (hcan : ∃ l u, M.step s l = some u)
    (hnext : ∀ l u, M.step s l = some u → M.Inevitable (fun _ ↦ True) goal u) :
    M.Inevitable (fun _ ↦ True) goal s := by
  have hnow : ∀ t, M.Meanwhile (fun _ ↦ True) s t → t = s := by
    intro t ht
    cases ht with
    | now => rfl
    | step l _ hl _ => exact absurd trivial hl
  refine .later (fun t ht ↦ ?_) fun t l u ht _ hu ↦ ?_
  · rw [hnow t ht]
    obtain ⟨l, u, hu⟩ := hcan
    exact ⟨l, u, trivial, hu⟩
  · rw [hnow t ht] at hu
    exact hnext l u hu

/-- The environment neither ends the task nor raises the measure. -/
theorem Descends.meanwhile (h : M.Descends mine goal inside measure) {s t : σ} (hs : inside s)
    (ht : M.Meanwhile mine s t) : inside t ∧ measure t ≤ measure s := by
  induction ht with
  | now => exact ⟨hs, Nat.le_refl _⟩
  | step l ht hl hu ih =>
    obtain ⟨hin, hle⟩ := h.env _ l _ ih.1 hl hu
    exact ⟨hin, Nat.le_trans hle ih.2⟩

/-- A task whose measure descends reaches its goal. -/
theorem Descends.inevitable (h : M.Descends mine goal inside measure) {s : σ} (hs : inside s) :
    M.Inevitable mine goal s := by
  induction hm : measure s using Nat.strongRecOn generalizing s with
  | ind n ih =>
    subst hm
    refine .later (fun t ht ↦ h.can t (h.meanwhile hs ht).1) fun t l u ht hl hu ↦ ?_
    obtain ⟨hin, hle⟩ := h.meanwhile hs ht
    obtain ⟨hgoal | hu', hlt⟩ := h.own t l u hin hl hu
    · exact .now hgoal
    · exact ih _ (Nat.lt_of_lt_of_le hlt hle) hu' rfl

/-- One step costs the party at most one of its measure. -/
theorem Descends.step_le (h : M.Descends mine goal inside measure) [DecidablePred mine]
    {s t : σ} {l : ι} (hs : inside s) (ht : M.step s l = some t) :
    (if mine l then 1 else 0) + measure t ≤ measure s := by
  by_cases hl : mine l
  · have hlt := (h.own s l t hs hl ht).2
    rw [if_pos hl]
    omega
  · have hle := (h.env s l t hs hl ht).2
    rw [if_neg hl]
    omega

/-- On the way to the goal the party takes at most as many steps as the measure says. -/
theorem Descends.countP_le (h : M.Descends mine goal inside measure) [DecidablePred mine]
    {s t : σ} {ls : List ι} (hway : M.Along (fun u _ ↦ inside u) s ls)
    (hrun : M.run s ls = some t) : ls.countP (mine ·) + measure t ≤ measure s := by
  induction ls generalizing s with
  | nil =>
    cases hrun
    simp
  | cons l ls ih =>
    obtain ⟨u, hu, ht⟩ := Option.bind_eq_some_iff.mp hrun
    rw [along_cons M hu] at hway
    have hstep := h.step_le hway.1 hu
    have hrest := ih hway.2 ht
    rw [List.countP_cons]
    simp only [decide_eq_true_eq] at hrest ⊢
    omega

/-- As long as the goal is not reached, a run from inside the task stays inside. -/
theorem Descends.along (h : M.Descends mine goal inside measure) {s : σ} {ls : List ι}
    (hs : goal s ∨ inside s) (hway : M.Along (fun u _ ↦ ¬ goal u) s ls) :
    M.Along (fun u _ ↦ inside u) s ls := by
  induction ls generalizing s with
  | nil => trivial
  | cons l ls ih =>
    have hin : inside s := hs.resolve_left hway.1
    cases ht : M.step s l with
    | none => exact ⟨hin, by simp only [ht]⟩
    | some t =>
      rw [along_cons M ht] at hway ⊢
      refine ⟨hin, ih ?_ hway.2⟩
      by_cases hl : mine l
      · exact (h.own s l t hin hl ht).1
      · exact .inr (h.env s l t hin hl ht).1

end

end ExtQuiche.Base.Machine
