import Mathlib.Logic.Function.Basic

/-!
# Items with exactly one holder

Library `Base`. Items come into use with one holder, move from holder to holder, and go
out of use. Whatever is in use then has exactly one holder: none leaks, and no two holders
believe the same item to be theirs.
-/

namespace ExtQuiche.Base

universe u v

/-- Whatever is in use has exactly one holder. -/
structure Custody {α : Type u} {ω : Type v} (used : α → Prop) (holds : ω → α → Prop) : Prop where
  used_iff : ∀ a, used a ↔ ∃ o, holds o a
  once : ∀ o o' a, holds o a → holds o' a → o = o'

namespace Custody

variable {α : Type u} {ω : Type v} {used used' : α → Prop} {holds holds' : ω → α → Prop}

/-- Nothing is in use. -/
theorem none (hused : ∀ a, ¬ used a) (hholds : ∀ o a, ¬ holds o a) : Custody used holds :=
  ⟨fun a ↦ ⟨fun h ↦ absurd h (hused a), fun ⟨o, h⟩ ↦ absurd h (hholds o a)⟩,
    fun o _ a h _ ↦ absurd h (hholds o a)⟩

/-- The same items with the same holders. -/
theorem congr (h : Custody used holds) (hused : ∀ a, used' a ↔ used a)
    (hholds : ∀ o a, holds' o a ↔ holds o a) : Custody used' holds' where
  used_iff a := by
    simp only [hused, hholds]
    exact h.used_iff a
  once o o' a ho ho' := h.once o o' a ((hholds o a).mp ho) ((hholds o' a).mp ho')

/-- An item that was not in use comes into use with one holder. -/
theorem take (h : Custody used holds) {x : α} {p : ω} (hx : ¬ used x)
    (hused : ∀ a, used' a ↔ used a ∨ a = x)
    (hholds : ∀ o a, holds' o a ↔ holds o a ∨ o = p ∧ a = x) : Custody used' holds' := by
  have hnew : ∀ o, ¬ holds o x := fun o ho ↦ hx ((h.used_iff x).mpr ⟨o, ho⟩)
  refine ⟨fun a ↦ ?_, fun o o' a ho ho' ↦ ?_⟩
  · simp only [hused, hholds, h.used_iff, exists_or, exists_eq_left]
  · rcases (hholds o a).mp ho with ho | ⟨rfl, rfl⟩
    · rcases (hholds o' a).mp ho' with ho' | ⟨-, rfl⟩
      · exact h.once o o' a ho ho'
      · exact absurd ho (hnew o)
    · rcases (hholds o' _).mp ho' with ho' | ⟨rfl, -⟩
      · exact absurd ho' (hnew o')
      · rfl

/-- An item goes out of use. -/
theorem drop (h : Custody used holds) {x : α} (hused : ∀ a, used' a ↔ used a ∧ a ≠ x)
    (hholds : ∀ o a, holds' o a ↔ holds o a ∧ a ≠ x) : Custody used' holds' where
  used_iff a := by
    simp only [hused, hholds, h.used_iff, exists_and_right]
  once o o' a ho ho' := h.once o o' a ((hholds o a).mp ho).1 ((hholds o' a).mp ho').1

/-- An item moves from its holder to another. -/
theorem move (h : Custody used holds) {x : α} {p q : ω} (hp : holds p x)
    (hused : ∀ a, used' a ↔ used a)
    (hholds : ∀ o a, holds' o a ↔ (holds o a ∧ a ≠ x) ∨ o = q ∧ a = x) : Custody used' holds' := by
  have hrest : Custody (fun a ↦ used a ∧ a ≠ x) (fun o a ↦ holds o a ∧ a ≠ x) :=
    h.drop (fun _ ↦ .rfl) fun _ _ ↦ .rfl
  refine hrest.take (x := x) (p := q) (fun hx ↦ hx.2 rfl) (fun a ↦ ?_) hholds
  rw [hused]
  by_cases ha : a = x
  · subst ha
    simp [(h.used_iff a).mpr ⟨p, hp⟩]
  · simp [ha]

end Custody

end ExtQuiche.Base
