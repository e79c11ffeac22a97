import Mathlib.Data.List.Nodup
import Mathlib.Data.Set.Basic
import Mathlib.Logic.Function.Basic

/-!
# Ledger of issued items

Library `Base`. Items are issued one by one, each into a place of a store; some places
are live. Items are withdrawn from the store into a hand, and from the hand they are
settled for good. An item whose place is given to another one, or that is issued into a
place that is not live, is lost. A ledger in order says where every issued item is:
nothing is settled twice, and what is neither in a live place nor out of the store is
lost.
-/

namespace ExtQuiche.Base

universe u v

/-- Where the issued items are. -/
@[ext] structure Ledger (κ : Type u) (ι : Type v) where
  issued : Set ι
  store : κ → Option ι
  live : Set κ
  hand : List ι
  settled : List ι
  lost : Set ι

namespace Ledger

variable {κ : Type u} {ι : Type v}

/-- Items that have left the store, settled or in the hand. -/
def out (L : Ledger κ ι) : List ι := L.settled ++ L.hand

/-- The item is in a live place. -/
def Live (L : Ledger κ ι) (i : ι) : Prop := ∃ k ∈ L.live, L.store k = some i

/-- Every issued item is in one place only, and a lost one in no live place. -/
structure WF (L : Ledger κ ι) : Prop where
  stored_issued : ∀ k i, L.store k = some i → i ∈ L.issued
  out_issued : ∀ i ∈ L.out, i ∈ L.issued
  lost_issued : ∀ i ∈ L.lost, i ∈ L.issued
  stored_once : ∀ k k' i, L.store k = some i → L.store k' = some i → k = k'
  out_once : L.out.Nodup
  out_not_stored : ∀ i ∈ L.out, ∀ k, L.store k ≠ some i
  accounted : ∀ i ∈ L.issued, L.Live i ∨ i ∈ L.out ∨ i ∈ L.lost
  lost_gone : ∀ i ∈ L.lost, ¬ L.Live i ∧ i ∉ L.out

/-- An item is issued into a place; what the place held is lost. -/
def issue [DecidableEq κ] (L : Ledger κ ι) (k : κ) (i : ι) : Ledger κ ι :=
  { L with
    issued := {j | j ∈ L.issued ∨ j = i}
    store := Function.update L.store k (some i)
    lost := {j | j ∈ L.lost ∨ L.store k = some j ∨ (j = i ∧ k ∉ L.live)} }

open Classical in
/-- Items are withdrawn from their places into the hand. -/
noncomputable def withdraw (L : Ledger κ ι) (ks : Set κ) (is : List ι) : Ledger κ ι :=
  { L with
    store := fun k ↦ if k ∈ ks then none else L.store k
    hand := L.hand ++ is }

/-- The first item of the hand is settled. -/
def settle (L : Ledger κ ι) : Ledger κ ι :=
  match L.hand with
  | [] => L
  | i :: rest => { L with hand := rest, settled := L.settled ++ [i] }

/-- Other places are live. -/
def withLive (L : Ledger κ ι) (live : Set κ) : Ledger κ ι := { L with live }

/-- An empty ledger is in order. -/
theorem wf_empty (live : Set κ) : WF (⟨∅, fun _ ↦ none, live, [], [], ∅⟩ : Ledger κ ι) := by
  constructor <;> simp [out]

/-- Issuing a new item keeps the order. -/
theorem WF.issue [DecidableEq κ] {L : Ledger κ ι} (h : L.WF) (k : κ) {i : ι}
    (hi : i ∉ L.issued) : (L.issue k i).WF := by
  have hstore : ∀ k' j, (L.issue k i).store k' = some j →
      (k' = k ∧ j = i) ∨ (k' ≠ k ∧ L.store k' = some j) := by
    intro k' j hj
    rcases eq_or_ne k' k with rfl | hne
    · left; simpa [Ledger.issue, eq_comm] using hj
    · right; simpa [Ledger.issue, hne] using hj
  have hout : i ∉ L.out := fun hmem ↦ hi (h.out_issued i hmem)
  refine ⟨?_, fun j hj ↦ .inl (h.out_issued j hj), ?_, ?_, h.out_once, ?_, ?_, ?_⟩
  · intro k' j hj
    rcases hstore k' j hj with ⟨-, rfl⟩ | ⟨-, hj⟩
    · exact .inr rfl
    · exact .inl (h.stored_issued k' j hj)
  · rintro j (hj | hj | ⟨rfl, -⟩)
    · exact .inl (h.lost_issued j hj)
    · exact .inl (h.stored_issued k j hj)
    · exact .inr rfl
  · intro k₁ k₂ j h₁ h₂
    rcases hstore k₁ j h₁ with ⟨e₁, hj⟩ | ⟨-, hs₁⟩
    · rcases hstore k₂ j h₂ with ⟨e₂, -⟩ | ⟨-, hs₂⟩
      · rw [e₁, e₂]
      · exact absurd (h.stored_issued k₂ j hs₂) (hj ▸ hi)
    · rcases hstore k₂ j h₂ with ⟨-, hj⟩ | ⟨-, hs₂⟩
      · exact absurd (h.stored_issued k₁ j hs₁) (hj ▸ hi)
      · exact h.stored_once k₁ k₂ j hs₁ hs₂
  · intro j hj k' hk'
    rcases hstore k' j hk' with ⟨-, rfl⟩ | ⟨-, hk'⟩
    · exact hout hj
    · exact h.out_not_stored j hj k' hk'
  · rintro j (hj | rfl)
    · rcases h.accounted j hj with ⟨k', hlive, hk'⟩ | hj | hj
      · rcases eq_or_ne k' k with rfl | hne
        · exact .inr (.inr (.inr (.inl hk')))
        · exact .inl ⟨k', hlive, by simpa [Ledger.issue, hne] using hk'⟩
      · exact .inr (.inl hj)
      · exact .inr (.inr (.inl hj))
    · by_cases hk : k ∈ L.live
      · exact .inl ⟨k, hk, by simp [Ledger.issue]⟩
      · exact .inr (.inr (.inr (.inr ⟨rfl, hk⟩)))
  · rintro j hj
    have hgone : (j ∈ L.issued → ¬ L.Live j ∨ L.store k = some j) ∧ j ∉ L.out ∧
        (j = i → k ∉ L.live) := by
      rcases hj with hj | hj | ⟨rfl, hk⟩
      · refine ⟨fun _ ↦ .inl (h.lost_gone j hj).1, (h.lost_gone j hj).2, ?_⟩
        rintro rfl
        exact absurd (h.lost_issued j hj) hi
      · refine ⟨fun _ ↦ .inr hj, fun hmem ↦ h.out_not_stored j hmem k hj, ?_⟩
        rintro rfl
        exact absurd (h.stored_issued k j hj) hi
      · exact ⟨fun hj ↦ absurd hj hi, hout, fun _ ↦ hk⟩
    refine ⟨?_, hgone.2.1⟩
    rintro ⟨k', hlive, hk'⟩
    rcases hstore k' j hk' with ⟨rfl, rfl⟩ | ⟨hne, hk'⟩
    · exact hgone.2.2 rfl hlive
    · rcases hgone.1 (h.stored_issued k' j hk') with hno | hk
      · exact hno ⟨k', hlive, hk'⟩
      · exact hne (h.stored_once k' k j hk' hk)

/-- Withdrawing all items of some live places, each once, keeps the order. -/
theorem WF.withdraw {L : Ledger κ ι} (h : L.WF) {ks : Set κ} {is : List ι}
    (hlive : ∀ k ∈ ks, k ∈ L.live) (hnodup : is.Nodup)
    (his : ∀ i, i ∈ is ↔ ∃ k ∈ ks, L.store k = some i) : (L.withdraw ks is).WF := by
  have hstore : ∀ k i, (L.withdraw ks is).store k = some i ↔ k ∉ ks ∧ L.store k = some i := by
    intro k i
    simp [Ledger.withdraw]
  have hout : ∀ i, i ∈ (L.withdraw ks is).out ↔ i ∈ L.out ∨ i ∈ is := by
    intro i
    simp [Ledger.withdraw, out, or_assoc]
  refine ⟨?_, ?_, h.lost_issued, ?_, ?_, ?_, ?_, ?_⟩
  · exact fun k i hk ↦ h.stored_issued k i ((hstore k i).mp hk).2
  · intro i hi
    rcases (hout i).mp hi with hi | hi
    · exact h.out_issued i hi
    · obtain ⟨k, -, hk⟩ := (his i).mp hi
      exact h.stored_issued k i hk
  · exact fun k k' i hk hk' ↦ h.stored_once k k' i ((hstore k i).mp hk).2 ((hstore k' i).mp hk').2
  · have heq : (L.withdraw ks is).out = L.out ++ is := by
      simp [Ledger.withdraw, out]
    rw [heq, List.nodup_append]
    refine ⟨h.out_once, hnodup, ?_⟩
    rintro i hi j hj rfl
    obtain ⟨k, -, hk⟩ := (his i).mp hj
    exact h.out_not_stored i hi k hk
  · intro i hi k hk
    obtain ⟨hks, hk⟩ := (hstore k i).mp hk
    rcases (hout i).mp hi with hi | hi
    · exact h.out_not_stored i hi k hk
    · obtain ⟨k', hks', hk'⟩ := (his i).mp hi
      exact hks (h.stored_once k' k i hk' hk ▸ hks')
  · intro i hi
    rcases h.accounted i hi with ⟨k, hk, hki⟩ | hi | hi
    · by_cases hks : k ∈ ks
      · exact .inr (.inl ((hout i).mpr (.inr ((his i).mpr ⟨k, hks, hki⟩))))
      · exact .inl ⟨k, hk, (hstore k i).mpr ⟨hks, hki⟩⟩
    · exact .inr (.inl ((hout i).mpr (.inl hi)))
    · exact .inr (.inr hi)
  · intro i hi
    obtain ⟨hno, hni⟩ := h.lost_gone i hi
    refine ⟨?_, ?_⟩
    · rintro ⟨k, hk, hki⟩
      exact hno ⟨k, hk, ((hstore k i).mp hki).2⟩
    · intro hmem
      rcases (hout i).mp hmem with hmem | hmem
      · exact hni hmem
      · obtain ⟨k, hks, hk⟩ := (his i).mp hmem
        exact hno ⟨k, hlive k hks, hk⟩

/-- Settling moves nothing in or out of the store. -/
@[simp] theorem out_settle (L : Ledger κ ι) : L.settle.out = L.out := by
  unfold settle
  split
  · rfl
  · next i rest hhand => simp [out, hhand]

/-- Settling keeps the order. -/
theorem WF.settle {L : Ledger κ ι} (h : L.WF) : L.settle.WF := by
  have hout := L.out_settle
  have hrest : L.settle.issued = L.issued ∧ L.settle.store = L.store ∧
      L.settle.live = L.live ∧ L.settle.lost = L.lost := by
    unfold Ledger.settle
    split <;> exact ⟨rfl, rfl, rfl, rfl⟩
  obtain ⟨hissued, hstore, hlive, hlost⟩ := hrest
  refine ⟨?_, ?_, ?_, ?_, ?_, ?_, ?_, ?_⟩ <;>
    simp only [Live, hout, hissued, hstore, hlive, hlost]
  exacts [h.stored_issued, h.out_issued, h.lost_issued, h.stored_once, h.out_once,
    h.out_not_stored, h.accounted, h.lost_gone]

/-- Only places without items may become live or cease to be. -/
theorem WF.withLive {L : Ledger κ ι} (h : L.WF) {live : Set κ}
    (hlive : ∀ k i, L.store k = some i → (k ∈ live ↔ k ∈ L.live)) : (L.withLive live).WF := by
  have hsame : ∀ i, (L.withLive live).Live i ↔ L.Live i := by
    intro i
    constructor
    · rintro ⟨k, hk, hki⟩
      exact ⟨k, (hlive k i hki).mp hk, hki⟩
    · rintro ⟨k, hk, hki⟩
      exact ⟨k, (hlive k i hki).mpr hk, hki⟩
  refine ⟨h.stored_issued, h.out_issued, h.lost_issued, h.stored_once, h.out_once,
    h.out_not_stored, ?_, ?_⟩
  · intro i hi
    rw [hsame]
    exact h.accounted i hi
  · intro i hi
    rw [hsame]
    exact h.lost_gone i hi

/-- With an empty hand, every issued item is in a live place or settled exactly where
none is lost. -/
theorem WF.kept_iff {L : Ledger κ ι} (h : L.WF) (hhand : L.hand = []) :
    (∀ i ∈ L.issued, L.Live i ∨ i ∈ L.settled) ↔ ∀ i, i ∉ L.lost := by
  have hout : L.out = L.settled := by simp [out, hhand]
  constructor
  · intro hkept i hi
    obtain ⟨hno, hni⟩ := h.lost_gone i hi
    rw [hout] at hni
    rcases hkept i (h.lost_issued i hi) with hl | hs
    · exact hno hl
    · exact hni hs
  · intro hnone i hi
    rcases h.accounted i hi with hl | ho | hl
    · exact .inl hl
    · exact .inr (hout ▸ ho)
    · exact absurd hl (hnone i)

/-- Nothing is settled twice, and what is settled is not in the store. -/
theorem WF.settled_once {L : Ledger κ ι} (h : L.WF) : L.settled.Nodup :=
  (List.nodup_append.mp h.out_once).1

end Ledger

end ExtQuiche.Base
