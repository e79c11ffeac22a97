import Mathlib.Data.List.Nodup
import Mathlib.Data.List.Perm.Basic
import Std.Data.ExtTreeMap

/-!
# Draining a map in an arbitrary order

Library `Base`. A hash map is drained in an order that its users cannot know. Here the
map is ordered and the order of a drain is an input: any permutation of the keys. An
order that is none stands for the order of the keys themselves, so that every input
names an order.
-/

namespace ExtQuiche.Base

universe u v

open Std

variable {κ : Type u} {β : Type v} [Ord κ] [TransOrd κ] [DecidableEq κ]

/-- Entries of a map as a drain in the given order yields them. -/
def drainInOrder (m : ExtTreeMap κ β) (order : List κ) : List (κ × β) :=
  if order.Perm m.keys then order.filterMap fun k ↦ m[k]?.map fun v ↦ (k, v) else m.toList

/-- A drain yields the entries of the map. -/
@[simp] theorem mem_drainInOrder [LawfulEqOrd κ] {m : ExtTreeMap κ β} {order : List κ} {k : κ} {v : β} :
    (k, v) ∈ drainInOrder m order ↔ m[k]? = some v := by
  unfold drainInOrder
  split
  · next hperm =>
    simp only [List.mem_filterMap, Option.map_eq_some_iff, Prod.mk.injEq]
    constructor
    · rintro ⟨k', -, v', hv, rfl, rfl⟩
      exact hv
    · intro hv
      have hk : k ∈ order := by
        rw [hperm.mem_iff, ExtTreeMap.mem_keys]
        exact ExtTreeMap.mem_iff_isSome_getElem?.mpr (by simp [hv])
      exact ⟨k, hk, v, hv, rfl, rfl⟩
  · exact ExtTreeMap.mem_toList_iff_getElem?_eq_some

/-- A drain yields every key once. -/
theorem nodup_drainInOrder (m : ExtTreeMap κ β) (order : List κ) :
    ((drainInOrder m order).map Prod.fst).Nodup := by
  unfold drainInOrder
  split
  · next hperm =>
    have hfilter : (order.filterMap fun k ↦ m[k]?.map fun v ↦ (k, v)).map Prod.fst =
        order.filter fun k ↦ m[k]?.isSome := by
      rw [List.map_filterMap, ← List.filterMap_eq_filter]
      congr 1
      funext k
      cases h : m[k]? <;> simp [Option.guard, h]
    rw [hfilter]
    exact (hperm.nodup_iff.mpr ExtTreeMap.nodup_keys).filter _
  · rw [ExtTreeMap.map_fst_toList_eq_keys]
    exact ExtTreeMap.nodup_keys

end ExtQuiche.Base
