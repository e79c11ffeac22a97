import Mathlib.Algebra.Group.Nat.Defs
import Mathlib.Logic.Function.Basic

/-!
# Eventfds

Library `Host`. The functions of `src/timer.rs:3–17` and the kernel they call. A descriptor
refers to an eventfd, which lives as long as a descriptor refers to it; a write adds to its
counter and a read takes the whole counter. Which free descriptor the kernel gives out is
its own choice.
-/

namespace ExtQuiche.Host

/-- File descriptors, `c_int`. -/
abbrev Fd := Int32

/-- The counter of an eventfd goes no further; a write that would is refused. -/
def EVENTFD_MAX : Nat := 2 ^ 64 - 2

/-- Descriptor table of the process, and the eventfds by number. -/
structure Kernel where
  files : Fd → Option Nat
  counter : Nat → Nat
  nextFile : Nat

namespace Kernel

/-- Nothing is open. -/
def empty : Kernel := ⟨fun _ ↦ none, fun _ ↦ 0, 0⟩

/-- The kernel may give out the descriptor. -/
def Unused (k : Kernel) (fd : Fd) : Prop := 0 ≤ fd ∧ k.files fd = none

instance (k : Kernel) (fd : Fd) : Decidable (k.Unused fd) := inferInstanceAs (Decidable (_ ∧ _))

/-- `eventfd(0, EFD_NONBLOCK)`: a new eventfd under the descriptor `pick`, or `-1`. -/
def eventfd (k : Kernel) : Option Fd → Option (Kernel × Fd)
  | none => some (k, -1)
  | some pick =>
    if k.Unused pick then
      some ({ files := Function.update k.files pick (some k.nextFile)
              counter := Function.update k.counter k.nextFile 0
              nextFile := k.nextFile + 1 }, pick)
    else none

/-- `dup(fd)`: the same eventfd under the descriptor `pick`, or `-1`. -/
def dup (k : Kernel) (fd : Fd) : Option Fd → Option (Kernel × Fd)
  | none => some (k, -1)
  | some pick =>
    (k.files fd).bind fun file ↦
      if k.Unused pick then
        some ({ k with files := Function.update k.files pick (some file) }, pick)
      else none

/-- `write(fd, &1, 8)`, its result ignored. -/
def write (k : Kernel) (fd : Fd) : Kernel :=
  match k.files fd with
  | some file =>
    if k.counter file < EVENTFD_MAX then
      { k with counter := Function.update k.counter file (k.counter file + 1) }
    else k
  | none => k

/-- `read(fd, .., 8)`; `none` while there is nothing to read. -/
def read (k : Kernel) (fd : Fd) : Option (Kernel × Nat) :=
  (k.files fd).bind fun file ↦
    if 0 < k.counter file then
      some ({ k with counter := Function.update k.counter file 0 }, k.counter file)
    else none

/-- `close(fd)`, its result ignored. -/
def close (k : Kernel) (fd : Fd) : Kernel :=
  { k with files := Function.update k.files fd none }

/-- `drop` of an `Option<EventFd>` closes its descriptor. -/
def dropEventFd (k : Kernel) : Option Fd → Kernel
  | some fd => k.close fd
  | none => k

end Kernel

/-- `src/timer.rs:3–6`. -/
def networkEventfdCreate (k : Kernel) (pick : Option Fd) : Option (Kernel × Int64) :=
  (k.eventfd pick).map fun r ↦ (r.1, r.2.toInt64)

/-- `src/timer.rs:8–12`. -/
def networkEventfdSignal (k : Kernel) (fd : Int64) : Kernel := k.write fd.toInt32

/-- `src/timer.rs:14–17`. -/
def networkEventfdClose (k : Kernel) (fd : Int64) : Kernel := k.close fd.toInt32

section

variable {k k' : Kernel} {fd : Fd}

/-- A descriptor goes through PHP's integers unchanged. -/
theorem toInt32_create {pick : Option Fd} {id : Int64}
    (h : networkEventfdCreate k pick = some (k', id)) :
    ∃ fd, k.eventfd pick = some (k', fd) ∧ id.toInt32 = fd := by
  obtain ⟨⟨k'', fd⟩, hk, heq⟩ := Option.map_eq_some_iff.mp h
  cases heq
  exact ⟨fd, hk, by simp⟩

/-- An eventfd is created under an unused descriptor, or not at all. -/
theorem Kernel.eventfd_eq_some {pick : Option Fd} (h : k.eventfd pick = some (k', fd)) :
    (k' = k ∧ pick = none) ∨ k.Unused fd ∧ pick = some fd ∧ k' =
      { files := Function.update k.files fd (some k.nextFile)
        counter := Function.update k.counter k.nextFile 0
        nextFile := k.nextFile + 1 } := by
  unfold Kernel.eventfd at h
  split at h
  · cases h
    exact .inl ⟨rfl, rfl⟩
  · next pick =>
    split at h
    · next hunused =>
      cases h
      exact .inr ⟨hunused, rfl, rfl⟩
    · cases h

/-- A descriptor is duplicated under an unused one, or not at all. -/
theorem Kernel.dup_eq_some {old : Fd} {pick : Option Fd} (h : k.dup old pick = some (k', fd)) :
    (k' = k ∧ fd = -1) ∨ k.Unused fd ∧ ∃ file, k.files old = some file ∧
      k' = { k with files := Function.update k.files fd (some file) } := by
  unfold Kernel.dup at h
  split at h
  · cases h
    exact .inl ⟨rfl, rfl⟩
  · obtain ⟨file, hfile, h⟩ := Option.bind_eq_some_iff.mp h
    split at h
    · next hunused =>
      cases h
      exact .inr ⟨hunused, file, hfile, rfl⟩
    · cases h

/-- A read takes the whole counter of an eventfd that has been written. -/
theorem Kernel.read_eq_some {v : Nat} (h : k.read fd = some (k', v)) :
    ∃ file, k.files fd = some file ∧ 0 < v ∧ v = k.counter file ∧
      k' = { k with counter := Function.update k.counter file 0 } := by
  obtain ⟨file, hfile, h⟩ := Option.bind_eq_some_iff.mp h
  split at h
  · next hpos =>
    cases h
    exact ⟨file, hfile, hpos, rfl, rfl⟩
  · cases h

/-- A write changes no descriptor and brings no counter down. -/
theorem Kernel.write_files (k : Kernel) (fd : Fd) :
    (k.write fd).files = k.files ∧ (k.write fd).nextFile = k.nextFile ∧
      ∀ file, k.counter file ≤ (k.write fd).counter file := by
  unfold Kernel.write
  split
  · next file hfile =>
    split
    · refine ⟨rfl, rfl, fun other ↦ ?_⟩
      by_cases ho : other = file
      · subst ho
        simp
      · simp [ho]
    · exact ⟨rfl, rfl, fun _ ↦ Nat.le_refl _⟩
  · exact ⟨rfl, rfl, fun _ ↦ Nat.le_refl _⟩

end

end ExtQuiche.Host
