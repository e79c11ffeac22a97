import Mathlib.Data.List.Basic

/-!
# Programs that lock non-reentrant mutexes

Library `Base`. One thread runs over data `σ` and holds mutexes named by `ι`. Locking
a mutex that the thread itself holds never returns: the program stops there with that
mutex as its error, and the data stay as they were. A specification fixes the mutexes
held before a program; a program that returns holds the same ones after it.
-/

namespace ExtQuiche.Base

universe u v

/-- The mutexes a thread holds, innermost first, and the data it works on. -/
structure Thread (ι : Type u) (σ : Type u) where
  held : List ι
  data : σ

/-- Programs of one thread; the error is the mutex on which it hangs. -/
abbrev Locking (ι : Type u) (σ : Type u) := EStateM ι (Thread ι σ)

namespace Locking

variable {ι σ α β : Type u}

/-- Read the data. -/
def getData : Locking ι σ σ := modifyGet fun t ↦ (t.data, t)

/-- The mutexes held now. -/
def getHeld : Locking ι σ (List ι) := modifyGet fun t ↦ (t.held, t)

/-- Change the data. -/
def modifyData (f : σ → σ) : Locking ι σ PUnit := modify fun t ↦ { t with data := f t.data }

/-- Acquire a mutex; on one that is held the thread hangs. -/
def lock [DecidableEq ι] (m : ι) : Locking ι σ PUnit := do
  let t ← get
  if m ∈ t.held then throw m else set { t with held := m :: t.held }

/-- Release a mutex. -/
def unlock [DecidableEq ι] (m : ι) : Locking ι σ PUnit :=
  modify fun t ↦ { t with held := t.held.erase m }

/-- A guard: the body runs with the mutex held. -/
def withLock [DecidableEq ι] (m : ι) (body : Locking ι σ α) : Locking ι σ α := do
  lock m
  let a ← body
  unlock m
  return a

/-- A thread without mutexes runs the program: the data after it, and the mutex it
hangs on if it does not return. -/
def exec (prog : Locking ι σ PUnit) (s : σ) : σ × Option ι :=
  match prog.run ⟨[], s⟩ with
  | .ok _ t => (t.data, none)
  | .error m t => (t.data, some m)

/-- From data with `P`, holding `held`, the program returns with `Q` and the same
mutexes, or hangs with `H`. -/
def Spec (held : List ι) (P : σ → Prop) (prog : Locking ι σ α) (Q : α → σ → Prop)
    (H : ι → σ → Prop) : Prop :=
  ∀ s, P s →
    match prog.run ⟨held, s⟩ with
    | .ok a t => t.held = held ∧ Q a t.data
    | .error m t => H m t.data

variable {held : List ι} {P : σ → Prop} {Q : α → σ → Prop} {H : ι → σ → Prop}

/-- A value is returned as it is. -/
theorem Spec.pure {a : α} (h : ∀ s, P s → Q a s) : Spec held P (pure a) Q H :=
  fun s hs ↦ ⟨rfl, h s hs⟩

/-- Programs in sequence. -/
theorem Spec.bind {R : β → σ → Prop} {prog : Locking ι σ α} {next : α → Locking ι σ β}
    (h : Spec held P prog Q H) (hn : ∀ a, Spec held (Q a) (next a) R H) :
    Spec held P (prog >>= next) R H := by
  intro s hs
  have hp := h s hs
  rw [EStateM.run_bind]
  cases he : prog.run ⟨held, s⟩ with
  | ok a t =>
    rw [he] at hp
    obtain ⟨hheld, hq⟩ := hp
    have hrest := hn a t.data hq
    rw [← hheld] at hrest ⊢
    exact hrest
  | error m t =>
    rw [he] at hp
    exact hp

/-- Reading the data. -/
theorem Spec.getData :
    Spec held P (Locking.getData : Locking ι σ σ) (fun a s ↦ a = s ∧ P s) H :=
  fun _ hs ↦ ⟨rfl, rfl, hs⟩

/-- A program that first reads the data, state by state. -/
theorem Spec.getData_bind {next : σ → Locking ι σ α}
    (h : ∀ s, P s → Spec held (· = s) (next s) Q H) :
    Spec held P (Locking.getData >>= next) Q H :=
  fun s hs ↦ h s hs s rfl

/-- Reading the mutexes held. -/
theorem Spec.getHeld :
    Spec held P (Locking.getHeld : Locking ι σ (List ι)) (fun a s ↦ a = held ∧ P s) H :=
  fun _ hs ↦ ⟨rfl, rfl, hs⟩

/-- Changing the data. -/
theorem Spec.modifyData {Q : PUnit → σ → Prop} {f : σ → σ} (h : ∀ s, P s → Q ⟨⟩ (f s)) :
    Spec held P (Locking.modifyData f : Locking ι σ PUnit) Q H :=
  fun s hs ↦ ⟨rfl, h s hs⟩

/-- Stronger before, weaker after. -/
theorem Spec.weaken {P' : σ → Prop} {Q' : α → σ → Prop} {H' : ι → σ → Prop}
    {prog : Locking ι σ α} (h : Spec held P prog Q H) (hP : ∀ s, P' s → P s)
    (hQ : ∀ a s, Q a s → Q' a s) (hH : ∀ m s, H m s → H' m s) : Spec held P' prog Q' H' := by
  intro s hs
  have hp := h s (hP s hs)
  split
  · next a t he =>
    rw [he] at hp
    exact ⟨hp.1, hQ a _ hp.2⟩
  · next m t he =>
    rw [he] at hp
    exact hH m _ hp

/-- Strengthening before. -/
theorem Spec.pre {P' : σ → Prop} {prog : Locking ι σ α} (h : Spec held P prog Q H)
    (hP : ∀ s, P' s → P s) : Spec held P' prog Q H :=
  h.weaken hP (fun _ _ hq ↦ hq) fun _ _ hh ↦ hh

/-- Weakening after a return. -/
theorem Spec.post {Q' : α → σ → Prop} {prog : Locking ι σ α} (h : Spec held P prog Q H)
    (hQ : ∀ a s, Q a s → Q' a s) : Spec held P prog Q' H :=
  h.weaken (fun _ hp ↦ hp) hQ fun _ _ hh ↦ hh

/-- A specification for each single state before. -/
theorem Spec.of_forall {prog : Locking ι σ α}
    (h : ∀ s, P s → Spec held (· = s) prog Q H) : Spec held P prog Q H :=
  fun s hs ↦ h s hs s rfl

/-- Two specifications of one program. -/
theorem Spec.and {P' : σ → Prop} {Q' : α → σ → Prop} {H' : ι → σ → Prop}
    {prog : Locking ι σ α} (h : Spec held P prog Q H) (h' : Spec held P' prog Q' H') :
    Spec held (fun s ↦ P s ∧ P' s) prog (fun a s ↦ Q a s ∧ Q' a s)
      (fun m s ↦ H m s ∧ H' m s) := by
  intro s hs
  have hp := h s hs.1
  have hp' := h' s hs.2
  split
  · next a t he =>
    rw [he] at hp hp'
    exact ⟨hp.1, hp.2, hp'.2⟩
  · next m t he =>
    rw [he] at hp hp'
    exact ⟨hp, hp'⟩

/-- A guarded body runs with the mutex held; on a held mutex the thread hangs. -/
theorem Spec.withLock [DecidableEq ι] {m : ι} {body : Locking ι σ α}
    (hfree : m ∉ held → Spec (m :: held) P body Q H) (hhang : m ∈ held → ∀ s, P s → H m s) :
    Spec held P (withLock m body) Q H := by
  intro s hs
  by_cases hm : m ∈ held
  · simpa [Locking.withLock, lock, hm] using hhang hm s hs
  · have hp := hfree hm s hs
    simp only [Locking.withLock, lock, unlock, EStateM.run_bind, EStateM.run_get, hm, if_false,
      EStateM.run_set]
    cases hb : body.run ⟨m :: held, s⟩ with
    | ok a t =>
      rw [hb] at hp
      obtain ⟨hheld, hq⟩ := hp
      simp [hheld, hq]
    | error m' t =>
      rw [hb] at hp
      exact hp

/-- A loop over a list, by an invariant on what is left of it. -/
theorem Spec.forM {I : List β → σ → Prop} {body : β → Locking ι σ PUnit}
    (h : ∀ b rest, Spec held (I (b :: rest)) (body b) (fun _ ↦ I rest) H) (bs : List β) :
    Spec held (I bs) (bs.forM body) (fun _ ↦ I []) H := by
  induction bs with
  | nil => exact .pure fun _ h ↦ h
  | cons b bs ih => exact .bind (h b bs) fun _ ↦ ih

/-- A loop whose body keeps a property for each element of the list. -/
theorem Spec.forM_mem {I : σ → Prop} {body : β → Locking ι σ PUnit} {bs : List β}
    (h : ∀ b ∈ bs, Spec held I (body b) (fun _ ↦ I) H) :
    Spec held I (bs.forM body) (fun _ ↦ I) H := by
  induction bs with
  | nil => exact .pure fun _ h ↦ h
  | cons b bs ih =>
    exact .bind (h b (List.mem_cons_self ..)) fun _ ↦
      ih fun b' hb' ↦ h b' (List.mem_cons_of_mem _ hb')

/-- Whatever a program does step by step, it does as a whole. -/
theorem Spec.exec {P : σ → Prop} {Q : PUnit → σ → Prop} {prog : Locking ι σ PUnit} {s : σ}
    (h : Spec [] P prog Q H) (hs : P s) :
    match (exec prog s).2 with
    | none => Q ⟨⟩ (exec prog s).1
    | some m => H m (exec prog s).1 := by
  have hp := h s hs
  unfold Locking.exec
  cases he : prog.run ⟨[], s⟩ with
  | ok a t =>
    rw [he] at hp
    exact hp.2
  | error m t =>
    rw [he] at hp
    exact hp

end Locking

end ExtQuiche.Base
