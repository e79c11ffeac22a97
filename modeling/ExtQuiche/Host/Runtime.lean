import ExtQuiche.Base.Custody
import ExtQuiche.Base.Machine
import ExtQuiche.Base.Radix
import Mathlib.Algebra.Group.Nat.Defs
import Mathlib.Logic.Function.Basic

/-!
# The shared runtime

Library `Host`. `src/quiche/runtime.rs` and the errors of `src/quiche/error.rs:7–29`. All
threads share one `OnceLock`. A call of `get_runtime` is up to four steps: it looks at the
cell, builds a runtime of its own, offers it to the cell and looks again; the calls of any
number of threads interleave.
-/

namespace ExtQuiche.Host
open ExtQuiche.Base

/-- `src/quiche/error.rs:7–23`. -/
inductive QuicheError where
  | runtimeInit (source : String)
  | status (code : Int32) (message : String)
  | invalidArg (text : String)
  | invalidUri (text : String)
  | callbackFailed (text : String)
  deriving DecidableEq

/-- Texts of the errors, `src/quiche/error.rs:8–22`. -/
def QuicheError.message : QuicheError → String
  | .runtimeInit source => "failed to initialize tokio runtime: " ++ source
  | .status code message => "gRPC status " ++ toString code ++ ": " ++ message
  | .invalidArg text => "invalid argument: " ++ text
  | .invalidUri text => "invalid URI: " ++ text
  | .callbackFailed text => "callback failed: " ++ text

/-- `src/quiche/runtime.rs:13`. -/
def MIN_WORKER_THREADS : Nat := 2

/-- Values of `usize`. -/
def USIZE_VALUES : Nat := 2 ^ 64

/-- What `worker_thread_count` finds: the variable `QUICHE_WORKER_THREADS` where it can be read,
and the available parallelism where it is known. -/
structure WorkerEnv where
  var : Option String
  parallelism : Option Nat

/-- `s.parse::<usize>()` with `n >= 1`, `src/quiche/runtime.rs:22–24`. -/
def parsePositive (s : String) : Option Nat :=
  (fromStrRadix 10 USIZE_VALUES s.toList).filter (1 ≤ ·)

/-- `src/quiche/runtime.rs:20–35`. -/
def workerThreadCount (env : WorkerEnv) : Nat :=
  match env.var.bind parsePositive with
  | some n => n
  | none =>
    match env.parallelism with
    | some n => max n MIN_WORKER_THREADS
    | none => MIN_WORKER_THREADS

/-- A numeral without sign of a positive `usize`. -/
structure Positive (cs : List Char) (n : Nat) : Prop where
  spelled : cs ≠ [] ∧ ∃ ds, Spells 10 cs ds ∧ valueFrom 10 0 ds = n
  range : 1 ≤ n ∧ n < USIZE_VALUES

/-- The variable counts exactly where it is a numeral of a positive `usize`, also with a plus
sign or zeros in front; any other value counts as none, which leaves at least two worker
threads. `src/quiche/runtime.rs:10–35`. -/
theorem workerThreadCount_spec (env : WorkerEnv) :
    (∀ s cs n, env.var = some s → (s.toList = cs ∨ s.toList = '+' :: cs) → Positive cs n →
      workerThreadCount env = n) ∧
    ((∀ s cs n, env.var = some s → (s.toList = cs ∨ s.toList = '+' :: cs) → ¬ Positive cs n) →
      workerThreadCount env = workerThreadCount { env with var := none } ∧
        MIN_WORKER_THREADS ≤ workerThreadCount env) := by
  have hparse : ∀ s n, parsePositive s = some n ↔
      ∃ cs, (s.toList = cs ∨ s.toList = '+' :: cs) ∧ Positive cs n := by
    intro s n
    rw [parsePositive, Option.filter_eq_some_iff,
      fromStrRadix_eq_some_iff (by decide) (by decide) (by decide)]
    constructor
    · rintro ⟨⟨cs, ds, hs, hne, hspells, hvalue, hn⟩, hpos⟩
      exact ⟨cs, hs, ⟨hne, ds, hspells, hvalue⟩, of_decide_eq_true hpos, hn⟩
    · rintro ⟨cs, hs, ⟨hne, ds, hspells, hvalue⟩, hpos, hn⟩
      exact ⟨⟨cs, ds, hs, hne, hspells, hvalue, hn⟩, decide_eq_true hpos⟩
  constructor
  · intro s cs n hvar hs hpos
    have hsome : env.var.bind parsePositive = some n := by
      rw [hvar, Option.bind_some]
      exact (hparse s n).mpr ⟨cs, hs, hpos⟩
    rw [workerThreadCount, hsome]
  · intro hno
    have hnone : env.var.bind parsePositive = none := by
      rw [Option.eq_none_iff_forall_ne_some]
      intro n hn
      obtain ⟨s, hvar, hn⟩ := Option.bind_eq_some_iff.mp hn
      obtain ⟨cs, hs, hpos⟩ := (hparse s n).mp hn
      exact hno s cs n hvar hs hpos
    have hunset : workerThreadCount env = workerThreadCount { env with var := none } := by
      rw [workerThreadCount, hnone]
      rfl
    refine ⟨hunset, ?_⟩
    rw [workerThreadCount, hnone]
    cases env.parallelism with
    | none => exact Nat.le_refl _
    | some n => exact Nat.le_max_right ..

/-- A runtime that has been built. -/
structure Runtime where
  id : Nat
  workers : Nat
  deriving DecidableEq

/-- Where a call of `get_runtime` stands. -/
inductive RuntimeCall where
  /-- At the first `RUNTIME.get()`, `src/quiche/runtime.rs:38`. -/
  | get
  /-- At `build()`, `src/quiche/runtime.rs:42–50`. -/
  | build
  /-- At `RUNTIME.set(rt)`, `src/quiche/runtime.rs:53`. -/
  | set (rt : Runtime)
  /-- At the second `RUNTIME.get()`, `src/quiche/runtime.rs:54–56`. -/
  | getAgain
  | returned (r : Except QuicheError Runtime)
  deriving DecidableEq

/-- The cell, the calls of the threads, and the runtimes that have been dropped. -/
structure RuntimeCell where
  cell : Option Runtime
  calls : Nat → RuntimeCall
  nextId : Nat
  dropped : List Runtime

/-- A thread goes on with its call; `build` comes with what the thread finds. -/
inductive RuntimeLabel where
  | call (thread : Nat)
  | get (thread : Nat)
  | build (thread : Nat) (env : WorkerEnv) (answer : Except String Unit)
  | set (thread : Nat)
  | getAgain (thread : Nat)

namespace RuntimeCell

/-- A thread's call stands elsewhere. -/
def goes (s : RuntimeCell) (thread : Nat) (call : RuntimeCall) : RuntimeCell :=
  { s with calls := Function.update s.calls thread call }

/-- `OnceLock::set`: a full cell keeps its value, and the new one is dropped. -/
def offer (s : RuntimeCell) (rt : Runtime) : RuntimeCell :=
  match s.cell with
  | none => { s with cell := some rt }
  | some _ => { s with dropped := s.dropped ++ [rt] }

/-- `src/quiche/runtime.rs:37–57`, one step of one thread. -/
def step (s : RuntimeCell) : RuntimeLabel → Option RuntimeCell
  | .call t =>
    match s.calls t with
    | .returned _ => some (s.goes t .get)
    | _ => none
  | .get t =>
    match s.calls t, s.cell with
    | .get, some rt => some (s.goes t (.returned (.ok rt)))
    | .get, none => some (s.goes t .build)
    | _, _ => none
  | .build t env answer =>
    match s.calls t, answer with
    | .build, .ok _ =>
      some { s.goes t (.set ⟨s.nextId, workerThreadCount env⟩) with nextId := s.nextId + 1 }
    | .build, .error e => some (s.goes t (.returned (.error (.runtimeInit e))))
    | _, _ => none
  | .set t =>
    match s.calls t with
    | .set rt => some ((s.offer rt).goes t .getAgain)
    | _ => none
  | .getAgain t =>
    match s.calls t, s.cell with
    | .getAgain, some rt => some (s.goes t (.returned (.ok rt)))
    | .getAgain, none => some (s.goes t (.returned (.error (.runtimeInit "runtime init failed"))))
    | _, _ => none

/-- No runtime yet, every thread before its first call. -/
def Init (s : RuntimeCell) : Prop := s = ⟨none, fun _ ↦ .get, 0, []⟩

end RuntimeCell

/-- Runs of any number of threads. -/
def runtimeCell : Machine RuntimeCell RuntimeLabel := ⟨RuntimeCell.Init, RuntimeCell.step⟩

/-- What a step of a thread can do. -/
inductive Proceeds (s : RuntimeCell) : RuntimeLabel → RuntimeCell → Prop where
  | called (t : Nat) (r : Except QuicheError Runtime) (ht : s.calls t = .returned r) :
      Proceeds s (.call t) (s.goes t .get)
  | found (t : Nat) (rt : Runtime) (l : RuntimeLabel)
      (ht : s.calls t = .get ∨ s.calls t = .getAgain) (hcell : s.cell = some rt) :
      Proceeds s l (s.goes t (.returned (.ok rt)))
  | missed (t : Nat) (ht : s.calls t = .get) : Proceeds s (.get t) (s.goes t .build)
  | built (t : Nat) (env : WorkerEnv) (ht : s.calls t = .build) :
      Proceeds s (.build t env (.ok ⟨⟩))
        { s.goes t (.set ⟨s.nextId, workerThreadCount env⟩) with nextId := s.nextId + 1 }
  | failed (t : Nat) (env : WorkerEnv) (e : String) (ht : s.calls t = .build) :
      Proceeds s (.build t env (.error e)) (s.goes t (.returned (.error (.runtimeInit e))))
  | offered (t : Nat) (rt : Runtime) (ht : s.calls t = .set rt) :
      Proceeds s (.set t) ((s.offer rt).goes t .getAgain)
  | lost (t : Nat) (ht : s.calls t = .getAgain) (hcell : s.cell = none) :
      Proceeds s (.getAgain t)
        (s.goes t (.returned (.error (.runtimeInit "runtime init failed"))))

/-- The step function does nothing else. -/
theorem step_proceeds {s s' : RuntimeCell} {l : RuntimeLabel} (h : runtimeCell.step s l = some s') :
    Proceeds s l s' := by
  change s.step l = some s' at h
  cases l with
  | call t =>
    simp only [RuntimeCell.step] at h
    split at h
    · next r ht =>
      cases h
      exact .called t r ht
    · cases h
  | get t =>
    simp only [RuntimeCell.step] at h
    split at h
    · next rt ht hcell =>
      cases h
      exact .found t rt _ (.inl ht) hcell
    · next ht hcell =>
      cases h
      exact .missed t ht
    · cases h
  | build t env answer =>
    simp only [RuntimeCell.step] at h
    split at h
    · next ht =>
      cases h
      exact .built t env ht
    · next e ht =>
      cases h
      exact .failed t env e ht
    · cases h
  | set t =>
    simp only [RuntimeCell.step] at h
    split at h
    · next rt ht =>
      cases h
      exact .offered t rt ht
    · cases h
  | getAgain t =>
    simp only [RuntimeCell.step] at h
    split at h
    · next rt ht hcell =>
      cases h
      exact .found t rt _ (.inr ht) hcell
    · next ht hcell =>
      cases h
      exact .lost t ht hcell
    · cases h

/-- Places of a runtime: the cell, a thread that is about to offer it, or none any more. -/
inductive Place where
  | cell
  | thread (t : Nat)
  | dropped
  deriving DecidableEq

namespace RuntimeCell

/-- The runtime with a number is at a place. -/
def Keeps (s : RuntimeCell) (id : Nat) : Place → Prop
  | .cell => ∃ rt, s.cell = some rt ∧ rt.id = id
  | .thread t => ∃ rt, s.calls t = .set rt ∧ rt.id = id
  | .dropped => ∃ rt ∈ s.dropped, rt.id = id

end RuntimeCell

/-- Every thread that got a runtime got the one in the cell, the second look at the cell never
finds it empty, and each runtime that was built is at exactly one place. -/
structure OneRuntime (s : RuntimeCell) : Prop where
  shared : ∀ t rt, s.calls t = .returned (.ok rt) → s.cell = some rt
  found : ∀ t, s.calls t = .getAgain → s.cell ≠ none
  places : Custody (· < s.nextId) fun p id ↦ s.Keeps id p

section

variable {s s' : RuntimeCell} {t : Nat} {l : RuntimeLabel}

@[simp] theorem calls_goes (s : RuntimeCell) (t : Nat) (call : RuntimeCall) :
    (s.goes t call).calls = Function.update s.calls t call := rfl

/-- A thread that neither had nor gets a runtime to offer moves no runtime. -/
private theorem keeps_goes {call : RuntimeCall} (hold : ∀ rt, s.calls t ≠ .set rt)
    (hnew : ∀ rt, call ≠ .set rt) (id : Nat) (p : Place) :
    (s.goes t call).Keeps id p ↔ s.Keeps id p := by
  cases p with
  | cell => rfl
  | dropped => rfl
  | thread t' =>
    by_cases ht : t' = t
    · subst ht
      simp [RuntimeCell.Keeps, hold, hnew]
    · simp [RuntimeCell.Keeps, ht]

private theorem one_goes (h : OneRuntime s) {call : RuntimeCall} (hold : ∀ rt, s.calls t ≠ .set rt)
    (hnew : ∀ rt, call ≠ .set rt) (hshared : ∀ rt, call = .returned (.ok rt) → s.cell = some rt)
    (hfound : call ≠ .getAgain) : OneRuntime (s.goes t call) where
  shared t' rt ht' := by
    by_cases ht : t' = t
    · subst ht
      exact hshared rt (by simpa using ht')
    · exact h.shared t' rt (by simpa [ht] using ht')
  found t' ht' := by
    by_cases ht : t' = t
    · subst ht
      exact absurd (by simpa using ht') hfound
    · exact h.found t' (by simpa [ht] using ht')
  places := h.places.congr (fun _ ↦ .rfl) fun p id ↦ keeps_goes hold hnew id p

/-- A new runtime is at the thread that has built it. -/
private theorem one_built (h : OneRuntime s) (env : WorkerEnv) (ht : s.calls t = .build) :
    OneRuntime { s.goes t (.set ⟨s.nextId, workerThreadCount env⟩) with
      nextId := s.nextId + 1 } := by
  have hplaces : ∀ id p, RuntimeCell.Keeps { s.goes t (.set ⟨s.nextId, workerThreadCount env⟩) with
      nextId := s.nextId + 1 } id p ↔ s.Keeps id p ∨ id = s.nextId ∧ p = .thread t := by
    intro id p
    cases p with
    | cell => simp [RuntimeCell.Keeps, RuntimeCell.goes]
    | dropped => simp [RuntimeCell.Keeps, RuntimeCell.goes]
    | thread t' =>
      by_cases htt : t' = t
      · subst htt
        simp [RuntimeCell.Keeps, ht, eq_comm]
      · simp [RuntimeCell.Keeps, htt]
  refine ⟨fun t' rt ht' ↦ ?_, fun t' ht' ↦ ?_, ?_⟩
  · by_cases htt : t' = t
    · subst htt
      simp at ht'
    · exact h.shared t' rt (by simpa [htt] using ht')
  · by_cases htt : t' = t
    · subst htt
      simp at ht'
    · exact h.found t' (by simpa [htt] using ht')
  · refine h.places.take (x := s.nextId) (p := .thread t) (Nat.lt_irrefl _) (fun id ↦ ?_)
      fun p id ↦ ?_
    · exact Nat.lt_succ_iff_lt_or_eq
    · rw [hplaces, and_comm (a := p = .thread t)]

/-- Where an offered runtime goes: into an empty cell, or away. -/
private def offeredTo (s : RuntimeCell) : Place :=
  match s.cell with
  | none => .cell
  | some _ => .dropped

/-- An offer moves the offered runtime and no other. -/
private theorem keeps_offer {rt : Runtime} (ht : s.calls t = .set rt) (id : Nat) (p : Place) :
    ((s.offer rt).goes t .getAgain).Keeps id p ↔
      (s.Keeps id p ∧ p ≠ .thread t) ∨ p = offeredTo s ∧ id = rt.id := by
  cases hcell : s.cell with
  | none =>
    cases p with
    | cell =>
      simp [RuntimeCell.Keeps, RuntimeCell.offer, RuntimeCell.goes, offeredTo, hcell, eq_comm]
    | dropped => simp [RuntimeCell.Keeps, RuntimeCell.offer, RuntimeCell.goes, offeredTo, hcell]
    | thread t' =>
      by_cases htt : t' = t
      · subst htt
        simp [RuntimeCell.Keeps, RuntimeCell.offer, offeredTo, hcell]
      · simp [RuntimeCell.Keeps, RuntimeCell.offer, offeredTo, hcell, htt]
  | some rt' =>
    cases p with
    | cell => simp [RuntimeCell.Keeps, RuntimeCell.offer, RuntimeCell.goes, offeredTo, hcell]
    | dropped =>
      simp only [RuntimeCell.Keeps, RuntimeCell.offer, RuntimeCell.goes, offeredTo, hcell,
        List.mem_append, List.mem_singleton, or_and_right, exists_or, exists_eq_left]
      simp [eq_comm]
    | thread t' =>
      by_cases htt : t' = t
      · subst htt
        simp [RuntimeCell.Keeps, RuntimeCell.offer, offeredTo, hcell]
      · simp [RuntimeCell.Keeps, RuntimeCell.offer, offeredTo, hcell, htt]

private theorem cell_offer (s : RuntimeCell) (rt : Runtime) :
    (s.offer rt).cell = some (s.cell.getD rt) ∧ (s.offer rt).calls = s.calls ∧
      (s.offer rt).nextId = s.nextId := by
  cases hcell : s.cell <;> simp [RuntimeCell.offer, hcell]

private theorem one_offered (h : OneRuntime s) {rt : Runtime} (ht : s.calls t = .set rt) :
    OneRuntime ((s.offer rt).goes t .getAgain) := by
  obtain ⟨hcell, hcalls, hnext⟩ := cell_offer s rt
  have hkeeps : s.Keeps rt.id (.thread t) := ⟨rt, ht, rfl⟩
  refine ⟨fun t' rt' ht' ↦ ?_, fun t' _ ↦ ?_, ?_⟩
  · have htt : t' ≠ t := by
      rintro rfl
      simp at ht'
    have hold := h.shared t' rt' (by simpa [htt, hcalls] using ht')
    change (s.offer rt).cell = some rt'
    rw [hcell, hold]
    rfl
  · change (s.offer rt).cell ≠ none
    rw [hcell]
    exact Option.some_ne_none _
  · refine h.places.move (q := offeredTo s) hkeeps (fun id ↦ ?_) fun p id ↦ ?_
    · change id < (s.offer rt).nextId ↔ _
      rw [hnext]
    · rw [keeps_offer ht]
      refine or_congr_left (and_congr_right fun hp ↦ ⟨?_, ?_⟩)
      · rintro hpt rfl
        exact hpt (h.places.once p _ _ hp hkeeps)
      · rintro hid rfl
        obtain ⟨rt', hrt', rfl⟩ := hp
        rw [ht] at hrt'
        cases hrt'
        exact hid rfl

private theorem one_step (h : OneRuntime s) (hs : Proceeds s l s') : OneRuntime s' := by
  cases hs with
  | called t r ht => exact one_goes h (by simp [ht]) (by simp) (by simp) (by simp)
  | found t rt l ht hcell =>
    refine one_goes h (fun rt' hno ↦ ?_) (by simp) (fun rt' heq ↦ ?_) (by simp)
    · rcases ht with ht | ht <;> rw [ht] at hno <;> cases hno
    · cases heq
      exact hcell
  | missed t ht => exact one_goes h (by simp [ht]) (by simp) (by simp) (by simp)
  | built t env ht => exact one_built h env ht
  | failed t env e ht => exact one_goes h (by simp [ht]) (by simp) (by simp) (by simp)
  | offered t rt ht => exact one_offered h ht
  | lost t ht hcell => exact absurd hcell (h.found t ht)

private theorem oneRuntime_of_reachable (h : runtimeCell.Reachable s) : OneRuntime s := by
  refine h.invariant (I := OneRuntime) ?_ fun _ _ _ _ hi _ ht ↦ one_step hi (step_proceeds ht)
  rintro _ rfl
  refine ⟨fun _ _ hno ↦ (by cases hno), fun _ hno ↦ (by cases hno), ?_⟩
  refine .none (fun id ↦ Nat.not_lt_zero id) fun p id hp ↦ ?_
  cases p <;> simp [RuntimeCell.Keeps] at hp

/-- A full cell keeps its runtime. -/
private theorem cell_step {rt : Runtime} (h : s.cell = some rt) (hs : Proceeds s l s') :
    s'.cell = some rt := by
  cases hs with
  | offered t rt' ht =>
    change (s.offer rt').cell = some rt
    rw [(cell_offer s rt').1, h]
    rfl
  | _ => exact h

/-- Whatever the threads race for, there is one runtime: all calls that return one return the
same, now and later, the error after a successful build never occurs, and every other runtime
that was built is dropped or about to be offered. `src/quiche/runtime.rs:37–57`. -/
theorem runtime_shared (h : runtimeCell.Reachable s) {ls : List RuntimeLabel}
    (hrun : runtimeCell.run s ls = some s') :
    OneRuntime s' ∧ ∀ t rt, s.calls t = .returned (.ok rt) →
      ∀ t' rt', s'.calls t' = .returned (.ok rt') → rt' = rt := by
  have hone := oneRuntime_of_reachable (Machine.Reachable.run h hrun)
  refine ⟨hone, fun t rt ht t' rt' ht' ↦ ?_⟩
  have hcell : s'.cell = some rt :=
    Machine.run_invariant (I := fun s ↦ s.cell = some rt)
      (fun _ _ _ hi hs ↦ cell_step hi (step_proceeds hs))
      ((oneRuntime_of_reachable h).shared t rt ht) hrun
  exact Option.some.inj ((hone.shared t' rt' ht').symm.trans hcell)

end

/-- No thread has called. -/
def noRuntime : RuntimeCell := ⟨none, fun _ ↦ .get, 0, []⟩

/-- Two threads find the cell empty, both build, and the first offer wins. -/
def racingThreads : List RuntimeLabel :=
  [.get 0, .get 1, .build 0 ⟨none, some 4⟩ (.ok ⟨⟩), .build 1 ⟨some "3", none⟩ (.ok ⟨⟩), .set 1,
    .getAgain 1]

/-- The second thread has its runtime before the first one offers its own. -/
theorem racingThreads_shared :
    ∃ s s', runtimeCell.run noRuntime racingThreads = some s ∧
      runtimeCell.run s [.set 0, .getAgain 0] = some s' ∧
      s.calls 1 = .returned (.ok ⟨1, 3⟩) ∧ s'.dropped = [⟨0, 4⟩] ∧ OneRuntime s' ∧
      ∀ t' rt', s'.calls t' = .returned (.ok rt') → rt' = ⟨1, 3⟩ := by
  have h : (runtimeCell.run noRuntime racingThreads).map (fun s ↦
      (decide (s.calls 1 = .returned (.ok ⟨1, 3⟩)),
        (runtimeCell.run s [.set 0, .getAgain 0]).map (·.dropped))) =
      some (true, some [⟨0, 4⟩]) := by decide +kernel
  obtain ⟨s, hs, heq⟩ := Option.map_eq_some_iff.mp h
  simp only [Prod.mk.injEq, decide_eq_true_eq] at heq
  obtain ⟨hcall, hnext⟩ := heq
  obtain ⟨s', hs', hdropped⟩ := Option.map_eq_some_iff.mp hnext
  obtain ⟨hone, hshared⟩ := runtime_shared (.run (.init rfl) hs) hs'
  exact ⟨s, s', hs, hs', hcall, hdropped, hone, hshared 1 _ hcall⟩

end ExtQuiche.Host
