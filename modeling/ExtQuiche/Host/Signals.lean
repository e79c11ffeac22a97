import ExtQuiche.Base.History
import ExtQuiche.Host.Socket
import ExtQuiche.System.Loop

/-!
# Signals and the ticks they end

Library `Host`. `network_eventfd_signal` adds to the counter of an eventfd, and the timer arm
of a `tick` takes it whole (`src/timer.rs:8–12`, `src/quiche/socket.rs:172–181`). Any number of
sockets can wait on one eventfd; a socket without one waits for ever.
-/

namespace ExtQuiche.Host
open ExtQuiche.Base ExtQuiche.Conn ExtQuiche.Server ExtQuiche.System

/-- Of each eventfd: the signals it has counted, what `read_u64` has returned in sum, and the
ticks that have returned for it. -/
structure Wakeups where
  signals : Nat → Nat
  taken : Nat → Nat
  returns : Nat → Nat

/-- The eventfd of an open descriptor counts another signal. -/
def Kernel.counts (k : Kernel) (fd : Fd) : Option Nat :=
  (k.files fd).filter (k.counter · < EVENTFD_MAX)

/-- The eventfd a socket waits for. -/
def Process.waitsFor (h : Process) (i : Nat) : Option Nat :=
  ((h.sockets i).bind (·.eventFd)).bind h.kernel.files

/-- The account of all eventfds. -/
def wakeups : Account Process ProcessLabel Wakeups where
  start := ⟨fun _ ↦ 0, fun _ ↦ 0, fun _ ↦ 0⟩
  add a h l _ :=
    match l with
    | .eventfdSignal fd =>
      match h.kernel.counts fd.toInt32 with
      | some file => { a with signals := Function.update a.signals file (a.signals file + 1) }
      | none => a
    | .readable i =>
      match h.waitsFor i with
      | some file =>
        { a with
          taken := Function.update a.taken file (a.taken file + h.kernel.counter file)
          returns := Function.update a.returns file (a.returns file + 1) }
      | none => a
    | _ => a

/-- What an eventfd has counted is taken or still there, and each return took some of it. -/
structure Balanced (h : Process) (a : Wakeups) : Prop where
  sum : ∀ file, a.signals file = a.taken file + h.kernel.counter file
  returns : ∀ file, a.returns file ≤ a.taken file
  fresh : ∀ file, h.kernel.nextFile ≤ file → a.signals file = 0

section

variable {h h' : Process} {a : Wakeups} {l : ProcessLabel}

/-- A signal that counts is one more of its eventfd, and any other does nothing. -/
private theorem write_counts (k : Kernel) (fd : Fd) :
    (∃ file, k.files fd = some file ∧ k.counts fd = some file ∧
      k.write fd = { k with counter := Function.update k.counter file (k.counter file + 1) }) ∨
    k.counts fd = none ∧ k.write fd = k := by
  unfold Kernel.write Kernel.counts
  cases hfile : k.files fd with
  | none => exact .inr ⟨rfl, rfl⟩
  | some file =>
    by_cases hmax : k.counter file < EVENTFD_MAX
    · exact .inl ⟨file, rfl, by simp [hmax], by simp [hmax]⟩
    · exact .inr ⟨by simpa using hmax, by simp [hmax]⟩

private theorem balanced_signalled (hr : process.Reachable h) (hi : Balanced h a) (fd : Int64)
    (h' : Process) :
    Balanced { h with kernel := h.kernel.write fd.toInt32 }
      (wakeups.add a h (.eventfdSignal fd) h') := by
  obtain ⟨file, hfile, hcounts, hwrite⟩ | ⟨hcounts, hwrite⟩ := write_counts h.kernel fd.toInt32
  · simp only [wakeups, hcounts, hwrite]
    refine ⟨fun other ↦ ?_, hi.returns, fun other hfresh ↦ ?_⟩
    · have hsum := hi.sum other
      by_cases ho : other = file
      · subst ho
        simp only [Function.update_self]
        omega
      · simpa [ho] using hsum
    · have hne : other ≠ file := (Nat.lt_of_lt_of_le (files_lt hr hfile) hfresh).ne'
      simpa [hne] using hi.fresh other hfresh
  · simp only [wakeups, hcounts, hwrite]
    exact hi

private theorem balanced_returned (hi : Balanced h a) {i : Nat} {s : QuicheServerSocket} {fd : Fd}
    {k : Kernel} {v : Nat} (hs : h.sockets i = some s) (hfd : s.eventFd = some fd)
    (hk : h.kernel.read fd = some (k, v)) (sockets : Nat → Option QuicheServerSocket)
    (h' : Process) :
    Balanced ⟨k, sockets⟩ (wakeups.add a h (.readable i) h') := by
  obtain ⟨file, hfile, hpos, rfl, rfl⟩ := Kernel.read_eq_some hk
  have hwaits : h.waitsFor i = some file := by
    rw [Process.waitsFor, hs, Option.bind_some, hfd, Option.bind_some, hfile]
  simp only [wakeups, hwaits]
  refine ⟨fun other ↦ ?_, fun other ↦ ?_, hi.fresh⟩
  · have hsum := hi.sum other
    by_cases ho : other = file
    · subst ho
      simpa using hsum
    · simpa [ho] using hsum
  · have hle := hi.returns other
    by_cases ho : other = file
    · subst ho
      simp only [Function.update_self]
      omega
    · simpa [ho] using hle

private theorem balanced_created (hi : Balanced h a) {k : Kernel} {pick : Option Fd} {fd : Fd}
    (hk : h.kernel.eventfd pick = some (k, fd)) : Balanced { h with kernel := k } a := by
  rcases Kernel.eventfd_eq_some hk with ⟨rfl, -⟩ | ⟨-, -, rfl⟩
  · exact hi
  · refine ⟨fun file ↦ ?_, hi.returns, fun file hfresh ↦ ?_⟩
    · have hsum := hi.sum file
      by_cases hf : file = h.kernel.nextFile
      · have hzero := hi.fresh file hf.ge
        subst hf
        simp only [Function.update_self]
        omega
      · simpa [hf] using hsum
    · exact hi.fresh file (Nat.le_of_succ_le hfresh)

/-- Closing a descriptor changes no eventfd. -/
private theorem balanced_dropEventFd (hi : Balanced h a) (eventFd : Option Fd)
    (sockets : Nat → Option QuicheServerSocket) :
    Balanced ⟨h.kernel.dropEventFd eventFd, sockets⟩ a := by
  cases eventFd <;> exact ⟨hi.sum, hi.returns, hi.fresh⟩

private theorem balanced_step (hr : process.Reachable h) (hi : Balanced h a) (ht : Acts h l h') :
    Balanced h' (wakeups.add a h l h') := by
  cases ht with
  | created k pick fd hk => exact balanced_created hi hk
  | signalled fd => exact balanced_signalled hr hi fd _
  | fdClosed fd => exact balanced_dropEventFd hi (some fd.toInt32) h.sockets
  | refused => exact hi
  | constructed i env sockets eventFdId onStream k eventFd hfree hcall hk =>
    rcases dupEventFd_eq_some hk with ⟨rfl, -⟩ | ⟨fd, file, -, -, -, rfl⟩
    · exact ⟨hi.sum, hi.returns, hi.fresh⟩
    · exact ⟨hi.sum, hi.returns, hi.fresh⟩
  | ran l i m s w hm hs hw _ =>
    have hsame : ∀ h', wakeups.add a h l h' = a := by
      intro h'
      cases l with
      | eventfdSignal fd => cases hm
      | readable i => cases hm
      | _ => rfl
    rw [hsame]
    exact ⟨hi.sum, hi.returns, hi.fresh⟩
  | returned i s fd k v w hs hfd hk hw => exact balanced_returned hi hs hfd hk _ _
  | closed i s conns orders tape w hs hw => exact balanced_dropEventFd hi _ _
  | freed i s hs hout => exact balanced_dropEventFd hi _ _

/-- Where a signal has not been taken, the loop cannot go to sleep. -/
theorem idle_none {i file : Nat} (hwaits : h.waitsFor i = some file)
    (hpos : 0 < h.kernel.counter file) : h.step (.idle i) = none := by
  obtain ⟨fd, hfd, hfile⟩ := Option.bind_eq_some_iff.mp hwaits
  obtain ⟨s, hs, hfd⟩ := Option.bind_eq_some_iff.mp hfd
  have hread : h.kernel.read fd ≠ none := by
    rw [Kernel.read, hfile, Option.bind_some, if_pos hpos]
    exact Option.some_ne_none _
  rw [Process.step, hs, Option.bind_some, hfd, Option.bind_some, if_neg hread]

/-- Only a tick that returns takes from an eventfd. -/
theorem counter_step (hr : process.Reachable h) {fd : Fd} {file : Nat}
    (hfile : h.kernel.files fd = some file) (ht : Acts h l h')
    (hl : ∀ i, l = .readable i → h.waitsFor i ≠ some file) :
    h.kernel.counter file ≤ h'.kernel.counter file := by
  have hdrop : ∀ eventFd, h.kernel.counter file ≤ (h.kernel.dropEventFd eventFd).counter file := by
    intro eventFd
    cases eventFd <;> exact Nat.le_refl _
  cases ht with
  | created k pick fd' hk =>
    rcases Kernel.eventfd_eq_some hk with ⟨rfl, -⟩ | ⟨-, -, rfl⟩
    · exact Nat.le_refl _
    · dsimp only
      rw [Function.update_of_ne (files_lt hr hfile).ne]
  | signalled fd' => exact (h.kernel.write_files _).2.2 file
  | constructed i env sockets eventFdId onStream k eventFd hfree hcall hk =>
    rcases dupEventFd_eq_some hk with ⟨rfl, -⟩ | ⟨fd', f, -, -, -, rfl⟩
    · exact Nat.le_refl _
    · exact Nat.le_refl _
  | returned i s fd' k v w hs hfd hk hw =>
    obtain ⟨f, hf, -, -, rfl⟩ := Kernel.read_eq_some hk
    have hwaits : h.waitsFor i = some f := by
      rw [Process.waitsFor, hs, Option.bind_some, hfd, Option.bind_some, hf]
    have hne : file ≠ f := by
      rintro rfl
      exact hl i rfl hwaits
    dsimp only
    rw [Function.update_of_ne hne]
  | closed i s conns orders tape w hs hw => exact hdrop _
  | freed i s hs hout => exact hdrop _
  | fdClosed fd' => exact hdrop (some fd'.toInt32)
  | _ => exact Nat.le_refl _

/-- In every run of any number of threads, a tick returns for a signal at most once: the ticks
that an eventfd has ended are no more than the signals it counted, and each took at least one.
No signal is lost either: as long as one has not been taken, the timer arm of every socket on
this eventfd is ready, and none of them can go to sleep. `src/timer.rs:8–12`,
`src/quiche/socket.rs:172–181`. -/
theorem signals_balanced (hr : (process.withAccount wakeups).Reachable (h, a)) :
    Balanced h a ∧ ∀ i file, h.waitsFor i = some file → a.taken file < a.signals file →
      h.step (.idle i) = none := by
  have hbal : Balanced h a := by
    refine hr.account_invariant (I := Balanced) ?_ fun _ _ _ _ hr hi _ ht ↦
      balanced_step hr.forget hi (step_acts ht)
    rintro _ rfl
    exact ⟨fun _ ↦ rfl, fun _ ↦ Nat.le_refl _, fun _ _ ↦ rfl⟩
  refine ⟨hbal, fun i file hwaits hlt ↦ idle_none hwaits ?_⟩
  have hsum := hbal.sum file
  omega

/-- The socket has no descriptor and is inside `tick`. -/
def Unarmed (i : Nat) (h : Process) : Prop :=
  ∃ s, h.sockets i = some s ∧ s.eventFd = none ∧ s.inner.tick ≠ .outside

/-- A socket without descriptor never returns from `tick`: not when a channel is empty, and not
when PHP signals. That is so after `-1`, after a failed `dup`, and after `close`, which takes
the descriptor away. `src/quiche/socket.rs:172–181`, `src/conn.rs:46–76,110–119`. -/
theorem unarmed_forever {i : Nat} (hun : Unarmed i h) {ls : List ProcessLabel}
    (hrun : process.run h ls = some h') : Unarmed i h' := by
  refine Machine.run_invariant (I := Unarmed i) (fun h l h' hi ht ↦ ?_) hun hrun
  obtain ⟨s, hs, hnone, hin⟩ := hi
  have hput : ∀ (k : Kernel) (j : Nat) (s' : Option QuicheServerSocket), j ≠ i →
      Unarmed i ⟨k, Function.update h.sockets j s'⟩ := fun k j s' hj ↦
    ⟨s, (Function.update_of_ne hj.symm ..).trans hs, hnone, hin⟩
  cases step_acts ht with
  | created k pick fd hk => exact ⟨s, hs, hnone, hin⟩
  | signalled fd => exact ⟨s, hs, hnone, hin⟩
  | fdClosed fd => exact ⟨s, hs, hnone, hin⟩
  | refused => exact ⟨s, hs, hnone, hin⟩
  | constructed j env sockets eventFdId onStream k eventFd hfree =>
    refine hput _ j _ ?_
    rintro rfl
    rw [hfree] at hs
    cases hs
  | ran l j m s' w hm hs' hw htimer =>
    by_cases hj : j = i
    · subst hj
      rw [hs] at hs'
      cases hs'
      exact ⟨_, Function.update_self .., hnone, tick_step hw (fun hm ↦ htimer hm hnone) hin⟩
    · exact hput _ j _ hj
  | returned j s' fd k v w hs' hfd =>
    refine hput _ j _ ?_
    rintro rfl
    rw [hs] at hs'
    cases hs'
    rw [hnone] at hfd
    cases hfd
  | closed j s' conns orders tape w hs' hw =>
    refine hput _ j _ ?_
    rintro rfl
    rw [hs] at hs'
    cases hs'
    exact hin (goOn_eq_some hw).1
  | freed j s' hs' hout =>
    refine hput _ j _ ?_
    rintro rfl
    rw [hs] at hs'
    cases hs'
    exact hin hout.1

end

/-- PHP signals twice, and the socket's loop comes to the timer arm. -/
def signalledTwice : List ProcessLabel :=
  armed ++ [.eventfdSignal 3, .inner 0 .enterTick, .inner 0 (.pollEvents []), .eventfdSignal 3,
    .inner 0 (.pollCloses [] [])]

/-- Neither signal has been taken, and the loop cannot go to sleep. -/
theorem signalledTwice_balanced :
    ∃ p, (process.withAccount wakeups).run (noProcess, wakeups.start) signalledTwice = some p ∧
      p.2.signals 0 = 2 ∧ Balanced p.1 p.2 ∧ p.1.step (.idle 0) = none := by
  have hrun : ((process.withAccount wakeups).run (noProcess, wakeups.start) signalledTwice).map
      (fun p ↦ (p.2.signals 0, p.2.taken 0, p.1.waitsFor 0)) = some (2, 0, some 0) := by
    decide +kernel
  obtain ⟨p, hp, heq⟩ := Option.map_eq_some_iff.mp hrun
  simp only [Prod.mk.injEq] at heq
  obtain ⟨hsignals, htaken, hwaits⟩ := heq
  have hinit : (process.withAccount wakeups).init (noProcess, wakeups.start) := ⟨rfl, rfl⟩
  obtain ⟨hbal, hawake⟩ := signals_balanced (.run (.init hinit) hp)
  exact ⟨p, hp, hsignals, hbal, hawake 0 0 hwaits (by omega)⟩

/-- A socket is constructed with `-1`, and PHP calls `tick`. -/
def endless : List ProcessLabel :=
  [.construct 0 ⟨.ok ⟨0, 2⟩, fun _ ↦ .ok ⟨⟩, none⟩ [⟨"127.0.0.1", 19132⟩] (-1) ⟨1, true⟩,
    .inner 0 .enterTick]

/-- A signal of some eventfd does not end the tick. -/
theorem endless_forever :
    ∃ h h', process.run noProcess endless = some h ∧
      process.run h [.eventfdCreate (some 3), .eventfdSignal 3, .inner 0 (.pollEvents []),
        .inner 0 (.pollCloses [] []), .idle 0] = some h' ∧ Unarmed 0 h' := by
  have hrun : (process.run noProcess endless).map (fun h ↦
      ((h.sockets 0).map fun s ↦ (s.eventFd, s.inner.tick),
        (process.run h [.eventfdCreate (some 3), .eventfdSignal 3, .inner 0 (.pollEvents []),
          .inner 0 (.pollCloses [] []), .idle 0]).isSome)) =
      some (some (none, .eventArm), true) := by decide +kernel
  obtain ⟨h, hh, heq⟩ := Option.map_eq_some_iff.mp hrun
  simp only [Prod.mk.injEq] at heq
  obtain ⟨hs, hnext⟩ := heq
  obtain ⟨s, hs, heq⟩ := Option.map_eq_some_iff.mp hs
  simp only [Prod.mk.injEq] at heq
  obtain ⟨h', hh'⟩ := Option.isSome_iff_exists.mp hnext
  exact ⟨h, h', hh, hh', unarmed_forever ⟨s, hs, heq.1, by simp [heq.2]⟩ hh'⟩

end ExtQuiche.Host
