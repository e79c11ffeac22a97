import ExtQuiche.Base.Custody
import ExtQuiche.Base.History
import ExtQuiche.Host.Socket

/-!
# Who closes which descriptor

Library `Host`. The ownership of `src/conn.rs:47–59,113–117`: PHP owns the descriptors that
`network_eventfd_create` gave it, a socket owns its duplicate, and each closes its own. As
long as PHP keeps to it, every open descriptor has exactly one owner in every run, and the
duplicate outlives the original.
-/

namespace ExtQuiche.Host
open ExtQuiche.Base ExtQuiche.Conn ExtQuiche.Server ExtQuiche.System

/-- Descriptors that `network_eventfd_create` gave to PHP and PHP has not closed. -/
def phpFds : Account Process ProcessLabel (Fd → Bool) where
  start _ := false
  add php _ l _ :=
    match l with
    | .eventfdCreate (some fd) => Function.update php fd true
    | .eventfdClose fd => Function.update php fd.toInt32 false
    | _ => php

/-- PHP closes its own descriptors only; what is not open can be closed as well. -/
def ClosesOwn (p : Process × (Fd → Bool)) : ProcessLabel → Prop
  | .eventfdClose fd => p.2 fd.toInt32 = true ∨ p.1.kernel.files fd.toInt32 = none
  | _ => True

instance (p : Process × (Fd → Bool)) : ∀ l, Decidable (ClosesOwn p l)
  | .eventfdClose _ => inferInstanceAs (Decidable (_ ∨ _))
  | .eventfdCreate _ | .eventfdSignal _ | .construct _ _ _ _ _ | .inner _ _ | .idle _
  | .readable _ | .readError _ | .close _ _ _ _ | .free _ => .isTrue trivial

/-- Owner of a descriptor. -/
inductive Owner where
  | php
  | socket (i : Nat)
  deriving DecidableEq

/-- Descriptor of a socket, if it has one. -/
def Process.eventFd (h : Process) (i : Nat) : Option Fd := (h.sockets i).bind (·.eventFd)

/-- The descriptor is one of the owner's. -/
def Process.Owns (h : Process) (php : Fd → Bool) : Owner → Fd → Prop
  | .php, fd => php fd = true
  | .socket i, fd => h.eventFd i = some fd

/-- The descriptor is open. -/
def Kernel.Open (k : Kernel) (fd : Fd) : Prop := k.files fd ≠ none

section

variable {h h' : Process} {php php' : Fd → Bool} {l : ProcessLabel}

private theorem eventFd_update (k : Kernel) (h : Process) (i : Nat)
    (s : Option QuicheServerSocket) :
    (Process.mk k (Function.update h.sockets i s)).eventFd =
      Function.update h.eventFd i (s.bind (·.eventFd)) := by
  funext j
  by_cases hj : j = i
  · subst hj
    simp [Process.eventFd]
  · simp [Process.eventFd, hj]

/-- A step of a socket's system leaves the descriptors of all sockets. -/
private theorem eventFd_inner (k : Kernel) {i : Nat} {s : QuicheServerSocket}
    (hs : h.sockets i = some s) (w : World) :
    (Process.mk k (Function.update h.sockets i (some { s with inner := w }))).eventFd =
      h.eventFd := by
  rw [eventFd_update]
  have hold : h.eventFd i = s.eventFd := by rw [Process.eventFd, hs, Option.bind_some]
  rw [Option.bind_some, ← hold, Function.update_eq_self]

private theorem owns_congr (heq : h'.eventFd = h.eventFd) (o : Owner) (fd : Fd) :
    h'.Owns php o fd ↔ h.Owns php o fd := by
  cases o with
  | php => exact .rfl
  | socket i => simp only [Process.Owns, heq]

private theorem open_close (k : Kernel) (fd a : Fd) : (k.close fd).Open a ↔ k.Open a ∧ a ≠ fd := by
  by_cases ha : a = fd
  · subst ha
    simp [Kernel.Open, Kernel.close]
  · simp [Kernel.Open, Kernel.close, ha]

private theorem open_update (k : Kernel) {fd : Fd} {file : Nat} {c : Nat → Nat} {n : Nat} (a : Fd) :
    (Kernel.mk (Function.update k.files fd (some file)) c n).Open a ↔ k.Open a ∨ a = fd := by
  by_cases ha : a = fd
  · subst ha
    simp [Kernel.Open]
  · simp [Kernel.Open, ha]

/-- Every open descriptor has one owner. -/
abbrev Kept (h : Process) (php : Fd → Bool) : Prop := Custody h.kernel.Open (h.Owns php)

/-- A socket that gives up its descriptor closes it. -/
private theorem kept_drop (hi : Kept h php) {i : Nat} {s : QuicheServerSocket}
    (hs : h.sockets i = some s) {s' : Option QuicheServerSocket}
    (hnone : s'.bind (·.eventFd) = none) :
    Kept ⟨h.kernel.dropEventFd s.eventFd, Function.update h.sockets i s'⟩ php := by
  have hold : h.eventFd i = s.eventFd := by rw [Process.eventFd, hs, Option.bind_some]
  have hnew := eventFd_update (h.kernel.dropEventFd s.eventFd) h i s'
  rw [hnone] at hnew
  cases hfd : s.eventFd with
  | none =>
    refine hi.congr (fun _ ↦ .rfl) (owns_congr ?_)
    rw [hfd] at hnew hold
    rw [hnew, ← hold, Function.update_eq_self]
  | some fd =>
    rw [hfd] at hold hnew
    refine hi.drop (x := fd) (open_close h.kernel fd) fun o a ↦ ?_
    have hown : ∀ o, h.Owns php o fd → o = .socket i := fun o ho ↦ hi.once o _ fd ho hold
    cases o with
    | php =>
      refine ⟨fun ha ↦ ⟨ha, ?_⟩, fun ha ↦ ha.1⟩
      rintro rfl
      cases hown .php ha
    | socket j =>
      change Process.eventFd _ j = some a ↔ h.eventFd j = some a ∧ a ≠ fd
      rw [hnew]
      by_cases hj : j = i
      · subst hj
        rw [Function.update_self, hold]
        simp [eq_comm]
      · rw [Function.update_of_ne hj]
        refine ⟨fun ha ↦ ⟨ha, ?_⟩, fun ha ↦ ha.1⟩
        rintro rfl
        exact hj (Owner.socket.inj (hown (.socket j) ha))

private theorem kept_created (hi : Kept h php) {pick : Option Fd} {k : Kernel} {fd : Fd}
    (hk : h.kernel.eventfd pick = some (k, fd)) :
    Kept { h with kernel := k }
      (phpFds.add php h (.eventfdCreate pick) { h with kernel := k }) := by
  rcases Kernel.eventfd_eq_some hk with ⟨rfl, rfl⟩ | ⟨hunused, rfl, rfl⟩
  · exact hi
  · refine hi.take (x := fd) (p := .php) (not_not_intro hunused.2) (open_update h.kernel)
      fun o a ↦ ?_
    cases o with
    | php =>
      simp only [Process.Owns, phpFds, Function.update_apply]
      by_cases ha : a = fd <;> simp [ha]
    | socket i => simp [Process.Owns, Process.eventFd]

private theorem kept_constructed (hi : Kept h php) {i : Nat} {s : QuicheServerSocket}
    (hfree : h.sockets i = none) {k : Kernel} {eventFdId : Fd} {pick : Option Fd}
    (hk : dupEventFd h.kernel eventFdId pick = some (k, s.eventFd)) :
    Kept ⟨k, Function.update h.sockets i (some s)⟩ php := by
  have hold : h.eventFd i = none := by rw [Process.eventFd, hfree, Option.bind_none]
  have hnew := eventFd_update k h i (some s)
  rw [Option.bind_some] at hnew
  rcases dupEventFd_eq_some hk with ⟨rfl, hnone⟩ | ⟨fd, file, hfd, hunused, -, rfl⟩
  · refine hi.congr (fun _ ↦ .rfl) (owns_congr ?_)
    rw [hnew, hnone, ← hold, Function.update_eq_self]
  · refine hi.take (x := fd) (p := .socket i) (not_not_intro hunused.2) (open_update h.kernel)
      fun o a ↦ ?_
    cases o with
    | php => simp [Process.Owns]
    | socket j =>
      simp only [Process.Owns, hnew, hfd]
      by_cases hj : j = i
      · subst hj
        simp [hold, eq_comm]
      · simp [hj]

private theorem kept_fdClosed (hi : Kept h php) {fd : Fd}
    (hok : php fd = true ∨ h.kernel.files fd = none) :
    Kept { h with kernel := h.kernel.close fd } (Function.update php fd false) := by
  refine hi.drop (x := fd) (open_close h.kernel fd) fun o a ↦ ?_
  cases o with
  | php =>
    simp only [Process.Owns, Function.update_apply]
    by_cases ha : a = fd <;> simp [ha]
  | socket i =>
    change h.Owns php (.socket i) a ↔ h.Owns php (.socket i) a ∧ a ≠ fd
    refine ⟨fun ha ↦ ⟨ha, ?_⟩, fun ha ↦ ha.1⟩
    rintro rfl
    rcases hok with hphp | hclosed
    · cases hi.once _ .php a ha hphp
    · exact (hi.used_iff a).mpr ⟨_, ha⟩ hclosed

private theorem kept_step (hi : Kept h php) (hok : ClosesOwn (h, php) l) (ht : Acts h l h') :
    Kept h' (phpFds.add php h l h') := by
  cases ht with
  | created k pick fd hk => exact kept_created hi hk
  | signalled fd =>
    refine hi.congr (fun a ↦ ?_) fun _ _ ↦ .rfl
    simp only [Kernel.Open, (h.kernel.write_files _).1]
  | fdClosed fd => exact kept_fdClosed hi hok
  | refused => exact hi
  | constructed i env sockets eventFdId onStream k eventFd hfree hcall hk =>
    exact kept_constructed (s := ⟨.start onStream, eventFd⟩) hi hfree hk
  | ran l i m s w hm hs hw _ =>
    have hphp : phpFds.add php h l
        { h with sockets := Function.update h.sockets i (some { s with inner := w }) } = php := by
      cases l with
      | eventfdCreate pick => cases hm
      | eventfdClose fd => cases hm
      | _ => rfl
    rw [hphp]
    exact hi.congr (fun _ ↦ .rfl) (owns_congr (eventFd_inner _ hs w))
  | returned i s fd k v w hs hfd hk hw =>
    obtain ⟨file, -, -, -, rfl⟩ := Kernel.read_eq_some hk
    exact hi.congr (fun _ ↦ .rfl) (owns_congr (eventFd_inner _ hs w))
  | closed i s conns orders tape w hs hw => exact kept_drop hi hs rfl
  | freed i s hs hout => exact kept_drop hi hs rfl

/-- Every open descriptor has one owner, while PHP closes its own. -/
theorem kept_of_reachable
    (hr : (process.withAccount phpFds).ReachableWhile ClosesOwn (h, php)) : Kept h php := by
  refine hr.account_invariant (I := Kept) ?_ fun _ _ _ _ _ hi hok ht ↦
    kept_step hi hok (step_acts ht)
  rintro _ rfl
  refine .none (fun _ hopen ↦ hopen rfl) fun o fd hown ↦ ?_
  cases o <;> cases hown

/-- The socket gives up its descriptor. -/
def ProcessLabel.drops (i : Nat) : ProcessLabel → Bool
  | .close j _ _ _ => j == i
  | .free j => j == i
  | _ => false

/-- Who closes a descriptor in a step. -/
def Closes (l : ProcessLabel) (fd : Fd) : Owner → Prop
  | .php => ∃ id : Int64, l = .eventfdClose id ∧ id.toInt32 = fd
  | .socket i => l.drops i = true

/-- A socket's `close` or its end closes the descriptor it owns and no other. -/
private theorem closes_dropEventFd {i : Nat} {s : QuicheServerSocket} (hs : h.sockets i = some s)
    {fd : Fd} (hopen : h.kernel.Open fd) (hclosed : ¬ (h.kernel.dropEventFd s.eventFd).Open fd) :
    h.Owns php (.socket i) fd := by
  change h.eventFd i = some fd
  rw [Process.eventFd, hs, Option.bind_some]
  cases hfd : s.eventFd with
  | none =>
    rw [hfd] at hclosed
    exact absurd hopen hclosed
  | some fd' =>
    rw [hfd, Kernel.dropEventFd, open_close] at hclosed
    by_contra hne
    exact hclosed ⟨hopen, fun heq ↦ hne (by rw [heq])⟩

private theorem closes_step (hok : ClosesOwn (h, php) l) (ht : Acts h l h')
    {fd : Fd} (hopen : h.kernel.Open fd) (hclosed : ¬ h'.kernel.Open fd) :
    ∃ o, h.Owns php o fd ∧ Closes l fd o := by
  cases ht with
  | created k pick fd' hk =>
    rcases Kernel.eventfd_eq_some hk with ⟨rfl, -⟩ | ⟨-, -, rfl⟩
    · exact absurd hopen hclosed
    · exact absurd ((open_update h.kernel fd).mpr (.inl hopen)) hclosed
  | signalled fd' =>
    refine absurd ?_ hclosed
    rwa [Kernel.Open, (h.kernel.write_files _).1]
  | fdClosed fd' =>
    have heq : fd'.toInt32 = fd := by
      by_contra hne
      exact hclosed ((open_close h.kernel _ fd).mpr ⟨hopen, fun heq ↦ hne heq.symm⟩)
    subst heq
    rcases hok with hphp | hnone
    · exact ⟨.php, hphp, fd', rfl, rfl⟩
    · exact absurd hnone hopen
  | refused => exact absurd hopen hclosed
  | constructed i env sockets eventFdId onStream k eventFd hfree hcall hk =>
    rcases dupEventFd_eq_some hk with ⟨rfl, -⟩ | ⟨fd', file, -, -, -, rfl⟩
    · exact absurd hopen hclosed
    · exact absurd ((open_update h.kernel fd).mpr (.inl hopen)) hclosed
  | ran => exact absurd hopen hclosed
  | returned i s fd' k v w hs hfd hk hw =>
    obtain ⟨file, -, -, -, rfl⟩ := Kernel.read_eq_some hk
    exact absurd hopen hclosed
  | closed i s conns orders tape w hs hw =>
    exact ⟨.socket i, closes_dropEventFd hs hopen hclosed, by simp [Closes, ProcessLabel.drops]⟩
  | freed i s hs hout =>
    exact ⟨.socket i, closes_dropEventFd hs hopen hclosed, by simp [Closes, ProcessLabel.drops]⟩

/-- While PHP closes its own descriptors only, in every run of any number of threads every
open descriptor has exactly one owner, PHP or one socket, and is closed by its owner only.
Once PHP has closed its own and the sockets are closed or freed, none is left, also where
constructors have thrown. `src/conn.rs:46–83,110–119`, `src/timer.rs:3–17`. -/
theorem descriptors_owned (hr : (process.withAccount phpFds).ReachableWhile ClosesOwn (h, php)) :
    Custody h.kernel.Open (h.Owns php) ∧
      ∀ l h', ClosesOwn (h, php) l → process.step h l = some h' → ∀ fd, h.kernel.Open fd →
        ¬ h'.kernel.Open fd → ∃ o, h.Owns php o fd ∧ Closes l fd o := by
  have hkept := kept_of_reachable hr
  exact ⟨hkept, fun l h' hok ht fd hopen hclosed ↦
    closes_step hok (step_acts ht) hopen hclosed⟩

variable {i : Nat} {fd : Fd} {file : Nat}

/-- Closing what another owner owns leaves the descriptor. -/
private theorem files_dropEventFd (hi : Kept h php) (hown : h.eventFd i = some fd) {j : Nat}
    {s : QuicheServerSocket} (hs : h.sockets j = some s) (hj : j ≠ i) :
    (h.kernel.dropEventFd s.eventFd).files fd = h.kernel.files fd := by
  cases hfd : s.eventFd with
  | none => rfl
  | some fd' =>
    have hother : h.eventFd j = some fd' := by rw [Process.eventFd, hs, Option.bind_some, hfd]
    refine Function.update_of_ne ?_ ..
    rintro rfl
    exact hj (Owner.socket.inj (hi.once (.socket j) (.socket i) fd hother hown))

/-- A step that does not give up the socket's descriptor leaves it as it is. -/
theorem survives_step (hi : Kept h php) (hok : ClosesOwn (h, php) l)
    (hl : l.drops i = false) (hown : h.eventFd i = some fd) (hfile : h.kernel.files fd = some file)
    (ht : Acts h l h') : h'.eventFd i = some fd ∧ h'.kernel.files fd = some file := by
  have hput : ∀ {pick : Fd} {f : Nat}, h.kernel.Unused pick →
      Function.update h.kernel.files pick (some f) fd = some file := by
    rintro pick f ⟨-, hnone⟩
    rw [Function.update_of_ne, hfile]
    rintro rfl
    rw [hfile] at hnone
    cases hnone
  cases ht with
  | created k pick fd' hk =>
    rcases Kernel.eventfd_eq_some hk with ⟨rfl, -⟩ | ⟨hunused, -, rfl⟩
    · exact ⟨hown, hfile⟩
    · exact ⟨hown, hput hunused⟩
  | signalled fd' => exact ⟨hown, by rw [(h.kernel.write_files _).1, hfile]⟩
  | fdClosed fd' =>
    refine ⟨hown, (Function.update_of_ne ?_ ..).trans hfile⟩
    rintro rfl
    rcases hok with hphp | hclosed
    · cases hi.once (.socket i) .php _ hown hphp
    · rw [hfile] at hclosed
      cases hclosed
  | refused => exact ⟨hown, hfile⟩
  | constructed j env sockets eventFdId onStream k eventFd hfree hcall hk =>
    have hj : i ≠ j := by
      rintro rfl
      rw [Process.eventFd, hfree] at hown
      cases hown
    refine ⟨?_, ?_⟩
    · rw [eventFd_update, Function.update_of_ne hj, hown]
    · rcases dupEventFd_eq_some hk with ⟨rfl, -⟩ | ⟨fd', f, -, hunused, -, rfl⟩
      · exact hfile
      · exact hput hunused
  | ran l j m s w hm hs hw _ => exact ⟨by rw [eventFd_inner _ hs, hown], hfile⟩
  | returned j s fd' k v w hs hfd hk hw =>
    obtain ⟨f, -, -, -, rfl⟩ := Kernel.read_eq_some hk
    exact ⟨by rw [eventFd_inner _ hs, hown], hfile⟩
  | closed j s conns orders tape w hs hw =>
    have hj : j ≠ i := by simpa [ProcessLabel.drops] using hl
    exact ⟨by rw [eventFd_update, Function.update_of_ne hj.symm, hown],
      (files_dropEventFd hi hown hs hj).trans hfile⟩
  | freed j s hs hout =>
    have hj : j ≠ i := by simpa [ProcessLabel.drops] using hl
    exact ⟨by rw [eventFd_update, Function.update_of_ne hj.symm, hown],
      (files_dropEventFd hi hown hs hj).trans hfile⟩

/-- From its construction on, whatever PHP and the other sockets do, and also after PHP has
closed the original, a socket's descriptor refers to the eventfd it was duplicated from, until
the socket itself is closed or freed. `src/conn.rs:47–59,113–117`. -/
theorem duplicate_survives (hr : (process.withAccount phpFds).ReachableWhile ClosesOwn (h, php))
    (hown : h.eventFd i = some fd) (hfile : h.kernel.files fd = some file) {ls : List ProcessLabel}
    (hok : (process.withAccount phpFds).Along ClosesOwn (h, php) ls)
    (hls : ∀ l ∈ ls, l.drops i = false)
    (hrun : (process.withAccount phpFds).run (h, php) ls = some (h', php')) :
    h'.eventFd i = some fd ∧ h'.kernel.files fd = some file := by
  induction ls generalizing h php with
  | nil =>
    cases hrun
    exact ⟨hown, hfile⟩
  | cons l ls ih =>
    obtain ⟨⟨u, phpu⟩, hu, hrest⟩ := Option.bind_eq_some_iff.mp hrun
    rw [Machine.along_cons _ hu] at hok
    have hacts := step_acts (Machine.withAccount_step.mp hu).1
    obtain ⟨hown', hfile'⟩ := survives_step (kept_of_reachable hr) hok.1 (hls l (by simp)) hown
      hfile hacts
    exact ih (.step l hr hok.1 hu) hown' hfile' hok.2 (fun m hm ↦ hls m (by simp [hm])) hrest

end

private theorem init_noProcess : (process.withAccount phpFds).init (noProcess, phpFds.start) :=
  ⟨rfl, rfl⟩

/-- Both descriptors of the one eventfd have their owners. -/
theorem armed_owned :
    ∃ h php, (process.withAccount phpFds).run (noProcess, phpFds.start) armed = some (h, php) ∧
      h.Owns php .php 3 ∧ h.Owns php (.socket 0) 4 ∧ Custody h.kernel.Open (h.Owns php) ∧
      ∀ l h', ClosesOwn (h, php) l → process.step h l = some h' → ∀ fd, h.kernel.Open fd →
        ¬ h'.kernel.Open fd → ∃ o, h.Owns php o fd ∧ Closes l fd o := by
  have hrun : ((process.withAccount phpFds).run (noProcess, phpFds.start) armed).map
      (fun p ↦ (p.2 3, p.1.eventFd 0)) = some (true, some 4) := by decide +kernel
  have hok : (process.withAccount phpFds).Along ClosesOwn (noProcess, phpFds.start) armed := by
    decide +kernel
  obtain ⟨⟨h, php⟩, hp, heq⟩ := Option.map_eq_some_iff.mp hrun
  simp only [Prod.mk.injEq] at heq
  exact ⟨h, php, hp, heq.1, heq.2, descriptors_owned (.run (.init init_noProcess) hok hp)⟩

/-- PHP closes the original and gets its number for another eventfd. -/
def reopened : List ProcessLabel :=
  [.eventfdClose 3, .eventfdCreate (some 3), .eventfdSignal 3]

/-- The socket still has the first eventfd. -/
theorem armed_survives :
    ∃ p q, (process.withAccount phpFds).run (noProcess, phpFds.start) armed = some p ∧
      (process.withAccount phpFds).run p reopened = some q ∧ q.1.kernel.files 3 = some 1 ∧
      q.1.eventFd 0 = some 4 ∧ q.1.kernel.files 4 = some 0 := by
  have hrun : ((process.withAccount phpFds).run (noProcess, phpFds.start) armed).map
      (fun p ↦ (p.1.eventFd 0, p.1.kernel.files 4,
        decide ((process.withAccount phpFds).Along ClosesOwn p reopened),
        ((process.withAccount phpFds).run p reopened).map (·.1.kernel.files 3))) =
      some (some 4, some 0, true, some (some 1)) := by decide +kernel
  have hok : (process.withAccount phpFds).Along ClosesOwn (noProcess, phpFds.start) armed := by
    decide +kernel
  obtain ⟨⟨h, php⟩, hp, heq⟩ := Option.map_eq_some_iff.mp hrun
  simp only [Prod.mk.injEq, decide_eq_true_eq] at heq
  obtain ⟨hown, hfile, hnext, hq⟩ := heq
  obtain ⟨⟨h', php'⟩, hrun', hfiles⟩ := Option.map_eq_some_iff.mp hq
  exact ⟨_, _, hp, hrun', hfiles, duplicate_survives (.run (.init init_noProcess) hok hp) hown hfile
    hnext (by decide) hrun'⟩

end ExtQuiche.Host
