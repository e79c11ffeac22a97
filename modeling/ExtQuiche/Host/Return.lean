import ExtQuiche.Base.Progress
import ExtQuiche.Host.Descriptors
import ExtQuiche.Host.Signals

/-!
# A signalled tick returns

Library `Host`. The timer arm is the last one of the biased `select!`
(`src/quiche/socket.rs:157–181`), so a signal ends a tick only when the network leaves it time:
while nothing new arrives and the signal is not taken by another socket, the loop works off what
is on the two channels and returns.
-/

namespace ExtQuiche.Host
open ExtQuiche.Base ExtQuiche.Conn ExtQuiche.Server ExtQuiche.System

/-- Steps of the socket's loop: its polls, its sleep and its return. -/
def InLoop (i : Nat) : ProcessLabel → Prop
  | .inner j l => j = i ∧ l.drains = true
  | .idle j => j = i
  | .readable j => j = i
  | .readError j => j = i
  | _ => False

instance (i : Nat) : DecidablePred (InLoop i)
  | .inner _ _ => inferInstanceAs (Decidable (_ ∧ _))
  | .idle _ | .readable _ | .readError _ => inferInstanceAs (Decidable (_ = _))
  | .eventfdCreate _ | .eventfdSignal _ | .eventfdClose _ | .construct _ _ _ _ _
  | .close _ _ _ _ | .free _ => .isFalse id

/-- The listener yields a connection or an error. -/
def listens : System.Label → Bool
  | .accept _ => true
  | .again => true
  | _ => false

/-- The step puts nothing on the channels of the system. -/
def SendsNothing (w : World) (l : System.Label) : Prop :=
  ∀ w' ∈ world.step w l, w'.events.queue = w.events.queue ∧ w'.closes.queue = w.closes.queue

instance (w : World) (l : System.Label) : Decidable (SendsNothing w l) :=
  inferInstanceAs (Decidable (∀ w' ∈ world.step w l, _ ∧ _))

/-- Nothing new arrives at the socket: its listener yields nothing and its drivers send
nothing; nor does another socket on the same eventfd take the signal. -/
def Undisturbed (i : Nat) (h : Process) : ProcessLabel → Prop
  | .inner j l => j = i → l.drains = true ∨ listens l = false ∧
      ∀ s ∈ h.sockets i, SendsNothing s.inner l
  | .readable j => j = i ∨ h.waitsFor j ≠ h.waitsFor i
  | _ => True

instance (i : Nat) (h : Process) : ∀ l, Decidable (Undisturbed i h l)
  | .inner _ _ => inferInstanceAs (Decidable (_ → _))
  | .readable _ => inferInstanceAs (Decidable (_ ∨ _))
  | .eventfdCreate _ | .eventfdSignal _ | .eventfdClose _ | .construct _ _ _ _ _ | .idle _
  | .readError _ | .close _ _ _ _ | .free _ => .isTrue trivial

/-- Runs in which PHP keeps to its descriptors and nothing new arrives at the socket. -/
def quietProcess (i : Nat) : Machine (Process × (Fd → Bool)) ProcessLabel :=
  (process.withAccount phpFds).restrict fun p l ↦ ClosesOwn p l ∧ Undisturbed i p.1 l

/-- The socket is inside `tick`, and a signal for it has not been taken. -/
def Signalled (i : Nat) (h : Process) : Prop :=
  ∃ s fd file, h.sockets i = some s ∧ s.inner.Looping ∧ s.eventFd = some fd ∧
    h.kernel.files fd = some file ∧ 0 < h.kernel.counter file

/-- The socket's tick has returned, or one of its callbacks hangs. -/
def Returned (i : Nat) (h : Process) : Prop :=
  ∃ s, h.sockets i = some s ∧ (s.inner.tick = .outside ∨ s.inner.server.hung ≠ none)

/-- Steps that the socket's loop still has to do. -/
def Process.backlog (h : Process) (i : Nat) : Nat := ((h.sockets i).map (·.inner.backlog)).getD 0

section

variable {h h' : Process} {php php' : Fd → Bool} {i : Nat} {l : ProcessLabel}

/-- The task between two steps. -/
private def Inside (i : Nat) (p : Process × (Fd → Bool)) : Prop :=
  (process.withAccount phpFds).ReachableWhile ClosesOwn p ∧ Signalled i p.1

private theorem inside_step (hi : Inside i (h, php))
    (ht : (quietProcess i).step (h, php) l = some (h', php')) :
    (process.withAccount phpFds).ReachableWhile ClosesOwn (h', php') ∧ process.step h l = some h' ∧
      ClosesOwn (h, php) l ∧ Undisturbed i h l := by
  obtain ⟨⟨hok, hquiet⟩, ht⟩ := (Machine.restrict_step _).mp ht
  exact ⟨.step l hi.1 hok ht, (Machine.withAccount_step.mp ht).1, hok, hquiet⟩

private theorem waitsFor_of_signalled {s : QuicheServerSocket} {fd : Fd} {file : Nat}
    (hs : h.sockets i = some s) (hfd : s.eventFd = some fd)
    (hfile : h.kernel.files fd = some file) : h.waitsFor i = some file := by
  rw [Process.waitsFor, hs, Option.bind_some, hfd, Option.bind_some, hfile]

private theorem backlog_eq {s : QuicheServerSocket} (hs : h.sockets i = some s) :
    h.backlog i = s.inner.backlog := by
  rw [Process.backlog, hs]
  rfl

/-- The timer arm is the last step. -/
private theorem returned_timer {s : QuicheServerSocket} {w : World} (hs : h.sockets i = some s)
    (hw : world.step s.inner .timer = some w) (k : Kernel) :
    let t : Process := ⟨k, Function.update h.sockets i (some { s with inner := w })⟩
    Returned i t ∧ t.backlog i < h.backlog i := by
  obtain ⟨htick, rfl⟩ := timer_step hw
  refine ⟨⟨_, Function.update_self .., .inl rfl⟩, ?_⟩
  rw [backlog_eq hs, backlog_eq (Function.update_self ..)]
  simp only [World.backlog, htick, TickPoint.ahead]
  omega

/-- The loop's own steps bring the return nearer. -/
private theorem own_step (hi : Signalled i h) (hl : InLoop i l)
    (ht : process.step h l = some h') :
    (Returned i h' ∨ Signalled i h') ∧ h'.backlog i < h.backlog i := by
  obtain ⟨s, fd, file, hs, hloop, hfd, hfile, hpos⟩ := hi
  cases l with
  | idle j =>
    obtain rfl : j = i := hl
    change h.step (.idle j) = some h' at ht
    rw [idle_none (waitsFor_of_signalled hs hfd hfile) hpos] at ht
    cases ht
  | readable j =>
    obtain rfl : j = i := hl
    cases step_acts ht with
    | ran l j m s' w hm => cases hm
    | returned j s' fd' k v w hs' hfd' hk hw =>
      obtain ⟨hret, hlt⟩ := returned_timer hs' hw k
      exact ⟨.inl hret, hlt⟩
  | readError j =>
    obtain rfl : j = i := hl
    cases step_acts ht with
    | ran l j m s' w hm hs' hw _ =>
      cases hm
      obtain ⟨hret, hlt⟩ := returned_timer hs' hw h.kernel
      exact ⟨.inl hret, hlt⟩
  | inner j m =>
    obtain ⟨rfl, hdrains⟩ := hl
    cases step_acts ht with
    | ran l j m s' w hm hs' hw _ =>
      rw [ProcessLabel.moves] at hm
      split at hm <;> cases hm
      rw [hs] at hs'
      cases hs'
      obtain ⟨hlt, hin⟩ := drains_step hdrains hw
      rw [backlog_eq hs, backlog_eq (Function.update_self ..)]
      refine ⟨?_, hlt⟩
      by_cases hhung : w.server.hung = none
      · exact .inr ⟨_, fd, file, Function.update_self .., ⟨hin, hhung⟩, hfd, hfile, hpos⟩
      · exact .inl ⟨_, Function.update_self .., .inr hhung⟩
  | _ => cases hl

private theorem not_listens {m : System.Label} (hm : listens m = false) :
    m ≠ .again ∧ ∀ peerAddr, m ≠ .accept peerAddr := by
  constructor
  · rintro rfl
    cases hm
  · rintro peerAddr rfl
    cases hm

private theorem not_timer {m : System.Label} (hm : plain m = true) : m ≠ .timer := by
  rintro rfl
  cases hm

/-- The other steps leave the socket's loop where it stands, and its channels as they are. -/
private theorem socket_others {s : QuicheServerSocket} (hs : h.sockets i = some s)
    (hin : s.inner.tick ≠ .outside) (hquiet : Undisturbed i h l) (hl : ¬ InLoop i l)
    (ht : Acts h l h') :
    l.drops i = false ∧ ∃ s', h'.sockets i = some s' ∧ s'.inner.tick = s.inner.tick ∧
      s'.inner.server.hung = s.inner.server.hung ∧
      s'.inner.events.queue = s.inner.events.queue ∧
      s'.inner.closes.queue = s.inner.closes.queue := by
  have hother : ∀ (j : Nat) (s' : Option QuicheServerSocket), j ≠ i →
      Function.update h.sockets j s' i = some s := by
    intro j s' hj
    rw [Function.update_of_ne hj.symm, hs]
  have hclose : ∀ {conns orders tape w},
      world.step s.inner (.close conns orders tape) ≠ some w := by
    intro conns orders tape w hw
    exact hin (goOn_eq_some hw).1
  cases ht with
  | created => exact ⟨rfl, s, hs, rfl, rfl, rfl, rfl⟩
  | signalled => exact ⟨rfl, s, hs, rfl, rfl, rfl, rfl⟩
  | fdClosed => exact ⟨rfl, s, hs, rfl, rfl, rfl, rfl⟩
  | refused => exact ⟨rfl, s, hs, rfl, rfl, rfl, rfl⟩
  | constructed j env sockets eventFdId onStream k eventFd hfree =>
    refine ⟨rfl, s, hother j _ ?_, rfl, rfl, rfl, rfl⟩
    rintro rfl
    rw [hs] at hfree
    cases hfree
  | returned j s' fd k v w hs' =>
    exact ⟨rfl, s, hother j _ hl, rfl, rfl, rfl, rfl⟩
  | closed j s' conns orders tape w hs' hw =>
    have hj : j ≠ i := by
      rintro rfl
      rw [hs] at hs'
      cases hs'
      exact hclose hw
    exact ⟨by simpa [ProcessLabel.drops] using hj, s, hother j _ hj, rfl, rfl, rfl, rfl⟩
  | freed j s' hs' hout =>
    have hj : j ≠ i := by
      rintro rfl
      rw [hs] at hs'
      cases hs'
      exact hin hout.1
    exact ⟨by simpa [ProcessLabel.drops] using hj, s, hother j _ hj, rfl, rfl, rfl, rfl⟩
  | ran l j m s' w hm hs' hw _ =>
    cases l with
    | idle j' =>
      cases hm
      exact ⟨rfl, s, hother j _ hl, rfl, rfl, rfl, rfl⟩
    | readError j' =>
      cases hm
      exact ⟨rfl, s, hother j _ hl, rfl, rfl, rfl, rfl⟩
    | close j' conns orders tape =>
      cases hm
      have hj : j ≠ i := by
        rintro rfl
        rw [hs] at hs'
        cases hs'
        exact hclose hw
      exact ⟨by simpa [ProcessLabel.drops] using hj, s, hother j _ hj, rfl, rfl, rfl, rfl⟩
    | inner j' m' =>
      rw [ProcessLabel.moves] at hm
      split at hm
      · next hplain =>
        cases hm
        by_cases hj : j = i
        · subst hj
          rw [hs] at hs'
          cases hs'
          have hnot : m.drains = false := Bool.eq_false_iff.mpr fun hd ↦ hl ⟨rfl, hd⟩
          obtain ⟨hlist, hsends⟩ := (hquiet rfl).resolve_left (by simp [hnot])
          have hquiet' := hsends s hs w hw
          have hsame := others_step hw hin hnot (not_listens hlist) (not_timer hplain)
          exact ⟨rfl, _, Function.update_self .., hsame.1, hsame.2, hquiet'⟩
        · exact ⟨rfl, s, hother j _ hj, rfl, rfl, rfl, rfl⟩
      · cases hm
    | _ => cases hm

/-- The other steps leave the signal to the socket and put nothing before its return. -/
private theorem env_step (hi : Inside i (h, php)) (hok : ClosesOwn (h, php) l)
    (hquiet : Undisturbed i h l) (hl : ¬ InLoop i l) (ht : Acts h l h') :
    Signalled i h' ∧ h'.backlog i = h.backlog i := by
  obtain ⟨hr, s, fd, file, hs, hloop, hfd, hfile, hpos⟩ := hi
  have hown : h.eventFd i = some fd := by rw [Process.eventFd, hs, Option.bind_some, hfd]
  obtain ⟨hdrops, s', hs', htick, hhung, hevents, hcloses⟩ :=
    socket_others hs hloop.1 hquiet hl ht
  obtain ⟨hown', hfile'⟩ := survives_step (kept_of_reachable hr) hok hdrops hown hfile ht
  have hcount := counter_step hr.forget hfile ht (by
    rintro j rfl hwaits
    refine hquiet.elim hl fun hne ↦ hne ?_
    rw [hwaits, waitsFor_of_signalled hs hfd hfile])
  rw [Process.eventFd, hs', Option.bind_some] at hown'
  refine ⟨⟨s', fd, file, hs', ⟨htick ▸ hloop.1, hhung ▸ hloop.2⟩, hown', hfile',
    Nat.lt_of_lt_of_le hpos hcount⟩, ?_⟩
  rw [backlog_eq hs, backlog_eq hs', World.backlog, World.backlog, htick, hevents, hcloses]

/-- A loop with a signal can always go on. -/
private theorem own_can (hi : Inside i (h, php)) :
    ∃ l t, InLoop i l ∧ (quietProcess i).step (h, php) l = some t := by
  obtain ⟨hr, s, fd, file, hs, hloop, hfd, hfile, hpos⟩ := hi
  have hgo : ∀ l, InLoop i l → ClosesOwn (h, php) l → Undisturbed i h l →
      (∃ h', process.step h l = some h') →
      ∃ l t, InLoop i l ∧ (quietProcess i).step (h, php) l = some t := by
    rintro l hl hok hquiet ⟨h', ht⟩
    exact ⟨l, _, hl, (Machine.restrict_step _).mpr
      ⟨⟨hok, hquiet⟩, Machine.withAccount_step.mpr ⟨ht, rfl⟩⟩⟩
  by_cases htick : s.inner.tick = .otherArms
  · refine hgo (.readable i) rfl trivial (.inl rfl) ?_
    have hread : s.eventFd.bind h.kernel.read ≠ none := by
      rw [hfd, Option.bind_some, Kernel.read, hfile, Option.bind_some, if_pos hpos]
      exact Option.some_ne_none _
    obtain ⟨r, hr⟩ := Option.ne_none_iff_exists'.mp hread
    have hw : world.step s.inner .timer = some { s.inner with tick := .outside } :=
      if_pos ⟨htick, hloop.2⟩
    have hstep : h.step (.readable i) = ({ h with kernel := r.1 } : Process).goes i s .timer := by
      rw [Process.step, hs, Option.bind_some, hr, Option.bind_some]
    rw [Process.goes, hw, Option.map_some] at hstep
    exact ⟨_, hstep⟩
  · obtain ⟨m, w, hm, hw⟩ := drains_can (inner_reachable hr.forget hs) hloop htick
    have hplain : plain m = true := by cases m <;> first | rfl | cases hm
    have hstep : h.step (.inner i m) = h.goes i s m := by
      rw [Process.step, hs, Option.bind_some, if_pos hplain]
    rw [Process.goes, hw, Option.map_some] at hstep
    exact hgo (.inner i m) ⟨rfl, hm⟩ trivial (fun _ ↦ .inl hm) ⟨_, hstep⟩

private theorem descends (i : Nat) :
    (quietProcess i).Descends (InLoop i) (fun p ↦ Returned i p.1) (Inside i)
      fun p ↦ p.1.backlog i where
  can p hi := own_can hi
  own := by
    rintro ⟨h, php⟩ l ⟨h', php'⟩ hi hl ht
    obtain ⟨hr, hs, -, -⟩ := inside_step hi ht
    obtain ⟨hgoal, hlt⟩ := own_step hi.2 hl hs
    exact ⟨hgoal.imp_right fun hsig ↦ ⟨hr, hsig⟩, hlt⟩
  env := by
    rintro ⟨h, php⟩ l ⟨h', php'⟩ hi hl ht
    obtain ⟨hr, hs, hok, hquiet⟩ := inside_step hi ht
    obtain ⟨hsig, heq⟩ := env_step hi hok hquiet hl (step_acts hs)
    exact ⟨⟨hr, hsig⟩, heq.le⟩

/-- A signal for a socket inside `tick` ends it as soon as nothing new arrives, where PHP closes
its own descriptors only and no other socket takes the signal: the loop is bound to return or to
hang in a callback, and before that it takes at most one step for each event on its channel, two
for each close message and four more. `src/quiche/socket.rs:144–237`, `src/timer.rs:8–12`. -/
theorem signalled_returns (hr : (process.withAccount phpFds).ReachableWhile ClosesOwn (h, php))
    (hsig : Signalled i h) :
    (quietProcess i).Inevitable (InLoop i) (fun p ↦ Returned i p.1) (h, php) ∧
      ∀ ls p, (quietProcess i).run (h, php) ls = some p →
        (quietProcess i).Along (fun p _ ↦ ¬ Returned i p.1) (h, php) ls →
        ls.countP (InLoop i) ≤ h.backlog i := by
  have hin : Inside i (h, php) := ⟨hr, hsig⟩
  refine ⟨(descends i).inevitable hin, fun ls p hrun hway ↦ ?_⟩
  have hsteps := (descends i).countP_le ((descends i).along (.inr hin) hway) hrun
  exact Nat.le_of_add_right_le hsteps

end

/-- PHP signals before the socket's loop begins. -/
def signalledEarly : List ProcessLabel := armed ++ [.eventfdSignal 3, .inner 0 .enterTick]

/-- The loop returns after at most three steps of its own. -/
theorem signalledEarly_returns :
    ∃ p, (process.withAccount phpFds).run (noProcess, phpFds.start) signalledEarly = some p ∧
      (quietProcess 0).Inevitable (InLoop 0) (fun p ↦ Returned 0 p.1) p ∧
      ∀ ls q, (quietProcess 0).run p ls = some q →
        (quietProcess 0).Along (fun p _ ↦ ¬ Returned 0 p.1) p ls → ls.countP (InLoop 0) ≤ 3 := by
  have hrun : ((process.withAccount phpFds).run (noProcess, phpFds.start) signalledEarly).map
      (fun p ↦ ((p.1.sockets 0).map fun s ↦ (s.inner.tick, s.inner.server.hung.isNone, s.eventFd),
        p.1.kernel.files 4, p.1.kernel.counter 0, p.1.backlog 0)) =
      some (some (.eventArm, true, some 4), some 0, 1, 3) := by decide +kernel
  have hok : (process.withAccount phpFds).Along ClosesOwn (noProcess, phpFds.start)
      signalledEarly := by
    decide +kernel
  obtain ⟨⟨h, php⟩, hp, heq⟩ := Option.map_eq_some_iff.mp hrun
  simp only [Prod.mk.injEq] at heq
  obtain ⟨hs, hfile, hcount, hbacklog⟩ := heq
  obtain ⟨s, hs, heq⟩ := Option.map_eq_some_iff.mp hs
  simp only [Prod.mk.injEq] at heq
  obtain ⟨htick, hhung, hfd⟩ := heq
  have hsig : Signalled 0 h :=
    ⟨s, 4, 0, hs, ⟨by simp [htick], Option.isNone_iff_eq_none.mp hhung⟩, hfd, hfile, by omega⟩
  have hinit : (process.withAccount phpFds).init (noProcess, phpFds.start) := ⟨rfl, rfl⟩
  have hreturns := signalled_returns (.run (.init hinit) hok hp) hsig
  rw [hbacklog] at hreturns
  exact ⟨_, hp, hreturns⟩

end ExtQuiche.Host
