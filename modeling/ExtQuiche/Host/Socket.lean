import ExtQuiche.Host.Config
import ExtQuiche.Host.Eventfd
import ExtQuiche.Host.Runtime
import ExtQuiche.System.World

/-!
# Server sockets of a process

Library `Host`. `QuicheServerSocket` of `src/conn.rs:14–120` over the system of its server,
its drivers and its loop, and a process with any number of them: threads of PHP construct
sockets, run their loops, close and free them, and create, signal and close eventfds.
Every socket's system is one of `System.world`, so what holds there holds of every socket.
-/

namespace ExtQuiche.Host
open ExtQuiche.Base ExtQuiche.Conn ExtQuiche.Server ExtQuiche.Stream ExtQuiche.System

/-- `src/conn.rs:14–17`. -/
structure QuicheServerSocket where
  inner : World
  eventFd : Option Fd

/-- What the constructor finds: the runtime, what binding and listening on the addresses comes
to, and the descriptor the kernel gives for the duplicate. -/
structure ConstructEnv where
  runtime : Except QuicheError Runtime
  listen : List String → Except String Unit
  pick : Option Fd

/-- `QuicheServerSocketImpl::bind`, `src/quiche/socket.rs:60–105`. -/
def bind (addrs : List String) (listen : List String → Except String Unit) (callback : Zval) :
    Except String World :=
  if addrs.isEmpty then .error "bind requires at least one socket address"
  else (listen addrs).map fun _ ↦ .start callback

/-- The duplicate a socket owns, `src/conn.rs:46–76`; none for `-1` and where `dup` fails. -/
def dupEventFd (k : Kernel) (eventFdId : Fd) (pick : Option Fd) : Option (Kernel × Option Fd) :=
  if eventFdId ≠ -1 then
    (k.dup eventFdId pick).map fun r ↦ (r.1, if r.2 < 0 then none else some r.2)
  else some (k, none)

/-- What becomes of the duplicate when `bind` has succeeded or failed, `src/conn.rs:80–83`. -/
def assemble (k : Kernel) (eventFd : Option Fd) :
    Except String World → Kernel × Except PhpException QuicheServerSocket
  | .ok inner => (k, .ok ⟨inner, eventFd⟩)
  -- `?` returns, and the duplicate is dropped
  | .error e => (k.dropEventFd eventFd, .error ⟨(QuicheError.runtimeInit e).message⟩)

/-- `src/conn.rs:23–84`. -/
def construct (k : Kernel) (env : ConstructEnv) (sockets : List SocketAddress) (eventFdId : Fd)
    (onStream : Zval) : Option (Kernel × Except PhpException QuicheServerSocket) :=
  if onStream.isCallable then
    match env.runtime with
    | .ok _ =>
      (dupEventFd k eventFdId env.pick).map fun r ↦
        assemble r.1 r.2 (bind (sockets.map (·.getAddressResult)) env.listen onStream)
    | .error e => some (k, .error ⟨e.message⟩)
  else some (k, .error ⟨"__construct expects a callable for $on_stream"⟩)

/-- The process: its kernel and the sockets that PHP holds. -/
structure Process where
  kernel : Kernel
  sockets : Nat → Option QuicheServerSocket

/-- A step of some thread. -/
inductive ProcessLabel where
  | eventfdCreate (pick : Option Fd)
  | eventfdSignal (fd : Int64)
  | eventfdClose (fd : Int64)
  | construct (i : Nat) (env : ConstructEnv) (sockets : List SocketAddress) (eventFdId : Fd)
      (onStream : Zval)
  /-- A step of the socket's system that looks at no descriptor. -/
  | inner (i : Nat) (l : System.Label)
  /-- No arm of the socket's `select!` is ready, the timer arm included. -/
  | idle (i : Nat)
  /-- `read_u64` returns the counter, `src/quiche/socket.rs:175`. -/
  | readable (i : Nat)
  /-- `read_u64` fails, `src/quiche/socket.rs:176`. -/
  | readError (i : Nat)
  | close (i : Nat) (conns : List ConnId) (orders : ConnId → List StreamId) (tape : List Script)
  /-- PHP drops its last reference to the socket. -/
  | free (i : Nat)

/-- The step looks at no descriptor; `again` is then an error of the listener. -/
def plain : System.Label → Bool
  | .timer => false
  | .close _ _ _ => false
  | _ => true

namespace Process

/-- The socket's system goes on. -/
def goes (h : Process) (i : Nat) (s : QuicheServerSocket) (l : System.Label) : Option Process :=
  (world.step s.inner l).map fun inner ↦
    { h with sockets := Function.update h.sockets i (some { s with inner }) }

/-- `close`, `src/conn.rs:110–119`: a callback that hangs keeps it from the descriptor. -/
def closed (h : Process) (i : Nat) (s : QuicheServerSocket) (inner : World) : Process :=
  if inner.server.hung = none then
    { kernel := h.kernel.dropEventFd s.eventFd
      sockets := Function.update h.sockets i (some ⟨inner, none⟩) }
  else { h with sockets := Function.update h.sockets i (some { s with inner }) }

/-- One step of the process. -/
def step (h : Process) : ProcessLabel → Option Process
  | .eventfdCreate pick =>
    (networkEventfdCreate h.kernel pick).map fun r ↦ { h with kernel := r.1 }
  | .eventfdSignal fd => some { h with kernel := networkEventfdSignal h.kernel fd }
  | .eventfdClose fd => some { h with kernel := networkEventfdClose h.kernel fd }
  | .construct i env sockets eventFdId onStream =>
    if h.sockets i = none then
      (Host.construct h.kernel env sockets eventFdId onStream).map fun r ↦
        match r.2 with
        | .ok s => ⟨r.1, Function.update h.sockets i (some s)⟩
        | .error _ => { h with kernel := r.1 }
    else none
  | .inner i l => (h.sockets i).bind fun s ↦ if plain l then h.goes i s l else none
  | .idle i =>
    (h.sockets i).bind fun s ↦
      if s.eventFd.bind h.kernel.read = none then h.goes i s .again else none
  | .readable i =>
    (h.sockets i).bind fun s ↦
      (s.eventFd.bind h.kernel.read).bind fun r ↦ { h with kernel := r.1 }.goes i s .timer
  | .readError i => (h.sockets i).bind fun s ↦ s.eventFd.bind fun _ ↦ h.goes i s .timer
  | .close i conns orders tape =>
    (h.sockets i).bind fun s ↦
      (world.step s.inner (.close conns orders tape)).map fun inner ↦ h.closed i s inner
  | .free i =>
    (h.sockets i).bind fun s ↦
      if s.inner.tick = .outside ∧ s.inner.server.hung = none then
        some ⟨h.kernel.dropEventFd s.eventFd, Function.update h.sockets i none⟩
      else none

/-- Nothing is open and there is no socket. -/
def Init (h : Process) : Prop := h = ⟨.empty, fun _ ↦ none⟩

end Process

/-- Runs of the process. -/
def process : Machine Process ProcessLabel := ⟨Process.Init, Process.step⟩

/-- The socket whose system a step moves without the kernel, and the step of that system. -/
def ProcessLabel.moves : ProcessLabel → Option (Nat × System.Label)
  | .inner i l => if plain l then some (i, l) else none
  | .idle i => some (i, .again)
  | .readError i => some (i, .timer)
  | .close i conns orders tape => some (i, .close conns orders tape)
  | _ => none

/-- What a step of the process can do. -/
inductive Acts (h : Process) : ProcessLabel → Process → Prop where
  | created (k : Kernel) (pick : Option Fd) (fd : Fd) (hk : h.kernel.eventfd pick = some (k, fd)) :
      Acts h (.eventfdCreate pick) { h with kernel := k }
  | signalled (fd : Int64) :
      Acts h (.eventfdSignal fd) { h with kernel := h.kernel.write fd.toInt32 }
  | fdClosed (fd : Int64) :
      Acts h (.eventfdClose fd) { h with kernel := h.kernel.close fd.toInt32 }
  | refused (i : Nat) (env : ConstructEnv) (sockets : List SocketAddress) (eventFdId : Fd)
      (onStream : Zval) : Acts h (.construct i env sockets eventFdId onStream) h
  | constructed (i : Nat) (env : ConstructEnv) (sockets : List SocketAddress) (eventFdId : Fd)
      (onStream : Zval) (k : Kernel) (eventFd : Option Fd) (hfree : h.sockets i = none)
      (hcall : onStream.isCallable = true)
      (hk : dupEventFd h.kernel eventFdId env.pick = some (k, eventFd)) :
      Acts h (.construct i env sockets eventFdId onStream)
        ⟨k, Function.update h.sockets i (some ⟨.start onStream, eventFd⟩)⟩
  | ran (hl : ProcessLabel) (i : Nat) (l : System.Label) (s : QuicheServerSocket) (w : World)
      (hm : hl.moves = some (i, l)) (hs : h.sockets i = some s)
      (hw : world.step s.inner l = some w) (htimer : l = .timer → s.eventFd ≠ none) :
      Acts h hl { h with sockets := Function.update h.sockets i (some { s with inner := w }) }
  | returned (i : Nat) (s : QuicheServerSocket) (fd : Fd) (k : Kernel) (v : Nat) (w : World)
      (hs : h.sockets i = some s) (hfd : s.eventFd = some fd) (hk : h.kernel.read fd = some (k, v))
      (hw : world.step s.inner .timer = some w) :
      Acts h (.readable i) ⟨k, Function.update h.sockets i (some { s with inner := w })⟩
  | closed (i : Nat) (s : QuicheServerSocket) (conns : List ConnId)
      (orders : ConnId → List StreamId) (tape : List Script) (w : World)
      (hs : h.sockets i = some s) (hw : world.step s.inner (.close conns orders tape) = some w) :
      Acts h (.close i conns orders tape)
        ⟨h.kernel.dropEventFd s.eventFd, Function.update h.sockets i (some ⟨w, none⟩)⟩
  | freed (i : Nat) (s : QuicheServerSocket) (hs : h.sockets i = some s)
      (ht : s.inner.tick = .outside ∧ s.inner.server.hung = none) :
      Acts h (.free i) ⟨h.kernel.dropEventFd s.eventFd, Function.update h.sockets i none⟩

section

variable {h h' : Process} {k k' : Kernel} {l : ProcessLabel}

/-- A duplicate is made under an unused descriptor, or not at all. -/
theorem dupEventFd_eq_some {eventFdId : Fd} {pick eventFd : Option Fd}
    (h : dupEventFd k eventFdId pick = some (k', eventFd)) :
    (k' = k ∧ eventFd = none) ∨ ∃ fd file, eventFd = some fd ∧ k.Unused fd ∧
      k.files eventFdId = some file ∧
      k' = { k with files := Function.update k.files fd (some file) } := by
  unfold dupEventFd at h
  split at h
  · obtain ⟨⟨k'', fd⟩, hdup, heq⟩ := Option.map_eq_some_iff.mp h
    rcases Kernel.dup_eq_some hdup with ⟨rfl, rfl⟩ | ⟨hunused, file, hfile, rfl⟩
    · cases heq
      exact .inl ⟨rfl, rfl⟩
    · dsimp only at heq
      rw [if_neg (Int32.not_lt.mpr hunused.1)] at heq
      cases heq
      exact .inr ⟨fd, file, rfl, hunused, hfile, rfl⟩
  · cases h
    exact .inl ⟨rfl, rfl⟩

/-- A duplicate that is dropped again leaves the kernel as it was. -/
theorem dropEventFd_dupEventFd {eventFdId : Fd} {pick eventFd : Option Fd}
    (h : dupEventFd k eventFdId pick = some (k', eventFd)) : k'.dropEventFd eventFd = k := by
  rcases dupEventFd_eq_some h with ⟨rfl, rfl⟩ | ⟨fd, file, rfl, ⟨-, hnone⟩, -, rfl⟩
  · rfl
  · rw [Kernel.dropEventFd, Kernel.close, Function.update_idem, ← hnone, Function.update_eq_self]

/-- A constructor that throws has opened nothing. -/
private theorem construct_acts {env : ConstructEnv} {sockets : List SocketAddress}
    {eventFdId : Fd} {onStream : Zval}
    {r : Kernel × Except PhpException QuicheServerSocket}
    (hr : construct h.kernel env sockets eventFdId onStream = some r) :
    (∃ e, r = (h.kernel, .error e)) ∨ onStream.isCallable = true ∧ ∃ k eventFd,
      dupEventFd h.kernel eventFdId env.pick = some (k, eventFd) ∧
      r = (k, .ok ⟨.start onStream, eventFd⟩) := by
  unfold construct at hr
  split at hr
  · next hcall =>
    split at hr
    · obtain ⟨⟨k, eventFd⟩, hk, rfl⟩ := Option.map_eq_some_iff.mp hr
      dsimp only
      cases hbind : bind (sockets.map (·.getAddressResult)) env.listen onStream with
      | error e =>
        left
        exact ⟨_, by rw [assemble, dropEventFd_dupEventFd hk]⟩
      | ok inner =>
        have hinner : inner = .start onStream := by
          unfold bind at hbind
          split at hbind
          · cases hbind
          · cases hlisten : env.listen (sockets.map (·.getAddressResult)) with
            | error e =>
              rw [hlisten] at hbind
              cases hbind
            | ok _ =>
              rw [hlisten] at hbind
              cases hbind
              rfl
        exact .inr ⟨hcall, k, eventFd, hk, by rw [hinner, assemble]⟩
    · cases hr
      exact .inl ⟨_, rfl⟩
  · cases hr
    exact .inl ⟨_, rfl⟩

/-- The socket's system has moved and the kernel has not. -/
private theorem goes_acts {i : Nat} {s : QuicheServerSocket} {m : System.Label}
    (hs : h.sockets i = some s) (hm : l.moves = some (i, m)) (ht : h.goes i s m = some h')
    (htimer : m = .timer → s.eventFd ≠ none) : Acts h l h' := by
  obtain ⟨w, hw, rfl⟩ := Option.map_eq_some_iff.mp ht
  exact .ran l i m s w hm hs hw htimer

/-- The step function does nothing else. -/
theorem step_acts (ht : process.step h l = some h') : Acts h l h' := by
  change h.step l = some h' at ht
  cases l with
  | eventfdCreate pick =>
    obtain ⟨⟨k, id⟩, hk, rfl⟩ := Option.map_eq_some_iff.mp ht
    obtain ⟨fd, hk, -⟩ := toInt32_create hk
    exact .created k pick fd hk
  | eventfdSignal fd =>
    cases ht
    exact .signalled fd
  | eventfdClose fd =>
    cases ht
    exact .fdClosed fd
  | construct i env sockets eventFdId onStream =>
    simp only [Process.step] at ht
    split at ht
    · next hfree =>
      obtain ⟨r, hr, rfl⟩ := Option.map_eq_some_iff.mp ht
      obtain ⟨e, rfl⟩ | ⟨hcall, k, eventFd, hk, rfl⟩ := construct_acts hr
      · exact .refused i env sockets eventFdId onStream
      · exact .constructed i env sockets eventFdId onStream k eventFd hfree hcall hk
    · cases ht
  | inner i m =>
    obtain ⟨s, hs, ht⟩ := Option.bind_eq_some_iff.mp ht
    split at ht
    · next hplain =>
      refine goes_acts hs (if_pos hplain) ht ?_
      rintro rfl
      cases hplain
    · cases ht
  | idle i =>
    obtain ⟨s, hs, ht⟩ := Option.bind_eq_some_iff.mp ht
    split at ht
    · exact goes_acts hs rfl ht nofun
    · cases ht
  | readable i =>
    obtain ⟨s, hs, ht⟩ := Option.bind_eq_some_iff.mp ht
    obtain ⟨⟨k, v⟩, hread, ht⟩ := Option.bind_eq_some_iff.mp ht
    obtain ⟨fd, hfd, hk⟩ := Option.bind_eq_some_iff.mp hread
    obtain ⟨w, hw, rfl⟩ := Option.map_eq_some_iff.mp ht
    exact .returned i s fd k v w hs hfd hk hw
  | readError i =>
    obtain ⟨s, hs, ht⟩ := Option.bind_eq_some_iff.mp ht
    obtain ⟨fd, hfd, ht⟩ := Option.bind_eq_some_iff.mp ht
    exact goes_acts hs rfl ht fun _ ↦ by simp [hfd]
  | close i conns orders tape =>
    obtain ⟨s, hs, ht⟩ := Option.bind_eq_some_iff.mp ht
    obtain ⟨w, hw, rfl⟩ := Option.map_eq_some_iff.mp ht
    unfold Process.closed
    split
    · exact .closed i s conns orders tape w hs hw
    · exact .ran _ i _ s w rfl hs hw nofun
  | free i =>
    obtain ⟨s, hs, ht⟩ := Option.bind_eq_some_iff.mp ht
    split at ht
    · next hout =>
      cases ht
      exact .freed i s hs hout
    · cases ht

/-- Every socket of a process runs the system of one server: what holds of all reachable
systems holds of each socket, whatever the other sockets and the eventfds do. -/
theorem inner_reachable (hr : process.Reachable h) {i : Nat} {s : QuicheServerSocket}
    (hs : h.sockets i = some s) : world.Reachable s.inner := by
  refine hr.invariant (I := fun h ↦ ∀ i s, h.sockets i = some s → world.Reachable s.inner)
    ?_ ?_ i s hs
  · rintro _ rfl i s hs
    cases hs
  · intro h l h' _ hi _ ht
    have hput : ∀ (k : Kernel) (i : Nat) (s' : Option QuicheServerSocket),
        (∀ s, s' = some s → world.Reachable s.inner) → ∀ j s,
        (Process.mk k (Function.update h.sockets i s')).sockets j = some s →
        world.Reachable s.inner := by
      intro k i s' hnew j s hs
      change Function.update h.sockets i s' j = some s at hs
      rw [Function.update_apply] at hs
      split at hs
      · exact hnew s hs
      · exact hi j s hs
    cases step_acts ht with
    | constructed i env sockets eventFdId onStream k eventFd hfree hcall hk =>
      refine hput k i _ fun s hs ↦ ?_
      cases hs
      exact .init ⟨onStream, hcall, rfl⟩
    | ran l i m s w hm hs hw _ =>
      refine hput _ i _ fun s' hs' ↦ ?_
      cases hs'
      exact (hi i s hs).step m trivial hw
    | returned i s fd k v w hs hfd hk hw =>
      refine hput k i _ fun s' hs' ↦ ?_
      cases hs'
      exact (hi i s hs).step .timer trivial hw
    | closed i s conns orders tape w hs hw =>
      refine hput _ i _ fun s' hs' ↦ ?_
      cases hs'
      exact (hi i s hs).step (.close conns orders tape) trivial hw
    | freed i s hs hout => exact hput _ i none fun s' hs' ↦ by cases hs'
    | _ => exact hi

/-- Descriptors refer to eventfds that the kernel has created. -/
theorem files_lt (hr : process.Reachable h) {fd : Fd} {file : Nat}
    (hfile : h.kernel.files fd = some file) : file < h.kernel.nextFile := by
  refine hr.invariant (I := fun h ↦ ∀ fd file, h.kernel.files fd = some file →
    file < h.kernel.nextFile) ?_ ?_ fd file hfile
  · rintro _ rfl fd file hno
    cases hno
  · intro h l h' _ hi _ ht fd file hfile
    have hput : ∀ {pick : Fd} {f n : Nat}, f < n → h.kernel.nextFile ≤ n →
        Function.update h.kernel.files pick (some f) fd = some file → file < n := by
      intro pick f n hf hn hput
      rw [Function.update_apply] at hput
      split at hput
      · cases hput
        exact hf
      · exact Nat.lt_of_lt_of_le (hi fd file hput) hn
    have hdrop : ∀ eventFd, (h.kernel.dropEventFd eventFd).files fd = some file →
        file < (h.kernel.dropEventFd eventFd).nextFile := by
      intro eventFd hdrop
      cases eventFd with
      | none => exact hi fd file hdrop
      | some fd' =>
        simp only [Kernel.dropEventFd, Kernel.close, Function.update_apply] at hdrop
        split at hdrop
        · cases hdrop
        · exact hi fd file hdrop
    cases step_acts ht with
    | created k pick fd' hk =>
      rcases Kernel.eventfd_eq_some hk with ⟨rfl, -⟩ | ⟨-, -, rfl⟩
      · exact hi fd file hfile
      · exact hput (Nat.lt_succ_self _) (Nat.le_succ _) hfile
    | signalled fd' =>
      obtain ⟨hfiles, hnext, -⟩ := h.kernel.write_files fd'.toInt32
      dsimp only at hfile ⊢
      rw [hfiles] at hfile
      rw [hnext]
      exact hi fd file hfile
    | fdClosed fd' => exact hdrop (some fd'.toInt32) hfile
    | constructed i env sockets eventFdId onStream k eventFd hfree hcall hk =>
      rcases dupEventFd_eq_some hk with ⟨rfl, -⟩ | ⟨fd', f, -, -, hold, rfl⟩
      · exact hi fd file hfile
      · exact hput (hi eventFdId f hold) (Nat.le_refl _) hfile
    | returned i s fd' k v w hs hfd hk hw =>
      obtain ⟨f, -, -, -, rfl⟩ := Kernel.read_eq_some hk
      exact hi fd file hfile
    | closed i s conns orders tape w hs hw => exact hdrop _ hfile
    | freed i s hs hout => exact hdrop _ hfile
    | _ => exact hi fd file hfile

end

/-- No descriptor is open and there is no socket. -/
def noProcess : Process := ⟨.empty, fun _ ↦ none⟩

/-- PHP creates an eventfd under 3, and a socket duplicates it under 4. -/
def armed : List ProcessLabel :=
  [.eventfdCreate (some 3),
    .construct 0 ⟨.ok ⟨0, 2⟩, fun _ ↦ .ok ⟨⟩, some 4⟩ [⟨"127.0.0.1", 19132⟩] 3 ⟨1, true⟩]

end ExtQuiche.Host
