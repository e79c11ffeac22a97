import ExtQuiche.Server.Sweep
import ExtQuiche.System.CloseSignals

/-!
# Connections without a record

Library `System`. The `ConnClosed` arm of `src/quiche/socket.rs:210–223` takes the record of
a connection, and `close` takes all of them. The driver's late events and PHP's stream objects
outlive it: PHP may still set callbacks on the streams and open further ones, which go into a
map that no handler looks at any more (`src/quiche/conn.rs:76–118`).
-/

namespace ExtQuiche.System
open ExtQuiche.Base ExtQuiche.Conn ExtQuiche.Driver ExtQuiche.Server

/-- Callbacks of connections other than `c`. -/
def Elsewhere (c : ConnId) (log : List Obs) (invocation : Invocation) : Prop :=
  ∃ c', c' ≠ c ∧ Concerns c' (fun _ _ ↦ True) log invocation

/-- Since `s` no callback of the connection has been invoked, and none of its streams fired,
whenever they were registered. -/
structure Unheard (c : ConnId) (s t : QuicheServerSocketImpl) : Prop where
  log : s.log <+: t.log
  stream : ∀ r, .invoked r ∈ t.log.drop s.log.length → ∀ id obj, r.invocation ≠ .stream c id obj
  invoked : ∀ i, .inserted i ∈ t.log → i.connId = c → ∀ r,
    .invoked r ∈ t.log.drop s.log.length → r.invocation.pair? ≠ some i.slots.onClose.pair
  fired : ∀ i, .inserted i ∈ t.log → i.connId = c → ∀ b,
    .fireOnClose i.slots.onClose b ∉ t.log.drop s.log.length

section

variable {w w' : World} {c : ConnId} {l : Label} {s t : QuicheServerSocketImpl}

private theorem elsewhere_grows (log log' : List Obs) (invocation : Invocation)
    (hlog : log <+: log') (h : Elsewhere c log invocation) : Elsewhere c log' invocation := by
  obtain ⟨c', hne, hconcerns⟩ := h
  exact ⟨c', hne, concerns_grows log log' invocation hlog hconcerns⟩

/-- Callbacks of another connection are elsewhere. -/
private theorem elsewhere_of_concerns {c' : ConnId} {P : StreamId → Bool → Prop} (hne : c' ≠ c)
    (h : Traced (Concerns c' P) s t) : Traced (Elsewhere c) s t := by
  have hany := h.mono (Q := fun _ _ ↦ True) fun _ _ _ ↦ trivial
  exact ⟨hany.log, fun r hr ↦ ⟨c', hne, hany.invoked r hr⟩,
    fun slot b hb ↦ ⟨c', hne, hany.fired slot b hb⟩⟩

/-- An event finds the callbacks of its own connection, if that has a record. -/
private theorem elsewhere_driverEvent (hown : s.Owned) (hlisted : s.Listed) (hgone : ¬ s.Serves c)
    {c' : ConnId} {ev : DriverEvent} {tape : List Script}
    (ht : s.step (.driverEvent c' ev tape) = some t) : Traced (Elsewhere c) s t := by
  rcases eq_or_ne c' c with rfl | hne
  · have hno : ∀ st : ConnState, s.connections[c']? ≠ some st := fun st hst ↦ hgone (.inl ⟨st, hst⟩)
    exact (stable_traced (K := fun _ _ ↦ True) elsewhere_grows s).step_driverEvent ht
      (Traced.of_log rfl) (fun st hst ↦ absurd hst (hno st)) (fun st hst ↦ absurd hst (hno st))
      (fun st hst ↦ absurd hst (hno st)) fun st hst ↦ absurd hst (hno st)
  · exact elsewhere_of_concerns hne (traced_driverEvent hown hlisted ht)

/-- So does a close message. -/
private theorem elsewhere_connClosed (hown : s.Owned) (hlisted : s.Listed) (hgone : ¬ s.Serves c)
    {c' : ConnId} {b : Bool} {order : List StreamId} {tape : List Script}
    (ht : s.step (.connClosed c' b order tape) = some t) : Traced (Elsewhere c) s t := by
  rcases eq_or_ne c' c with rfl | hne
  · have hno : ∀ st : ConnState, s.connections[c']? ≠ some st := fun st hst ↦ hgone (.inl ⟨st, hst⟩)
    exact (stable_traced (K := fun _ _ ↦ True) elsewhere_grows s).step_connClosed ht
      (fun _ ↦ Traced.of_log rfl) (Traced.of_log rfl) (fun st hst ↦ absurd hst (hno st))
      fun st hst ↦ absurd hst (hno st)
  · exact elsewhere_of_concerns hne (traced_connClosed hown hlisted ht)

/-- The close of the server fires streams of connections with a record. -/
private theorem elsewhere_close (hown : s.Owned) (hlisted : s.Listed) (hgone : ¬ s.Serves c)
    {conns : List ConnId} {orders : ConnId → List StreamId} {tape : List Script}
    (ht : s.step (.close conns orders tape) = some t) : Traced (Elsewhere c) s t := by
  have htraced := traced_close hown hlisted ht
  have hsweeps : ∀ invocation, Sweeps (fun c id ↦ s.connections[c]? ≠ none ∧
      ((s.maps c)[id]? ≠ none ∨ (c, id) ∈ s.openedOn tape)) t.log invocation →
        Elsewhere c t.log invocation := by
    intro invocation hinv
    cases invocation with
    | stream c' id obj => exact False.elim hinv
    | onData slot c' id data fin => exact False.elim hinv
    | onClose slot b =>
      obtain ⟨-, i, hi, hslot, hrecord, -⟩ := hinv
      obtain ⟨st, hst⟩ := Option.ne_none_iff_exists'.mp hrecord
      refine ⟨i.connId, ?_, i, hi, rfl, hslot, trivial⟩
      rintro rfl
      exact hgone (.inl ⟨st, hst⟩)
  exact ⟨htraced.log, fun r hr ↦ hsweeps _ (htraced.invoked r hr),
    fun slot b hb ↦ hsweeps _ (htraced.fired slot b hb)⟩

/-- A step of the system invokes nothing of a connection without a record. -/
private theorem elsewhere_step (h : world.Reachable w) (hgone : ¬ w.server.Serves c)
    (ht : Happens w l w') : Traced (Elsewhere c) w.server w'.server := by
  have hserver := server_reachable h
  have hown := owned_of_reachable hserver
  have hlisted := listed_of_reachable hserver
  cases ht with
  | dispatched tape c' ev rest s ht hq hs => exact elsewhere_driverEvent hown hlisted hgone hs
  | closed order tape c' b rest s ht hq hs => exact elsewhere_connClosed hown hlisted hgone hs
  | serverClosed conns orders tape s ht hs => exact elsewhere_close hown hlisted hgone hs
  | called call s ht hs =>
    exact (stable_traced (K := fun _ _ ↦ True) elsewhere_grows w.server).step_call hs
      (fun _ _ hu he ↦ hu.effect elsewhere_grows he) (Traced.of_log rfl)
  | _ => exact Traced.of_log rfl

/-- A connection that has lost its record gets none again. -/
private theorem gone_step (hc : c < w.server.idCounter) (hgone : ¬ w.server.Serves c)
    (h : Happens w l w') : c < w'.server.idCounter ∧ ¬ w'.server.Serves c := by
  refine ⟨hc.trans_le h.idCounter_le, fun hserves ↦ ?_⟩
  rcases h.serves hserves with hold | ⟨rfl, -⟩
  · exact hgone hold
  · exact Nat.lt_irrefl _ hc

private theorem gone_run (h : world.Reachable w) (hc : c < w.server.idCounter)
    (hgone : ¬ w.server.Serves c) {ls : List Label} (hrun : world.run w ls = some w') :
    ¬ w'.server.Serves c ∧ Traced (Elsewhere c) w.server w'.server := by
  induction ls generalizing w with
  | nil =>
    cases hrun
    exact ⟨hgone, Traced.of_log rfl⟩
  | cons l ls ih =>
    obtain ⟨u, hu, hrest⟩ := Option.bind_eq_some_iff.mp hrun
    have hstep := step_happens hu
    obtain ⟨hc', hgone'⟩ := gone_step hc hgone hstep
    obtain ⟨hend, htraced⟩ := ih (h.step l trivial hu) hc' hgone' hrest
    exact ⟨hend, (elsewhere_step h hgone hstep).trans elsewhere_grows htraced⟩

/-- Pairs are registered on one connection each, so what happened elsewhere was not heard. -/
private theorem unheard_of_traced (ht : server.Reachable t)
    (htraced : Traced (Elsewhere c) s t) : Unheard c s t := by
  obtain ⟨hand, hsound⟩ := (audited_of_reachable ht).sound
  have hreg := hsound.registry
  have hpair : ∀ i j, .inserted i ∈ t.log → .inserted j ∈ t.log → i.connId = c → j.connId ≠ c →
      i.slots.onClose.pair ≠ j.slots.onClose.pair := by
    intro i j hi hj hc hne heq
    obtain ⟨-, n, -, hn⟩ := hreg.issued i hi
    obtain ⟨-, m, -, hm⟩ := hreg.issued j hj
    have hslots : i.slots.onClose = j.slots.onClose := by
      rw [hn, hm] at heq ⊢
      exact congrArg (SlotRef.mk · .close) heq
    rw [(registeredOnce_of_reachable ht).once i j hi hj hslots] at hc
    exact hne hc
  refine ⟨htraced.log, fun r hr id obj heq ↦ ?_, fun i hi hc r hr hp ↦ ?_, fun i hi hc b hb ↦ ?_⟩
  · obtain ⟨c', hne, hinv⟩ := htraced.invoked r hr
    rw [heq] at hinv
    exact hne (Eq.symm hinv)
  · obtain ⟨c', hne, hinv⟩ := htraced.invoked r hr
    generalize r.invocation = invocation at hinv hp
    cases invocation with
    | stream c₁ id obj => cases hp
    | onData slot c₁ id data fin =>
      obtain ⟨-, j, hj, rfl, -, rfl⟩ := hinv
      obtain ⟨-, m, -, hm⟩ := hreg.issued j hj
      refine hpair i j hi hj hc hne ?_
      have hdata : j.slots.onData.pair = i.slots.onClose.pair := Option.some.inj hp
      rw [← hdata, hm]
      rfl
    | onClose slot b =>
      obtain ⟨j, hj, rfl, rfl, -⟩ := hinv
      exact hpair i j hi hj hc hne (Option.some.inj hp).symm
  · obtain ⟨c', hne, j, hj, rfl, hslot, -⟩ := htraced.fired _ b hb
    exact hpair i j hi hj hc hne (congrArg SlotRef.pair hslot.symm)

/-- Once its record has been taken, a connection is never served again, and in no run is a
callback of it invoked or one of its streams fired: the driver's late events are dropped, and a
stream that PHP opens on it afterwards is never told that it ends.
`src/quiche/socket.rs:210–254`, `src/quiche/conn.rs:76–118`. -/
theorem departed_unheard (h : world.Reachable w) (hc : c < w.server.idCounter)
    (hgone : ¬ w.server.Serves c) {ls : List Label} (hrun : world.run w ls = some w') :
    ¬ w'.server.Serves c ∧ Unheard c w.server w'.server := by
  obtain ⟨hend, htraced⟩ := gone_run h hc hgone hrun
  exact ⟨hend, unheard_of_traced (server_reachable (Machine.Reachable.run h hrun)) htraced⟩

end

/-- The connection times out with stream 0 open, and its record is taken. -/
def timesOut : List Label :=
  opensZero ++ [.driver 0 (.onConnClose .idleTimeout), .pollCloses [] [], .pollEvents [],
    .pollCloses [] [], .timer]

/-- PHP then opens stream 1 on it, hooks its end, and closes the server. -/
def opensAfter : List Label :=
  [.call (.openBidiStream 0 1), .call (.setOnClose 1 closure), .close [] (fun _ ↦ []) []]

/-- The stream is registered, and its `on_close` is not called. -/
theorem opensAfter_unheard :
    ∃ w w', world.run (.start closure) timesOut = some w ∧ world.run w opensAfter = some w' ∧
      (∃ i : Insertion, .inserted i ∈ w'.server.log ∧ i.connId = 0 ∧ i.streamId = 1 ∧
        w'.server.slots i.slots.onClose = some Server.closure) ∧
      ¬ w'.server.Serves 0 ∧ Unheard 0 w.server w'.server := by
  have hw : (world.run (.start closure) timesOut).map (fun w ↦
      (decide (w.server.Serves 0 ∨ w.server.idCounter ≠ 1), (world.run w opensAfter).map fun w' ↦
        (decide (.inserted ⟨.opened, 0, 0, 1, .ofPair 1, none, false⟩ ∈ w'.server.log),
          w'.server.slots ⟨1, .close⟩))) =
      some (false, some (true, some Server.closure)) := by decide +kernel
  obtain ⟨w, hrun, heq⟩ := Option.map_eq_some_iff.mp hw
  simp only [Prod.mk.injEq, decide_eq_false_iff_not, not_or, Decidable.not_not,
    Option.map_eq_some_iff, decide_eq_true_eq] at heq
  obtain ⟨⟨hgone, hcount⟩, w', hrun', hmem, hslot⟩ := heq
  have hreach : world.Reachable w := Machine.Reachable.run (.init ⟨closure, rfl, rfl⟩) hrun
  exact ⟨w, w', hrun, hrun', ⟨_, hmem, rfl, rfl, hslot⟩,
    departed_unheard hreach (hcount ▸ Nat.zero_lt_one) hgone hrun'⟩

end ExtQuiche.System
