import ExtQuiche.System.Lifecycle

/-!
# The events of each connection

Library `System`. The account of the run, split by connection: what a driver has sent and
read belongs together in every reachable state, and an event of a connection that is still
served was handled with its record.
-/

namespace ExtQuiche.System
open ExtQuiche.Base ExtQuiche.Conn ExtQuiche.Driver ExtQuiche.Server

/-- Events of a connection among events in the account, oldest first. -/
def eventsOf (c : ConnId) (sent : List Sent) : List DriverEvent :=
  sent.filterMap fun s ↦ if s.connId = c then some s.event else none

/-- What drivers sent is what they received. -/
structure World.Accounted (w : World) : Prop where
  drivers : ∀ c d, w.drivers c = some d → Faithful d (eventsOf c w.sent) (w.received c)
  none : ∀ c, w.drivers c = none → eventsOf c w.sent = [] ∧ w.received c = fun _ ↦ []

section

variable {w w' : World} {c : ConnId} {id : StreamId}

/-- Events of two parts of the account. -/
theorem eventsOf_append (c : ConnId) (xs ys : List Sent) :
    eventsOf c (xs ++ ys) = eventsOf c xs ++ eventsOf c ys := List.filterMap_append ..

/-- Events of an account with one more event. -/
theorem eventsOf_snoc (c : ConnId) (xs : List Sent) (s : Sent) :
    eventsOf c (xs ++ [s]) = eventsOf c xs ++ if s.connId = c then [s.event] else [] := by
  rw [eventsOf_append]
  by_cases hc : s.connId = c <;> simp [eventsOf, hc]

/-- An event of a connection is an entry of the account. -/
theorem mem_eventsOf {xs : List Sent} {ev : DriverEvent} :
    ev ∈ eventsOf c xs ↔ ∃ s ∈ xs, s.connId = c ∧ s.event = ev := by
  simp [eventsOf]

private theorem eventsOf_new (c c' : ConnId) (ev : Option DriverEvent) (poll : Nat) :
    eventsOf c (ev.map fun ev ↦ Sent.mk c' ev poll).toList = if c' = c then ev.toList else [] := by
  cases ev with
  | none => simp [eventsOf]
  | some ev => by_cases hc : c' = c <;> simp [eventsOf, hc]

/-- A property of a connection's driver with what it has sent and read: it holds of a fresh
driver, and the calls of the step keep it. -/
structure Tracks (w : World) (l : Label) (P : ConnId → StreamQuicDriver → List DriverEvent →
    (StreamId → List (Bytes × Bool)) → Prop) : Prop where
  build : ∀ c chan, P c (.build c chan) [] fun _ ↦ []
  reads : ∀ {c d op r sent}, l = .driver c (.read op) → w.drivers c = some d →
    Reads d w.events op r → sent = eventsOf c w.sent → P c d sent (w.received c) →
    P c r.driver (sent ++ r.sent.toList) (d.recorded (w.received c) op)
  writes : ∀ {c d tx op r sent received}, Writes d tx op r → P c d sent received →
    P c r.driver sent received
  closed : ∀ {c d sent received}, P c d sent received →
    P c { d with point := .closed } sent received

/-- What a turned driver has sent and read, with the other drivers as they were. -/
private theorem tracked_turned {P : ConnId → StreamQuicDriver → List DriverEvent →
      (StreamId → List (Bytes × Bool)) → Prop}
    (hi : ∀ c d, w.drivers c = some d → P c d (eventsOf c w.sent) (w.received c))
    {d : StreamQuicDriver} (hdrivers : w'.drivers = Function.update w.drivers c (some d))
    (hd : P c d (eventsOf c w'.sent) (w'.received c))
    (hother : ∀ c', c' ≠ c → eventsOf c' w'.sent = eventsOf c' w.sent ∧
      w'.received c' = w.received c') :
    ∀ c d, w'.drivers c = some d → P c d (eventsOf c w'.sent) (w'.received c) := by
  intro c' d' hd'
  rw [hdrivers, Function.update_apply] at hd'
  split at hd'
  · next heq =>
    cases hd'
    exact heq ▸ hd
  · next hne =>
    rw [(hother c' hne).1, (hother c' hne).2]
    exact hi c' d' hd'

private theorem sent_read (d : StreamQuicDriver) (r : ReadResult) (c : ConnId) :
    eventsOf c (w.handled.map (·.sent) ++ (w.pending ++
      (r.sent.map fun ev ↦ Sent.mk d.connId ev w.polls).toList)) =
      eventsOf c w.sent ++ if d.connId = c then r.sent.toList else [] := by
  rw [← List.append_assoc, eventsOf_append, eventsOf_new]
  rfl

/-- A step keeps what its calls keep of every driver. -/
theorem Tracks.step {P : ConnId → StreamQuicDriver → List DriverEvent →
      (StreamId → List (Bytes × Bool)) → Prop} {l : Label} (hP : Tracks w l P) (hw : w.Linked)
    (hnone : ∀ c, w.drivers c = none → eventsOf c w.sent = [] ∧ w.received c = fun _ ↦ [])
    (hi : ∀ c d, w.drivers c = some d → P c d (eventsOf c w.sent) (w.received c))
    (h : Happens w l w') :
    ∀ c d, w'.drivers c = some d → P c d (eventsOf c w'.sent) (w'.received c) := by
  have hsent := h.sent
  cases h with
  | dispatched tape c ev rest s ht hq hs =>
    rcases hsent with hsame | ⟨d, r, c', op, hl, -⟩
    · rw [hsame]
      exact hi
    · cases hl
  | accepted peerAddr ht hfree =>
    obtain ⟨hnew, hreceived⟩ := hnone _ hw.fresh
    refine tracked_turned hi rfl ?_ fun _ _ ↦ ⟨rfl, rfl⟩
    change P _ _ (eventsOf _ w.sent) (w.received _)
    rw [hnew, hreceived]
    exact hP.build _ _
  | read c d op r hd hr =>
    obtain rfl := (hw.drivers c d hd).2
    refine tracked_turned hi rfl ?_ fun c' hne ↦ ⟨?_, Function.update_of_ne hne ..⟩
    · simp only [World.sent, sent_read, World.recorded, if_true, Function.update_self]
      exact hP.reads rfl hd hr rfl (hi _ d hd)
    · simp only [World.sent, sent_read, if_neg hne.symm, List.append_nil]
  | wrote c d op r hd hr =>
    obtain rfl := (hw.drivers c d hd).2
    exact tracked_turned hi rfl (hP.writes hr (hi _ d hd)) fun _ _ ↦ ⟨rfl, rfl⟩
  | ended c d e hd hp =>
    obtain rfl := (hw.drivers c d hd).2
    exact tracked_turned hi rfl (hP.closed (hi _ d hd)) fun _ _ ↦ ⟨rfl, rfl⟩
  | _ => exact hi

/-- Where there is no driver, nothing was sent and read. -/
private theorem unsent_step {l : Label} (hw : w.Linked)
    (hi : ∀ c, w.drivers c = none → eventsOf c w.sent = [] ∧ w.received c = fun _ ↦ [])
    (h : Happens w l w') (c : ConnId) (hno : w'.drivers c = none) :
    eventsOf c w'.sent = [] ∧ w'.received c = fun _ ↦ [] := by
  have hold : w.drivers c = none := by
    rw [Option.eq_none_iff_forall_ne_some]
    intro d hd
    obtain ⟨d', hd'⟩ := (h.drivers hw).hasDriver ⟨d, hd⟩
    rw [hno] at hd'
    cases hd'
  have hsent := h.sent
  cases h with
  | dispatched tape c' ev rest s ht hq hs =>
    rcases hsent with hsame | ⟨d, r, c', op, hl, -⟩
    · rw [hsame]
      exact hi c hold
    · cases hl
  | read c' d op r hd hr =>
    obtain rfl := (hw.drivers c' d hd).2
    have hne : d.connId ≠ c := by
      rintro rfl
      rw [hd] at hold
      cases hold
    simp only [World.sent, sent_read, if_neg hne, List.append_nil, World.recorded,
      Function.update_of_ne hne.symm]
    exact hi c hold
  | _ => exact hi c hold

/-- In every reachable state the events of each connection account for its reads. -/
theorem accounted_of_reachable (h : world.Reachable w) : w.Accounted := by
  refine h.invariant (I := World.Accounted) ?_ fun w l w' hs hi _ ht ↦ ?_
  · rintro _ ⟨callback, -, rfl⟩
    exact ⟨fun _ _ hno ↦ (by cases hno), fun _ _ ↦ ⟨rfl, rfl⟩⟩
  · have hw := linked_of_reachable hs
    have htracks : Tracks w l fun _ ↦ Faithful :=
      ⟨faithful_build, fun _ _ hr _ hf ↦ hf.reads hr, fun hr hf ↦ hf.writes hr,
        fun hf ↦ hf.moved rfl (by simp)⟩
    exact ⟨htracks.step hw hi.none hi.drivers (step_happens ht),
      unsent_step hw hi.none (step_happens ht)⟩

/-- A connection that an event was handled for is served after a step only if it was
before. -/
theorem serves_of_handled {l : Label} (hw : w.Linked) (h : Happens w l w') {e : Handled}
    (he : e ∈ w.handled) (hs : w'.server.Serves e.sent.connId) :
    w.server.Serves e.sent.connId := by
  apply (h.serves hs).resolve_right
  rintro ⟨heq, -⟩
  obtain ⟨d, hd⟩ := hw.senders e.sent (List.mem_append_left _ (List.mem_map_of_mem he))
  exact Nat.lt_irrefl _ (heq ▸ (hw.drivers _ d hd).1)

/-- The first pending event is handled. -/
structure Handles (w w' : World) (first : Sent) (tape : List Script) : Prop where
  happens : Happens w (.pollEvents tape) w'
  pending : ∃ later, w.pending = first :: later
  step : w.server.step (.driverEvent first.connId first.event tape) = some w'.server
  handled : w'.handled = w.handled ++ [⟨first, w.server.connections[first.connId]?.isSome⟩]

/-- The handled event comes next in the account of its connection. -/
theorem Handles.next {first : Sent} {tape : List Script} (h : Handles w w' first tape)
    (hc : first.connId = c) :
    eventsOf c (w.handled.map (·.sent)) ++ [first.event] <+: eventsOf c w.sent := by
  obtain ⟨later, hp⟩ := h.pending
  have hsplit : eventsOf c w.sent =
      (eventsOf c (w.handled.map (·.sent)) ++ [first.event]) ++ eventsOf c later := by
    rw [World.sent, hp, List.append_cons, eventsOf_append, eventsOf_snoc, if_pos hc]
  exact ⟨_, hsplit.symm⟩

/-- A step handles the first pending event, or none. -/
theorem Happens.handles {l : Label} (h : Happens w l w') (hw : w.Linked) :
    (∃ first tape, l = .pollEvents tape ∧ Handles w w' first tape) ∨
      w'.handled = w.handled ∧ (w'.server = w.server ∨ ∃ k, w.server.step k = some w'.server ∧
        ∀ c ev tape, k ≠ .driverEvent c ev tape) := by
  have hserver := h.server
  have hhappens := h
  cases h with
  | dispatched tape c' ev rest s ht hq hs =>
    have hpending := hw.pending
    rw [hq] at hpending
    obtain ⟨first, later, hp, hfirst, -⟩ := List.map_eq_cons_iff.mp hpending
    obtain ⟨rfl, rfl⟩ := Prod.mk.inj hfirst
    exact .inl ⟨first, tape, rfl, hhappens, ⟨later, hp⟩, hs, by simp [hp]⟩
  | noEvent tape ht hq => exact .inr ⟨rfl, .inl rfl⟩
  | moved l p hl ht hp => exact .inr ⟨rfl, .inl rfl⟩
  | _ =>
    refine .inr ⟨rfl, hserver.imp_right fun ⟨k, hk, hor⟩ ↦ ⟨k, hk, hor.resolve_left ?_⟩⟩
    rintro ⟨tape, heq⟩
    cases heq

/-- Every event of a connection that is served was handled with its record. -/
theorem found_of_reachable (h : world.Reachable w) :
    ∀ e ∈ w.handled, w.server.Serves e.sent.connId → e.found = true := by
  refine h.invariant
    (I := fun w ↦ ∀ e ∈ w.handled, w.server.Serves e.sent.connId → e.found = true) ?_ ?_
  · rintro _ ⟨callback, -, rfl⟩ e hno
    exact absurd hno List.not_mem_nil
  · intro w l w' hreach hi _ ht e he hs
    have hw := linked_of_reachable hreach
    have h := step_happens ht
    rcases h.handles hw with ⟨first, tape, rfl, hh⟩ | ⟨hsame, -⟩
    · rw [hh.handled] at he
      rcases List.mem_append.mp he with he | he
      · exact hi e he (serves_of_handled hw h he hs)
      · cases List.mem_singleton.mp he
        exact (serves_iff_of_free (free_of_handle hh.step) _).mp (((serves_step hh.step).2 _).mp hs)
    · rw [hsame] at he
      exact hi e he (serves_of_handled hw h he hs)

end

end ExtQuiche.System
