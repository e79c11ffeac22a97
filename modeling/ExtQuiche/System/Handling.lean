import ExtQuiche.Base.Progress
import ExtQuiche.Server.Isolation
import ExtQuiche.System.Accounts
import ExtQuiche.System.Loop

/-!
# Events come first

Library `System`. The event arm is the first of the biased `select!` of
`src/quiche/socket.rs:151–183`, so an event that a driver has sent is handled after the events
before it and little else, whatever else arrives. The other arms are polled only where the
channel of events is found empty, and one driver that goes on sending keeps them waiting.
-/

namespace ExtQuiche.System
open ExtQuiche.Base ExtQuiche.Conn ExtQuiche.Driver ExtQuiche.Server

/-- The PHP thread enters `tick` or goes on in it. -/
def Label.Turns : Label → Prop
  | .enterTick => True
  | .pollEvents _ => True
  | .pollCloses _ _ => True
  | .accept _ => True
  | .insertConn => True
  | .again => True
  | .timer => True
  | .call _ => False
  | .close _ _ _ => False
  | .driver _ _ => False

instance : DecidablePred Label.Turns
  | .enterTick | .pollEvents _ | .pollCloses _ _ | .accept _ | .insertConn | .again
  | .timer => .isTrue trivial
  | .call _ | .close _ _ _ | .driver _ _ => .isFalse id

/-- The driver of the connection reads, of all streams only this one, or the loop takes an event
whose callbacks do nothing. -/
def Label.Feeds (c : ConnId) (id : StreamId) : Label → Prop
  | .pollEvents tape => tape = []
  | .driver c' (.read (.readableNext (some id'))) => c' = c ∧ id' = id
  | .driver c' (.read _) => c' = c
  | _ => False

/-- Turns until the event arm is polled next. -/
def TickPoint.toEvents : TickPoint → Nat
  | .eventArm => 0
  | .inserting => 1
  | .outside => 1
  | .otherArms => 2
  | .closeArm => 3

/-- A close of the server between two ticks returns. -/
def CloseReturns (w : World) : Label → Prop
  | .close conns orders tape =>
    ∀ w' ∈ world.step w (.close conns orders tape), w'.server.hung = none
  | _ => True

instance (w : World) : ∀ l, Decidable (CloseReturns w l)
  | .close _ _ _ => inferInstanceAs (Decidable (∀ _ ∈ _, _))
  | .enterTick | .pollEvents _ | .pollCloses _ _ | .accept _ | .insertConn | .again | .timer
  | .call _ | .driver _ _ => .isTrue trivial

/-- Runs in which PHP always comes back to `tick`. -/
def ticking : Machine World Label := world.restrict CloseReturns

namespace World

/-- The event that was sent in `k`-th place has been handled in `k`-th place, or a callback
hangs. -/
def HandledAt (k : Nat) (s : Sent) (w : World) : Prop :=
  w.handled[k]?.map (·.sent) = some s ∨ w.server.hung ≠ none

/-- Turns until the event in `k`-th place is handled: one for each event up to it, and those
to the event arm. -/
def turnsTo (w : World) (k : Nat) : Nat := k + 1 - w.handled.length + w.tick.toEvents

end World

section

variable {w w' : World} {l : Label} {k : Nat} {s : Sent}

/-- The PHP thread has not come to the event yet. -/
private structure Due (k : Nat) (s : Sent) (w : World) : Prop where
  reach : world.Reachable w
  free : w.server.hung = none
  sent : w.sent[k]? = some s
  waiting : w.handled.length ≤ k

/-- What has been sent in some place stays there. -/
private theorem sent_stays (hs : w.sent[k]? = some s) (h : Happens w l w') :
    w'.sent[k]? = some s := by
  rcases h.sent with hsame | ⟨d, r, -, -, -, -, -, hmore⟩
  · rw [hsame, hs]
  · obtain ⟨hlt, -⟩ := List.getElem?_eq_some_iff.mp hs
    rw [hmore, List.getElem?_append_left hlt, hs]

/-- An event that was sent has been handled in its place, or is not yet due. -/
private theorem handledAt_or_due (h : world.Reachable w) (hfree : w.server.hung = none)
    (hs : w.sent[k]? = some s) : w.HandledAt k s ∨ Due k s w := by
  by_cases hk : k < w.handled.length
  · refine .inl (.inl ?_)
    rwa [World.sent, List.getElem?_append_left (by simpa using hk), List.getElem?_map] at hs
  · exact .inr ⟨h, hfree, hs, Nat.le_of_not_lt hk⟩

/-- An event that is due is on the channel. -/
private theorem Due.queue (h : Due k s w) : w.events.queue ≠ [] := by
  rw [← (linked_of_reachable h.reach).pending]
  intro hno
  have hsent := h.sent
  rw [World.sent, List.map_eq_nil_iff.mp hno, List.append_nil, List.getElem?_map,
    List.getElem?_eq_none h.waiting] at hsent
  cases hsent

/-- A turn brings the event nearer. -/
private theorem turn_step (hi : Due k s w) (hl : l.Turns) (ht : world.step w l = some w') :
    (w'.HandledAt k s ∨ Due k s w') ∧ w'.turnsTo k < w.turnsTo k := by
  have hstep := step_happens ht
  have hlt : w'.turnsTo k < w.turnsTo k := by
    have hwaiting := hi.waiting
    unfold World.turnsTo
    cases hstep with
    | moved l p hm =>
      rcases hm with rfl | rfl | rfl
      · obtain ⟨htick, heq⟩ := goOn_eq_some ht
        cases heq
        simp only [htick, TickPoint.toEvents]
        omega
      · obtain ⟨htick, heq⟩ := goOn_eq_some ht
        cases heq
        simp only [htick, TickPoint.toEvents]
        omega
      · obtain ⟨htick, heq⟩ := goOn_eq_some ht
        cases heq
        simp only [htick, TickPoint.toEvents]
        omega
    | noEvent tape htick hq => exact absurd hq hi.queue
    | dispatched tape c ev rest server htick hq hs =>
      obtain ⟨first, later, hp, -⟩ := List.map_eq_cons_iff.mp
        ((linked_of_reachable hi.reach).pending.trans hq)
      simp only [hp, List.head?_cons, Option.map_some, Option.toList_some, List.length_append,
        List.length_singleton]
      omega
    | noClose order tape htick hq =>
      simp only [htick, TickPoint.toEvents]
      omega
    | closed order tape c b rest server htick hq hs =>
      simp only [htick, TickPoint.toEvents]
      omega
    | accepted peerAddr htick hfree =>
      simp only [htick, TickPoint.toEvents]
      omega
    | inserted c st htick hacc =>
      simp only [htick, TickPoint.toEvents]
      omega
    | _ => exact False.elim hl
  refine ⟨?_, hlt⟩
  by_cases hfree : w'.server.hung = none
  · exact handledAt_or_due (hi.reach.step l trivial ht) hfree (sent_stays hi.sent hstep)
  · exact .inl (.inr hfree)

/-- PHP's calls between two ticks invoke nothing, and so do not hang. -/
private theorem call_returns (h : world.Reachable w) {call : PhpCall} {t : QuicheServerSocketImpl}
    (ht : w.server.step (.call call) = some t) : t.hung = none := by
  have hserver := server_reachable h
  have htraced := (stable_traced (A := fun _ _ ↦ False) (K := fun _ _ ↦ False)
    (fun _ _ _ _ hno ↦ hno) w.server).step_call ht
      (fun _ _ hu he ↦ hu.effect (fun _ _ _ _ hno ↦ hno) he) (Traced.of_log rfl)
  have hold := (audited_of_reachable hserver).hung_iff.mp (free_of_handle ht).1
  refine (audited_of_reachable (hserver.step (.call call) trivial ht)).hung_iff.mpr fun r hr ↦ ?_
  obtain ⟨more, hmore⟩ := htraced.log
  rw [← hmore] at hr
  rcases List.mem_append.mp hr with hr | hr
  · exact hold r hr
  · refine False.elim (htraced.invoked r ?_)
    rw [← hmore, List.drop_left]
    exact hr

/-- The other parties leave the PHP thread where it stands. -/
private theorem others_turn (hi : Due k s w) (hl : ¬ l.Turns) (hok : CloseReturns w l)
    (ht : world.step w l = some w') : Due k s w' ∧ w'.turnsTo k = w.turnsTo k := by
  have hstep := step_happens ht
  have hreach := hi.reach.step l trivial ht
  have hsame : w'.tick = w.tick ∧ w'.handled = w.handled ∧ w'.server.hung = none := by
    cases hstep with
    | called call server htick hs => exact ⟨rfl, rfl, call_returns hi.reach hs⟩
    | serverClosed conns orders tape server htick hs => exact ⟨rfl, rfl, hok _ ht⟩
    | moved l p hm => rcases hm with rfl | rfl | rfl <;> exact absurd trivial hl
    | noEvent => exact absurd trivial hl
    | dispatched => exact absurd trivial hl
    | noClose => exact absurd trivial hl
    | closed => exact absurd trivial hl
    | accepted => exact absurd trivial hl
    | inserted => exact absurd trivial hl
    | _ => exact ⟨rfl, rfl, hi.free⟩
  obtain ⟨htick, hhandled, hfree⟩ := hsame
  refine ⟨⟨hreach, hfree, sent_stays hi.sent hstep, hhandled ▸ hi.waiting⟩, ?_⟩
  rw [World.turnsTo, World.turnsTo, htick, hhandled]

/-- The PHP thread can always take its turn. -/
private theorem turn_can (hi : Due k s w) : ∃ l w', l.Turns ∧ ticking.step w l = some w' := by
  have hgo : ∀ l w', l.Turns → world.step w l = some w' → ∃ l w', l.Turns ∧
      ticking.step w l = some w' := by
    intro l w' hl ht
    refine ⟨l, w', hl, (Machine.restrict_step _).mpr ⟨?_, ht⟩⟩
    cases l <;> trivial
  by_cases hout : w.tick = .outside
  · exact hgo .enterTick _ trivial (if_pos ⟨hout, hi.free⟩)
  by_cases hothers : w.tick = .otherArms
  · exact hgo .again _ trivial (if_pos ⟨hothers, hi.free⟩)
  · obtain ⟨l, w', hl, ht⟩ := drains_can hi.reach ⟨hout, hi.free⟩ hothers
    refine hgo l w' ?_ ht
    cases l <;> trivial

private theorem turns_descend (k : Nat) (s : Sent) :
    ticking.Descends Label.Turns (World.HandledAt k s) (Due k s) (World.turnsTo · k) where
  can _ hi := turn_can hi
  own _ _ _ hi hl ht := turn_step hi hl ((Machine.restrict_step _).mp ht).2
  env _ _ _ hi hl ht := by
    obtain ⟨hok, ht⟩ := (Machine.restrict_step _).mp ht
    obtain ⟨hdue, heq⟩ := others_turn hi hl hok ht
    exact ⟨hdue, heq.le⟩

/-- Every event that a driver has sent is handled in its turn, unless a callback hangs before:
however many events, close messages and connections arrive in the meantime, and however often
`tick` returns, that takes at most one turn of the PHP thread for each event up to this one
and three more. `src/quiche/socket.rs:151–237`. -/
theorem sent_handled (h : world.Reachable w) (hfree : w.server.hung = none)
    (hs : w.sent[k]? = some s) :
    ticking.Inevitable Label.Turns (World.HandledAt k s) w ∧
      ∀ ls w', ticking.run w ls = some w' →
        ticking.Along (fun u _ ↦ ¬ u.HandledAt k s) w ls →
        ls.countP (Label.Turns ·) ≤ k + 1 - w.handled.length + 3 := by
  have hrank : w.tick.toEvents ≤ 3 := by cases w.tick <;> decide
  have hinside := handledAt_or_due h hfree hs
  refine ⟨?_, fun ls w' hrun hway ↦ ?_⟩
  · rcases hinside with hnow | hdue
    · exact .now hnow
    · exact (turns_descend k s).inevitable hdue
  · have hsteps := (turns_descend k s).countP_le ((turns_descend k s).along hinside hway) hrun
    unfold World.turnsTo at hsteps
    omega

/-- Since `s` only callbacks without calls have been run, and none is to make one. -/
private structure Calm (s t : QuicheServerSocketImpl) : Prop where
  tape : t.tape = []
  runs : ∀ r, .invoked r ∈ t.log → .invoked r ∈ s.log ∨ r.script.calls = []

private theorem calm_noted {s t : QuicheServerSocketImpl} (h : Calm s t) {e : Obs}
    (he : ∀ r, e = .invoked r → r.script.calls = []) {u : QuicheServerSocketImpl}
    (htape : u.tape = []) (hu : u.log = t.log ++ [e]) : Calm s u := by
  refine ⟨htape, fun r hr ↦ ?_⟩
  rw [hu] at hr
  rcases List.mem_append.mp hr with hr | hr
  · exact h.runs r hr
  · exact .inr (he r (List.mem_singleton.mp hr).symm)

private theorem stable_calm (s : QuicheServerSocketImpl) :
    Stable (fun _ _ ↦ True) (fun _ _ ↦ True) (Calm s) where
  grows _ _ _ _ h := h
  callback {t invocation} held _ ht := by
    have hscript : t.nextScript = ⟨[], none⟩ := by
      rw [QuicheServerSocketImpl.nextScript, ht.tape]
      rfl
    rw [hscript]
    refine .pure ?_
    rintro u rfl
    refine calm_noted ht (e := .invoked ⟨invocation, held, t.objects, t.nextScript⟩) ?_ ?_ rfl
    · rintro r heq
      cases heq
      exact congrArg Script.calls hscript
    · rw [QuicheServerSocketImpl.entered, ht.tape]
      rfl
  fireOnClose slot b _ ht := calm_noted ht (by simp) ht.tape rfl
  firedOnClose slot ht := calm_noted ht (by simp) ht.tape rfl
  announced _ _ _ _ ht := calm_noted ht (by simp) ht.tape rfl
  removed _ ht := ⟨ht.tape, ht.runs⟩
  emptied _ ht := ⟨ht.tape, ht.runs⟩
  hung _ ht := ⟨ht.tape, ht.runs⟩

/-- Where its callbacks do nothing, an event does not hang the thread. -/
private theorem event_returns (h : world.Reachable w) {c : ConnId} {ev : DriverEvent}
    {t : QuicheServerSocketImpl} (ht : w.server.step (.driverEvent c ev []) = some t) :
    t.hung = none := by
  have hserver := server_reachable h
  have hcalm : Calm w.server t := (stable_calm w.server).step_driverEvent ht
    ⟨rfl, fun _ ↦ .inl⟩ (fun _ _ ↦ trivial) (fun _ _ _ _ _ _ _ ↦ trivial)
    (fun _ _ _ _ _ ↦ trivial) fun _ _ _ _ _ _ _ _ ↦ trivial
  have hold := (audited_of_reachable hserver).hung_iff.mp (free_of_handle ht).1
  refine (audited_of_reachable (hserver.step (.driverEvent c ev []) trivial ht)).hung_iff.mpr
    fun r hr ↦ ?_
  rcases hcalm.runs r hr with hr | hnone
  · exact hold r hr
  · intro call hcall
    rw [hnone] at hcall
    exact absurd hcall List.not_mem_nil

/-- Permits of the event channel that a driver holds at the point. -/
private def permitsAt : Point → Nat
  | .recv _ => 1
  | _ => 0

/-- The loop stands at the event arm and a driver of the connection at the point, and a place of
the channel is not reserved by the others. -/
private structure Busy (c : ConnId) (p : Point) (queue : List (ConnId × DriverEvent))
    (w : World) : Prop where
  reach : world.Reachable w
  tick : w.tick = .eventArm
  free : w.server.hung = none
  place : w.events.connected = true ∧ permitsAt p ≤ w.events.reserved ∧
    w.events.reserved < w.events.capacity + permitsAt p
  queue : w.events.queue = queue
  driver : ∃ d, w.drivers c = some d ∧ d.point = p

private theorem Busy.hasRoom {c : ConnId} {p : Point} (h : Busy c p [] w) (hp : permitsAt p = 0) :
    w.events.HasRoom := by
  rw [Channel.HasRoom, h.queue, List.length_nil, Nat.zero_add]
  exact ⟨h.place.1, by simpa [hp] using h.place.2.2⟩

/-- The run feeds the loop from the stream, and handles `n` events. -/
private structure Busies (c : ConnId) (id : StreamId) (w : World) (ls : List Label) (n : Nat)
    (w' : World) : Prop where
  run : world.run w ls = some w'
  labels : ∀ l ∈ ls, l.Feeds c id
  closes : w'.closes = w.closes
  handled : w'.handled.length = w.handled.length + n

section
variable {c : ConnId} {id : StreamId} {p p' : Point} {queue queue' : List (ConnId × DriverEvent)}

private theorem Busies.trans {u : World} {ls ms : List Label} {m n : Nat}
    (h : Busies c id w ls m w') (h' : Busies c id w' ms n u) :
    Busies c id w (ls ++ ms) (m + n) u := by
  refine ⟨?_, fun l hl ↦ ?_, h'.closes.trans h.closes, ?_⟩
  · rw [Machine.run_append, h.run, Option.bind_some, h'.run]
  · exact (List.mem_append.mp hl).elim (h.labels l) (h'.labels l)
  · rw [h'.handled, h.handled, Nat.add_assoc]

private theorem Busies.single {n : Nat} (ht : world.step w l = some w') (hl : l.Feeds c id)
    (hcloses : w'.closes = w.closes) (hhandled : w'.handled.length = w.handled.length + n) :
    Busies c id w [l] n w' := by
  refine ⟨?_, fun l' hl' ↦ List.mem_singleton.mp hl' ▸ hl, hcloses, hhandled⟩
  rw [Machine.run_cons, ht]
  rfl

/-- A poll of the event arm takes an event. -/
private theorem busies_poll (id : StreamId) {first : ConnId × DriverEvent}
    (h : Busy c p (first :: queue) w) :
    ∃ w', Busies c id w [.pollEvents []] 1 w' ∧ Busy c p queue w' := by
  obtain ⟨sent, later, hp, -⟩ := List.map_eq_cons_iff.mp
    ((linked_of_reachable h.reach).pending.trans h.queue)
  have hacc : w.server.accepting = none := by
    by_contra hne
    exact absurd ((linked_of_reachable h.reach).inserting hne) (by simp [h.tick])
  obtain ⟨t, hs⟩ : ∃ t, w.server.step (.driverEvent first.1 first.2 []) = some t :=
    ⟨_, if_pos ⟨h.free, hacc⟩⟩
  have hstep : world.step w (.pollEvents []) = some { w with
      server := t
      events := { w.events with queue := queue }
      polls := w.polls + 1
      pending := w.pending.tail
      handled := w.handled ++ (w.pending.head?.map fun sent ↦
        ⟨sent, w.server.connections[first.1]?.isSome⟩).toList } := by
    simp [world, World.step, World.goOn, World.pollEvents, Channel.tryRecv, h.queue, h.tick,
      h.free, hs]
  refine ⟨_, .single hstep rfl rfl (by simp [hp]), ?_⟩
  exact ⟨h.reach.step _ trivial hstep, h.tick, event_returns h.reach hs, h.place, rfl, h.driver⟩

/-- The events on the channel are taken one after the other. -/
private theorem busies_all (id : StreamId) (h : Busy c p queue w) :
    ∃ ls w', Busies c id w ls queue.length w' ∧ Busy c p [] w' := by
  induction queue generalizing w with
  | nil => exact ⟨[], w, ⟨rfl, by simp, rfl, rfl⟩, h⟩
  | cons first rest ih =>
    obtain ⟨u, hu, hbusy⟩ := busies_poll id h
    obtain ⟨ls, w', hw', hbusy'⟩ := ih hbusy
    exact ⟨_, w', Nat.add_comm 1 rest.length ▸ hu.trans hw', hbusy'⟩

/-- The driver makes its next call. -/
private theorem busies_read (id : StreamId) (o : ReadOp) (p' : Point) {d : StreamQuicDriver}
    (h : Busy c p queue w) (hd : w.drivers c = some d)
    (ho : Label.Feeds c id (.driver c (.read o))) {r : ReadResult}
    (hr : readStep d w.events o = some r) (hp : r.driver.point = p')
    (hplace : r.events.connected = true ∧ permitsAt p' ≤ r.events.reserved ∧
      r.events.reserved < r.events.capacity + permitsAt p')
    (hq : r.events.queue = queue') :
    ∃ w', Busies c id w [.driver c (.read o)] 0 w' ∧ Busy c p' queue' w' := by
  obtain rfl := ((linked_of_reachable h.reach).drivers c d hd).2
  have hstep : world.step w (.driver d.connId (.read o)) = some { w with
      events := r.events
      drivers := Function.update w.drivers d.connId (some r.driver)
      pending := w.pending ++ (r.sent.map fun ev ↦ ⟨d.connId, ev, w.polls⟩).toList
      received := w.recorded d o } := by
    simp [world, World.step, World.driverStep, hd, hr]
  exact ⟨_, .single hstep ho rfl rfl, h.reach.step _ trivial hstep, h.tick, h.free, hplace, hq,
    r.driver, Function.update_self .., hp⟩

/-- A driver that is called finds the stream to read. -/
private theorem busies_call (id : StreamId) (h : Busy c .idle [] w) :
    ∃ ls w' p', Busies c id w ls 0 w' ∧ Busy c p' [] w' ∧
      (p' = .announce id ∨ p' = .reserve id) := by
  obtain ⟨d, hd, hp⟩ := h.driver
  obtain ⟨u, hu, hbusy⟩ := busies_read id .call .readableNext h hd rfl
    (r := ⟨{ d with point := .readableNext }, w.events, none⟩) (by simp [readStep, hp]) rfl
    h.place h.queue
  obtain ⟨d, hd, hp⟩ := hbusy.driver
  obtain ⟨p', hvisit, hp'⟩ := d.visit_eq id
  obtain ⟨v, hv, hbusy'⟩ := busies_read id (.readableNext (some id)) p' hbusy hd ⟨rfl, rfl⟩
    (r := ⟨d.visit id, u.events, none⟩) (by simp [readStep, hp])
    (congrArg (·.point) hvisit) (by rcases hp' with rfl | rfl <;> exact hbusy.place) hbusy.queue
  exact ⟨_, v, p', hu.trans hv, hbusy', hp'⟩

/-- It announces the stream, and the event arm takes the announcement. -/
private theorem busies_announce (h : Busy c (.announce id) [] w) :
    ∃ ls w', Busies c id w ls 1 w' ∧ Busy c (.reserve id) [] w' := by
  obtain ⟨d, hd, hp⟩ := h.driver
  obtain ⟨u, hu, hbusy⟩ := busies_read id .tryReserve (.reserve id) h hd rfl
    (r := ⟨{ d with seenStreams := insert id d.seenStreams, point := .reserve id },
      { w.events with queue := w.events.queue ++ [(d.connId, announcement id)] },
      some (announcement id)⟩)
    (by simp [readStep, hp, Channel.tryReserve, h.hasRoom rfl, Channel.send]) rfl h.place
    (show _ = [(d.connId, announcement id)] by simp [h.queue])
  obtain ⟨w', hw', hbusy'⟩ := busies_poll id hbusy
  exact ⟨_, w', hu.trans hw', hbusy'⟩

/-- It takes a permit. -/
private theorem busies_permit (h : Busy c (.reserve id) [] w) :
    ∃ w', Busies c id w [.driver c (.read .tryReserve)] 0 w' ∧ Busy c (.recv id) [] w' := by
  obtain ⟨d, hd, hp⟩ := h.driver
  refine busies_read id .tryReserve (.recv id) h hd rfl (r := ⟨{ d with point := .recv id },
    { w.events with reserved := w.events.reserved + 1 }, none⟩) ?_ rfl ?_ h.queue
  · simp [readStep, hp, Channel.tryReserve, h.hasRoom rfl]
  · exact ⟨h.place.1, Nat.le_add_left .., Nat.succ_lt_succ h.place.2.2⟩

/-- It reads a chunk, and the event arm takes it. -/
private theorem busies_chunk (h : Busy c (.reserve id) [] w) :
    ∃ ls w', Busies c id w ls 1 w' ∧ Busy c (.reserve id) [] w' := by
  obtain ⟨u, hu, hbusy⟩ := busies_permit h
  obtain ⟨d, hd, hp⟩ := hbusy.driver
  obtain ⟨hconn, hle, hlt⟩ := hbusy.place
  have hfreed : u.events.reserved - 1 < u.events.capacity := (Nat.sub_lt_iff_lt_add hle).mpr hlt
  obtain ⟨v, hv, hbusy⟩ := busies_read id (.streamRecv (.ok ([97], false))) (.reserve id) hbusy
    hd rfl
    (r := ⟨d.received id false, u.events.send (d.connId, .data id [97] false),
      some (.data id [97] false)⟩)
    (by simp [readStep, hp]) rfl ⟨hconn, Nat.zero_le _, hfreed⟩
    (show _ = [(d.connId, .data id [97] false)] by
      rw [Channel.queue_send, hbusy.queue, List.nil_append])
  obtain ⟨w', hw', hbusy⟩ := busies_poll id hbusy
  exact ⟨_, w', (hu.trans hv).trans hw', hbusy⟩

/-- The stream has nothing more, and the pass ends. -/
private theorem busies_done (h : Busy c (.reserve id) [] w) :
    ∃ ls w', Busies c id w ls 0 w' ∧ Busy c .idle [] w' := by
  obtain ⟨u, hu, hbusy⟩ := busies_permit h
  obtain ⟨d, hd, hp⟩ := hbusy.driver
  obtain ⟨hconn, hle, hlt⟩ := hbusy.place
  have hfreed : u.events.reserved - 1 < u.events.capacity := (Nat.sub_lt_iff_lt_add hle).mpr hlt
  obtain ⟨v, hv, hbusy⟩ := busies_read id (.streamRecv (.error .done)) .readableNext hbusy hd rfl
    (r := ⟨{ d with point := .readableNext }, u.events.release, none⟩)
    (by simp [readStep, hp]) rfl ⟨hconn, Nat.zero_le _, hfreed⟩ hbusy.queue
  obtain ⟨d, hd, hp⟩ := hbusy.driver
  obtain ⟨w', hw', hbusy⟩ := busies_read id (.readableNext none) .idle hbusy hd rfl
    (r := ⟨{ d with point := .idle }, v.events, none⟩) (by simp [readStep, hp]) rfl
    hbusy.place hbusy.queue
  exact ⟨_, w', (hu.trans hv).trans hw', hbusy⟩

/-- A pass that finds a chunk on the stream. -/
private theorem busies_pass (id : StreamId) (h : Busy c .idle [] w) :
    ∃ ls n w', Busies c id w ls (n + 1) w' ∧ Busy c .idle [] w' := by
  obtain ⟨ls, u, p, hu, hbusy, hp⟩ := busies_call id h
  obtain ⟨ms, n, v, hv, hbusy⟩ :
      ∃ ms n v, Busies c id u ms n v ∧ Busy c (.reserve id) [] v := by
    rcases hp with rfl | rfl
    · obtain ⟨ms, v, hv, hbusy⟩ := busies_announce hbusy
      exact ⟨ms, 1, v, hv, hbusy⟩
    · exact ⟨[], 0, u, ⟨rfl, by simp, rfl, rfl⟩, hbusy⟩
  obtain ⟨ks, x, hx, hbusy⟩ := busies_chunk hbusy
  obtain ⟨js, w', hw', hbusy⟩ := busies_done hbusy
  exact ⟨_, n, w', Nat.zero_add n ▸ ((hu.trans hv).trans hx).trans hw', hbusy⟩

/-- Any number of passes. -/
private theorem busies_passes (id : StreamId) (n : Nat) (h : Busy c .idle [] w) :
    ∃ ls m w', Busies c id w ls (n + m) w' ∧ Busy c .idle [] w' := by
  induction n generalizing w with
  | zero => exact ⟨[], 0, w, ⟨rfl, by simp, rfl, rfl⟩, h⟩
  | succ n ih =>
    obtain ⟨ls, k, u, hu, hbusy⟩ := busies_pass id h
    obtain ⟨ms, m, w', hw', hbusy'⟩ := ih hbusy
    have hcount : k + 1 + (n + m) = n + 1 + (m + k) := by omega
    exact ⟨_, m + k, w', hcount ▸ hu.trans hw', hbusy'⟩

end

/-- One stream keeps the loop from everything else: as long as each pass of its driver finds a
chunk on it, the events are taken one by one, and neither a close message nor a connection nor
the timer is looked at, however often that is repeated. `src/quiche/socket.rs:156–181`. -/
theorem events_starve (h : world.Reachable w) (htick : w.tick = .eventArm)
    (hfree : w.server.hung = none) (hroom : w.events.HasRoom) {c : ConnId} {d : StreamQuicDriver}
    (hd : w.drivers c = some d) (hidle : d.point = .idle) (id : StreamId) (n : Nat) :
    ∃ ls w', world.run w ls = some w' ∧ (∀ l ∈ ls, l.Feeds c id) ∧
      w.handled.length + n ≤ w'.handled.length ∧ w'.closes = w.closes ∧ w'.tick = .eventArm := by
  have hbusy : Busy c .idle w.events.queue w :=
    ⟨h, htick, hfree, ⟨hroom.1, Nat.zero_le _, Nat.lt_of_le_of_lt (Nat.le_add_left ..) hroom.2⟩,
      rfl, d, hd, hidle⟩
  obtain ⟨ls, u, hu, hbusy⟩ := busies_all id hbusy
  obtain ⟨ms, m, w', hw', hbusy⟩ := busies_passes id n hbusy
  have hall := hu.trans hw'
  refine ⟨_, w', hall.run, hall.labels, ?_, hall.closes, hbusy.tick⟩
  have hcount := hall.handled
  omega

end

/-- A driver announces a stream while the loop is between the event arm and the close arm. -/
def betweenPolls : List Label :=
  arrivals 1 ++
    [.pollEvents [], .driver 0 (.read .call), .driver 0 (.read (.readableNext (some 0))),
      .driver 0 (.read .tryReserve)]

/-- The announcement is handled after at most four turns. -/
theorem betweenPolls_handled :
    ∃ w s, world.run (.start closure) betweenPolls = some w ∧ s.event = .newBidi 0 ∧
      ticking.Inevitable Label.Turns (World.HandledAt 0 s) w ∧
      ∀ ls w', ticking.run w ls = some w' → ticking.Along (fun u _ ↦ ¬ u.HandledAt 0 s) w ls →
        ls.countP (Label.Turns ·) ≤ 0 + 1 - w.handled.length + 3 := by
  have h : (world.run (.start closure) betweenPolls).map (fun w ↦
      (w.server.hung, w.sent[0]?.map (·.event))) = some (none, some (.newBidi 0)) := by
    decide +kernel
  obtain ⟨w, hrun, heq⟩ := Option.map_eq_some_iff.mp h
  obtain ⟨hfree, hsent⟩ := Prod.mk.inj heq
  obtain ⟨s, hs, hevent⟩ := Option.map_eq_some_iff.mp hsent
  have hreach : world.Reachable w := Machine.Reachable.run (.init ⟨closure, rfl, rfl⟩) hrun
  exact ⟨w, s, hrun, hevent, sent_handled hreach hfree hs⟩

/-- Two peers arrive, and the second one's connection ends. -/
def oneLeaves : List Label := arrivals 2 ++ [.driver 1 (.onConnClose .idleTimeout)]

/-- The first peer keeps the close message waiting for any number of events. -/
theorem oneLeaves_starves :
    ∃ w, world.run (.start closure) oneLeaves = some w ∧ w.closes.queue = [(1, false)] ∧
      ∀ n, ∃ ls w', world.run w ls = some w' ∧
        (∀ l ∈ ls, l.Feeds 0 0) ∧
        w.handled.length + n ≤ w'.handled.length ∧ w'.closes = w.closes ∧ w'.tick = .eventArm := by
  have h : (world.run (.start closure) oneLeaves).map (fun w ↦
      ((w.tick, w.server.hung, decide w.events.HasRoom),
        w.closes.queue, (w.drivers 0).map (decide <| ·.point = .idle))) =
      some ((.eventArm, none, true), [(1, false)], some true) := by decide +kernel
  obtain ⟨w, hrun, heq⟩ := Option.map_eq_some_iff.mp h
  simp only [Prod.mk.injEq, decide_eq_true_eq, Option.map_eq_some_iff] at heq
  obtain ⟨⟨htick, hfree, hroom⟩, hcloses, d, hd, hidle⟩ := heq
  have hreach : world.Reachable w := Machine.Reachable.run (.init ⟨closure, rfl, rfl⟩) hrun
  exact ⟨w, hrun, hcloses, fun n ↦ events_starve hreach htick hfree hroom hd hidle 0 n⟩

end ExtQuiche.System
