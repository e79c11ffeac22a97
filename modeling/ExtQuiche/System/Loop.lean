import ExtQuiche.Base.History
import ExtQuiche.System.CloseSignals

/-!
# The server loop between two sleeps

Library `System`. One pass of the `select!` of `tick`, `src/quiche/socket.rs:153–237`: the
event arm is polled until its channel is empty, then the close arm, each message of which
leads back to the event arm, and only then the listener and the timer. What is on the two
channels bounds how long that takes, and at the timer the loop has seen both.
-/

namespace ExtQuiche.System
open ExtQuiche.Base ExtQuiche.Conn ExtQuiche.Driver ExtQuiche.Server

/-- The step empties a channel or ends an acceptance. -/
def Label.drains : Label → Bool
  | .pollEvents _ => true
  | .pollCloses _ _ => true
  | .insertConn => true
  | _ => false

/-- Steps to the end of the pass where both channels are empty. -/
def TickPoint.ahead : TickPoint → Nat
  | .outside => 0
  | .otherArms => 1
  | .closeArm => 2
  | .eventArm => 3
  | .inserting => 4

namespace World

/-- Steps to the end of the pass where nothing new arrives: each event takes one, and each
close message one and a poll of the event arm. -/
def backlog (w : World) : Nat :=
  w.events.queue.length + 2 * w.closes.queue.length + w.tick.ahead

/-- The PHP thread is inside `tick` and does not hang. -/
def Looping (w : World) : Prop := w.tick ≠ .outside ∧ w.server.hung = none

end World

/-- What has come to each channel since its arm was last polled. -/
structure Arrived where
  events : List (ConnId × DriverEvent)
  closes : List (ConnId × Bool)

/-- The account of what has come. -/
def arrived : Account World Label Arrived where
  start := ⟨[], []⟩
  add a w l w' :=
    { events :=
        match l with
        | .pollEvents _ => []
        | _ => a.events ++ w'.events.queue.drop w.events.queue.length
      closes :=
        match l with
        | .pollCloses _ _ => []
        | _ => a.closes ++ w'.closes.queue.drop w.closes.queue.length }

/-- Off the event arm there are no older events, and off both arms, where the loop sleeps,
accepts a connection or has returned, no older close messages either. -/
structure Drained (w : World) (a : Arrived) : Prop where
  events : w.tick ≠ .eventArm → w.events.queue = a.events
  closes : w.tick ≠ .eventArm → w.tick ≠ .closeArm → w.closes.queue = a.closes

section

variable {w w' : World} {l : Label}

/-- A step of the pass brings its end nearer, and does not leave the loop. -/
theorem drains_step (hl : l.drains = true) (h : world.step w l = some w') :
    w'.backlog < w.backlog ∧ w'.tick ≠ .outside := by
  unfold World.backlog
  cases step_happens h with
  | noEvent tape ht hq => simp [ht, TickPoint.ahead]
  | dispatched tape c ev rest s ht hq hs => simp [ht, hq]
  | noClose order tape ht hq => simp [ht, TickPoint.ahead]
  | closed order tape c b rest s ht hq hs =>
    simp only [ht, hq, List.length_cons, TickPoint.ahead, ne_eq, reduceCtorEq, not_false_eq_true,
      and_true]
    omega
  | inserted c st ht hacc => simp [ht, TickPoint.ahead]
  | moved l p hm => rcases hm with rfl | rfl | rfl <;> cases hl
  | _ => cases hl

/-- Only the timer leaves the loop. -/
theorem tick_step (h : world.step w l = some w') (hl : l ≠ .timer) (hin : w.tick ≠ .outside) :
    w'.tick ≠ .outside := by
  cases step_happens h with
  | moved l p hm =>
    rcases hm with rfl | rfl | rfl
    · obtain ⟨-, heq⟩ := goOn_eq_some h
      cases heq
      exact nofun
    · obtain ⟨-, heq⟩ := goOn_eq_some h
      cases heq
      exact nofun
    · exact absurd rfl hl
  | noEvent => exact nofun
  | noClose => exact nofun
  | closed => exact nofun
  | accepted => exact nofun
  | inserted => exact nofun
  | _ => exact hin

/-- Inside the loop only the loop itself moves: the other steps are those of drivers, which
leave the server where it stands. -/
theorem others_step (h : world.step w l = some w') (hin : w.tick ≠ .outside)
    (hl : l.drains = false) (hlist : l ≠ .again ∧ ∀ peerAddr, l ≠ .accept peerAddr)
    (htimer : l ≠ .timer) : w'.tick = w.tick ∧ w'.server.hung = w.server.hung := by
  cases step_happens h with
  | moved l p hm ht hp =>
    rcases hm with rfl | rfl | rfl
    · exact absurd (goOn_eq_some h).1 hin
    · exact absurd rfl hlist.1
    · exact absurd rfl htimer
  | accepted peerAddr => exact absurd rfl (hlist.2 peerAddr)
  | called call s ht => exact absurd ht hin
  | serverClosed conns orders tape s ht => exact absurd ht hin
  | noEvent => cases hl
  | dispatched => cases hl
  | noClose => cases hl
  | closed => cases hl
  | inserted => cases hl
  | _ => exact ⟨rfl, rfl⟩

/-- The timer ends the loop. -/
theorem timer_step (h : world.step w .timer = some w') :
    w.tick = .otherArms ∧ w' = { w with tick := .outside } := by
  obtain ⟨ht, h⟩ := goOn_eq_some h
  cases h
  exact ⟨ht, rfl⟩

/-- Between `conn.start` and the insertion there is a record to insert. -/
private theorem accepting_of_inserting (h : world.Reachable w) (ht : w.tick = .inserting) :
    w.server.accepting ≠ none := by
  refine h.invariant (I := fun w ↦ w.tick = .inserting → w.server.accepting ≠ none)
    ?_ ?_ ht
  · rintro _ ⟨callback, -, rfl⟩ hno
    cases hno
  · intro w l w' _ hi _ hs ht
    cases step_happens hs with
    | moved l p hm htick hp => rcases hp with rfl | rfl <;> cases ht
    | accepted => exact Option.some_ne_none _
    | dispatched tape c ev rest s htick hq hs => rw [htick] at ht; cases ht
    | called call s htick hs => rw [htick] at ht; cases ht
    | serverClosed conns orders tape s htick hs => rw [htick] at ht; cases ht
    | noEvent => cases ht
    | noClose => cases ht
    | closed => cases ht
    | inserted => cases ht
    | _ => exact hi ht

/-- Until it comes to the listener and the timer, the loop can go on. -/
theorem drains_can (h : world.Reachable w) (hloop : w.Looping) (ht : w.tick ≠ .otherArms) :
    ∃ l w', l.drains = true ∧ world.step w l = some w' := by
  have hgo : ∀ point next, w.tick = point → (∃ w', next = some w') →
      ∃ w', w.goOn point next = some w' := by
    rintro point next hp ⟨w', hnext⟩
    exact ⟨w', by rw [World.goOn, if_pos ⟨hp, hloop.2⟩, hnext]⟩
  have hhandle : ∀ tape prog, w.tick ≠ .inserting → ∃ s, w.server.handle tape prog = some s := by
    intro tape prog hins
    refine ⟨_, if_pos ⟨hloop.2, ?_⟩⟩
    by_contra hacc
    exact hins ((linked_of_reachable h).inserting hacc)
  cases htick : w.tick with
  | outside => exact absurd htick hloop.1
  | otherArms => exact absurd htick ht
  | eventArm =>
    obtain ⟨w', hw'⟩ := hgo .eventArm (w.pollEvents []) htick (by
      cases hrecv : w.events.tryRecv with
      | none => exact ⟨_, by rw [World.pollEvents, hrecv]⟩
      | some r =>
        obtain ⟨s, hs⟩ := hhandle [] (dispatchDriverEvent r.1.1 r.1.2) (by simp [htick])
        rw [World.pollEvents, hrecv]
        exact ⟨_, Option.map_eq_some_iff.mpr ⟨s, hs, rfl⟩⟩)
    exact ⟨.pollEvents [], w', rfl, hw'⟩
  | closeArm =>
    obtain ⟨w', hw'⟩ := hgo .closeArm (w.pollCloses [] []) htick (by
      cases hrecv : w.closes.tryRecv with
      | none => exact ⟨_, by rw [World.pollCloses, hrecv]⟩
      | some r =>
        obtain ⟨s, hs⟩ := hhandle [] (connClosed r.1.1 r.1.2 []) (by simp [htick])
        rw [World.pollCloses, hrecv]
        exact ⟨_, Option.map_eq_some_iff.mpr ⟨s, hs, rfl⟩⟩)
    exact ⟨.pollCloses [] [], w', rfl, hw'⟩
  | inserting =>
    obtain ⟨r, hacc⟩ := Option.ne_none_iff_exists'.mp (accepting_of_inserting h htick)
    obtain ⟨w', hw'⟩ := hgo .inserting ((w.server.step .insertConn).map fun server ↦
      { w with server, tick := .eventArm }) htick (by
        rw [QuicheServerSocketImpl.step, hacc]
        exact ⟨_, rfl⟩)
    exact ⟨.insertConn, w', rfl, hw'⟩

/-- Only a poll of its arm takes from the channel of events. -/
private theorem events_grow (h : Happens w l w') (hl : ∀ tape, l ≠ .pollEvents tape) :
    w.events.queue <+: w'.events.queue := by
  cases h with
  | dispatched tape => exact absurd rfl (hl tape)
  | read c d op r hd hr => cases hr <;> simp
  | _ => exact List.prefix_refl _

/-- Only a poll of its arm takes from the channel of close messages. -/
private theorem closes_grow (h : Happens w l w') (hl : ∀ order tape, l ≠ .pollCloses order tape) :
    w.closes.queue <+: w'.closes.queue := by
  cases h with
  | closed order tape => exact absurd rfl (hl order tape)
  | ended c d e hd hp =>
    dsimp only
    split
    · exact List.prefix_append _ _
    · exact List.prefix_refl _
  | _ => exact List.prefix_refl _

private theorem drained_step {a : Arrived} (hi : Drained w a) (ht : world.step w l = some w') :
    Drained w' (arrived.add a w l w') := by
  have h := step_happens ht
  have hevents : (∀ tape, l ≠ .pollEvents tape) → w.tick ≠ .eventArm →
      w'.events.queue = (arrived.add a w l w').events := by
    intro hl htick
    have hadd : (arrived.add a w l w').events =
        a.events ++ w'.events.queue.drop w.events.queue.length := by
      cases l <;> first | rfl | exact absurd rfl (hl _)
    rw [hadd, ← hi.events htick]
    exact (List.prefix_iff_eq_append.mp (events_grow h hl)).symm
  have hcloses : (∀ order tape, l ≠ .pollCloses order tape) →
      w.tick ≠ .eventArm → w.tick ≠ .closeArm →
      w'.closes.queue = (arrived.add a w l w').closes := by
    intro hl hevent hclose
    have hadd : (arrived.add a w l w').closes =
        a.closes ++ w'.closes.queue.drop w.closes.queue.length := by
      cases l <;> first | rfl | exact absurd rfl (hl _ _)
    rw [hadd, ← hi.closes hevent hclose]
    exact (List.prefix_iff_eq_append.mp (closes_grow h hl)).symm
  cases h with
  | moved l p hm =>
    rcases hm with rfl | rfl | rfl
    · obtain ⟨-, heq⟩ := goOn_eq_some ht
      cases heq
      exact ⟨fun hno ↦ absurd rfl hno, by simp⟩
    · obtain ⟨-, heq⟩ := goOn_eq_some ht
      cases heq
      exact ⟨fun hno ↦ absurd rfl hno, by simp⟩
    · obtain ⟨htick, -⟩ := timer_step ht
      exact ⟨fun _ ↦ hevents (by simp) (by simp [htick]),
        fun _ _ ↦ hcloses (by simp) (by simp [htick]) (by simp [htick])⟩
  | noEvent tape htick hq => exact ⟨fun _ ↦ hq, by simp⟩
  | dispatched tape c ev rest s htick => exact ⟨fun hno ↦ absurd htick hno, by simp [htick]⟩
  | noClose order tape htick hq =>
    exact ⟨fun _ ↦ hevents (by simp) (by simp [htick]), fun _ _ ↦ hq⟩
  | closed => exact ⟨fun hno ↦ absurd rfl hno, by simp⟩
  | accepted peerAddr htick =>
    exact ⟨fun _ ↦ hevents (by simp) (by simp [htick]),
      fun _ _ ↦ hcloses (by simp) (by simp [htick]) (by simp [htick])⟩
  | inserted => exact ⟨fun hno ↦ absurd rfl hno, by simp⟩
  | _ => exact ⟨hevents (by simp), hcloses (by simp)⟩

/-- Wherever the loop is past an arm, everything that was on that arm's channel when it was
polled last has been handled: what is there has come since. So it is for both channels where
`tick` sleeps, while it inserts a connection, and where it has returned.
`src/quiche/socket.rs:151–240`. -/
theorem drained_of_reachable {a : Arrived} (h : (world.withAccount arrived).Reachable (w, a)) :
    Drained w a := by
  refine h.account_invariant (I := Drained) ?_ fun w a l w' _ hi _ ht ↦ drained_step hi ht
  rintro _ ⟨callback, -, rfl⟩
  exact ⟨fun _ ↦ rfl, fun _ _ ↦ rfl⟩

end

/-- A driver announces a stream after the poll of the event arm, the timer fires, and the
connection ends. -/
def lateArrivals : List Label :=
  arrivals 1 ++
    [.pollEvents [], .driver 0 (.read .call), .driver 0 (.read (.readableNext (some 0))),
      .driver 0 (.read .tryReserve), .driver 0 (.read .tryReserve),
      .driver 0 (.read (.streamRecv (.error .done))), .driver 0 (.read (.readableNext none)),
      .pollCloses [] [], .timer, .driver 0 (.onConnClose .idleTimeout)]

/-- Both messages are left where `tick` returns, as they came too late. -/
theorem lateArrivals_drained :
    ∃ w a, (world.withAccount arrived).run (.start closure, arrived.start) lateArrivals =
        some (w, a) ∧
      w.tick = .outside ∧ a.events = [(0, .newBidi 0)] ∧ a.closes = [(0, false)] ∧
      Drained w a := by
  have h : ((world.withAccount arrived).run (.start closure, arrived.start) lateArrivals).map
      (fun p ↦ (p.1.tick, p.2.events, p.2.closes)) =
      some (.outside, [(0, .newBidi 0)], [(0, false)]) := by decide +kernel
  obtain ⟨⟨w, a⟩, hrun, heq⟩ := Option.map_eq_some_iff.mp h
  simp only [Prod.mk.injEq] at heq
  obtain ⟨htick, hevents, hcloses⟩ := heq
  exact ⟨w, a, hrun, htick, hevents, hcloses,
    drained_of_reachable (Machine.Reachable.run (.init ⟨⟨closure, rfl, rfl⟩, rfl⟩) hrun)⟩

end ExtQuiche.System
