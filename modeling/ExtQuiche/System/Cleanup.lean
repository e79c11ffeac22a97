import ExtQuiche.Driver.Ends
import ExtQuiche.Server.Endings
import ExtQuiche.System.Accounts
import ExtQuiche.System.CloseSignals
import ExtQuiche.System.Story

/-!
# What a finished stream leaves behind

Library `System`. A stream of the peer is in `seen_streams` of its driver and in the slot
map of its connection. The fin takes it out of both, `src/quiche/driver.rs:114–116` and
`src/quiche/socket.rs:330–339`, while the error branch of the drain loop only leaves the
loop, `src/quiche/driver.rs:119–124`.
-/

namespace ExtQuiche.System
open ExtQuiche.Base ExtQuiche.Conn ExtQuiche.Driver ExtQuiche.Server

/-- `stream_recv` has returned the fin of the stream, or a reset. -/
def Over (w : World) (t : Tale) (c : ConnId) (id : StreamId) : Prop :=
  FinRead (w.received c) id ∨ t.resets c id = true

/-- The stream is in neither table, and it was registered and its `on_close` fired. -/
structure CleanedUp (w : World) (c : ConnId) (id : StreamId) : Prop where
  forgotten : ∀ d, w.drivers c = some d → id ∉ d.seenStreams
  removed : ∀ st : ConnState, w.server.connections[c]? = some st →
    (w.server.maps st.phpStreamCallbacks)[id]? = none
  registered : ∃ i, .inserted i ∈ w.server.log ∧ i.connId = c ∧ i.streamId = id
  fired : ∀ i, .inserted i ∈ w.server.log → i.connId = c → i.streamId = id →
    .fireOnClose i.slots.onClose true ∈ w.server.log

/-- `stream_recv` returns no reset of the stream while the driver has it in `seen_streams`, and
the driver does not announce it once its fin has been read. -/
def EndsByFin (c : ConnId) (id : StreamId) (w : World) : Label → Prop
  | .driver c' (.read (.streamRecv (.error (.streamReset _)))) =>
    c' = c → ∀ d ∈ w.drivers c, d.point = .recv id → id ∉ d.seenStreams
  | .driver c' (.read .tryReserve) =>
    c' = c → ∀ d ∈ w.drivers c, d.point = .announce id → w.events.HasRoom →
      ¬ FinRead (w.received c) id
  | _ => True

instance (c : ConnId) (id : StreamId) (w : World) : ∀ l, Decidable (EndsByFin c id w l)
  | .driver _ (.read (.streamRecv (.error (.streamReset _)))) =>
    inferInstanceAs (Decidable (_ → ∀ _ ∈ _, _ → _))
  | .driver _ (.read .tryReserve) => inferInstanceAs (Decidable (_ → ∀ _ ∈ _, _ → _ → _))
  | .driver _ (.read (.streamRecv (.ok _))) | .driver _ (.read (.streamRecv (.error .done)))
  | .driver _ (.read (.streamRecv (.error .streamLimit)))
  | .driver _ (.read (.streamRecv (.error (.streamStopped _))))
  | .driver _ (.read (.streamRecv (.error (.invalidStreamState _))))
  | .driver _ (.read (.streamRecv (.error (.other _))))
  | .driver _ (.read .call) | .driver _ (.read (.readableNext _)) | .driver _ (.write _)
  | .driver _ (.onConnClose _) | .driver _ .drop | .enterTick | .pollEvents _ | .pollCloses _ _
  | .accept _ | .insertConn | .again | .timer | .call _ | .close _ _ _ => .isTrue trivial

section

variable {w w' : World} {t : Tale} {c : ConnId} {id : StreamId}

/-- The announcement and the fin of the stream, and the driver's set. -/
private theorem ordered_of_reachable (hclient : clientInitiated id = true)
    (h : world.ReachableWhile (EndsByFin c id) w) :
    ∀ d, w.drivers c = some d → Ordered id d (eventsOf c w.sent) (w.received c) := by
  have hall : ∀ c' d, w.drivers c' = some d →
      c' = c → Ordered id d (eventsOf c' w.sent) (w.received c') := by
    refine h.invariant (I := fun w ↦ ∀ c' d, w.drivers c' = some d →
      c' = c → Ordered id d (eventsOf c' w.sent) (w.received c')) ?_ ?_
    · rintro _ ⟨callback, -, rfl⟩ c' d hno
      cases hno
    · intro w l w' hr hi hok ht
      have hacc := accounted_of_reachable (hr.mono fun _ _ _ ↦ trivial)
      have htracks : Tracks w l fun c' d sent received ↦ c' = c → Ordered id d sent received := by
        refine ⟨fun _ _ _ ↦ ordered_build _ _, ?_, fun hr hi heq ↦ (hi heq).writes hr,
          fun hi heq ↦ (hi heq).moved rfl fun hno ↦ by cases hno⟩
        rintro c' d op r sent rfl hd hreads rfl hi rfl
        apply (hi rfl).reads (hacc.drivers _ d hd) hclient hreads
        cases op with
        | tryReserve => exact hok rfl d hd
        | _ => trivial
      exact htracks.step (linked_of_reachable hr) hacc.none hi (step_happens ht)
  exact fun d hd ↦ hall c d hd rfl

/-- A step adds a reset where `stream_recv` returns it. -/
private theorem resetsAfter_eq_true {l : Label} (h : t.resetsAfter w l c id = true) :
    t.resets c id = true ∨ ∃ code d,
      l = .driver c (.read (.streamRecv (.error (.streamReset code)))) ∧
        w.drivers c = some d ∧ d.point = .recv id := by
  unfold Tale.resetsAfter at h
  split at h
  · next c' code =>
    cases hpoint : (w.drivers c').map StreamQuicDriver.point with
    | none => exact .inl (by rwa [hpoint] at h)
    | some p =>
      rw [hpoint] at h
      cases p with
      | recv id' =>
        obtain ⟨d, hd, hp⟩ := Option.map_eq_some_iff.mp hpoint
        by_cases hmine : c = c' ∧ id = id'
        · obtain ⟨rfl, rfl⟩ := hmine
          exact .inr ⟨code, d, rfl, hd, hp⟩
        · refine .inl ?_
          rcases eq_or_ne c c' with rfl | hne
          · have hid : id ≠ id' := fun heq ↦ hmine ⟨rfl, heq⟩
            simpa [hid] using h
          · simpa [hne] using h
      | _ => exact .inl h
  · exact .inl h

private theorem finRead_step {l : Label} (hw : w.Linked) (h : Happens w l w')
    (hfin : FinRead (w.received c) id) : FinRead (w'.received c) id := by
  cases h with
  | read c' d op r hd hr =>
    obtain rfl := (hw.drivers c' d hd).2
    rcases eq_or_ne c d.connId with rfl | hne
    · simpa [World.recorded] using finRead_recorded hfin d op
    · simpa [World.recorded, hne] using hfin
  | _ => exact hfin

/-- Only a stream whose fin has been read has been reset. -/
private theorem finRead_of_resets (hclient : clientInitiated id = true)
    (h : story.ReachableWhile (fun p ↦ EndsByFin c id p.1) (w, t))
    (hreset : t.resets c id = true) : FinRead (w.received c) id := by
  refine h.account_invariant (I := fun w t ↦ t.resets c id = true → FinRead (w.received c) id)
    ?_ ?_ hreset
  · rintro _ - hno
    cases hno
  · intro w t l w' hr hi hok ht hreset
    have hplain : world.Reachable w := hr.forget
    apply finRead_step (linked_of_reachable hplain) (step_happens ht)
    rcases resetsAfter_eq_true hreset with hold | ⟨code, d, rfl, hd, hp⟩
    · exact hi hold
    · have hord := ordered_of_reachable hclient hr.forget_account d hd
      have hfaithful := (accounted_of_reachable hplain).drivers c d hd
      exact (hord.announced (hfaithful.draining id (.inr hp) hclient)).resolve_left
        (hok rfl d hd hp)

/-- The place of a stream follows the events handled, while its connection is served, PHP
opens nothing there and the thread does not hang. -/
private def Settled (w : World) (c : ConnId) (id : StreamId) : Prop :=
  w.server.Serves c → w.server.Reserved c id → w.server.hung = none →
    Follows c id (eventsOf c (w.handled.map (·.sent))) w.server

private theorem hung_step {l : Label} (h : Happens w l w') (hfree : w'.server.hung = none) :
    w.server.hung = none := by
  cases h with
  | dispatched tape c ev rest s ht hq hs => exact (free_of_handle hs).1
  | closed order tape c b rest s ht hq hs => exact (free_of_handle hs).1
  | accepted peerAddr ht hacc => exact hacc.1.1
  | called call s ht hs => exact (free_of_handle hs).1
  | serverClosed conns orders tape s ht hs => exact (free_of_handle hs).1
  | _ => exact hfree

private theorem settled_handles (hr : world.Reachable w) (hi : Follows c id
      (eventsOf c (w.handled.map (·.sent))) w.server)
    (hord : ∀ d, w.drivers c = some d → Ordered id d (eventsOf c w.sent) (w.received c))
    {first : Sent} {tape : List Script} (h : Handles w w' first tape)
    (hserves' : w'.server.Serves c) (hres : w'.server.Reserved c id)
    (hfree : w'.server.hung = none) :
    Follows c id (eventsOf c (w'.handled.map (·.sent))) w'.server := by
  have hreg := registry_of_reachable hr
  have hhandled : eventsOf c (w'.handled.map (·.sent)) = eventsOf c (w.handled.map (·.sent)) ++
      if first.connId = c then [first.event] else [] := by
    rw [h.handled, List.map_append]
    exact eventsOf_snoc ..
  have hserves := ((serves_step h.step).2 c).mp hserves'
  by_cases hmine : first.connId = c ∧ first.event.streamId = id
  · obtain ⟨hc, hid⟩ := hmine
    rw [hhandled, if_pos hc]
    have hstep := h.step
    rw [hc] at hstep
    obtain ⟨d, hd⟩ := (linked_of_reachable hr).served c hserves
    have hfaithful := (accounted_of_reachable hr).drivers c d hd
    have hrecord := (serves_iff_of_free (free_of_handle hstep) c).mp hserves
    refine hi.event hreg (Option.isSome_iff_ne_none.mp hrecord) hid (fun ha ↦ ?_) hstep hres hfree
    have hnext := h.next hc
    have hann := (hfaithful.announces first.event
      (hnext.subset (List.mem_append_right _ (List.mem_singleton_self _))) ha).1
    rw [hid] at hann
    exact ⟨hann, (hord d hd).first _ (hann ▸ hnext)⟩
  · have hother : ∀ ev ∈ (if first.connId = c then [first.event] else []), ev.streamId ≠ id := by
      intro ev hev heq
      split at hev
      · next hc => exact hmine ⟨hc, List.mem_singleton.mp hev ▸ heq⟩
      · exact absurd hev List.not_mem_nil
    have huntouched := (local_untouched c id w.server).step hreg h.step (fun c' ev tape' heq _ hat ↦
      hmine (by cases heq; exact hat)) hserves' hres (.refl _)
    rw [hhandled]
    refine hi.untouched huntouched ⟨fun hyes ↦ ?_, List.mem_append_left _⟩ ?_
    · exact (List.mem_append.mp hyes).resolve_right fun hnew ↦
        hother _ hnew (streamId_announcement id)
    · rintro ⟨e, he, hid, hf⟩
      exact ⟨e, (List.mem_append.mp he).resolve_right fun hnew ↦ hother e hnew hid, hid, hf⟩

private theorem settled_step {l : Label} (hr : world.Reachable w) (hi : Settled w c id)
    (hord : ∀ d, w.drivers c = some d → Ordered id d (eventsOf c w.sent) (w.received c))
    (h : Happens w l w') : Settled w' c id := by
  intro hserves' hres hfree
  have hw := linked_of_reachable hr
  have hreg := registry_of_reachable hr
  rcases h.serves hserves' with hserves | ⟨rfl, -, peerAddr, hserver, hhandled⟩
  · have hold := hi hserves (reserved_of_log h.log hres) (hung_step h hfree)
    rcases h.handles hw with ⟨first, tape, -, hh⟩ | ⟨hsame, hserver⟩
    · exact settled_handles hr hold hord hh hserves' hres hfree
    · rw [hsame]
      refine hold.untouched ?_ Iff.rfl fun hyes ↦ hyes
      rcases hserver with heq | ⟨k, hk, hother⟩
      · exact heq ▸ .refl _
      · exact (local_untouched c id w.server).step hreg hk (fun c' ev tape heq ↦
          absurd heq (hother c' ev tape)) hserves' hres (.refl _)
  · have hsent := ((accounted_of_reachable hr).none _ hw.fresh).1
    rw [World.sent, eventsOf_append] at hsent
    rw [hhandled, (List.append_eq_nil_iff.mp hsent).1, hserver]
    exact follows_newConn hreg (numbered_of_reachable (server_reachable hr)) id peerAddr

/-- Where no reset is returned for a stream in `seen_streams`, and it is not announced again
after its fin, nothing is left of a stream that is over: once the events are handled it is in
neither table, and its `on_close` has been fired. PHP has opened no stream under its id, and
no callback waits for a mutex that is held around it.
`src/quiche/driver.rs:98–126`, `src/quiche/socket.rs:330–339`. -/
theorem cleanedUp_of_endsByFin (hclient : clientInitiated id = true)
    (h : story.ReachableWhile (fun p ↦ EndsByFin c id p.1) (w, t))
    (hspares : ∀ e ∈ w.server.log, e.Spares c id) (hcalls : Respectful w.server.log)
    (hevents : w.events.queue = []) (hlive : w.server.connections[c]? ≠ none)
    (hann : announcement id ∈ eventsOf c w.sent) (hover : Over w t c id) : CleanedUp w c id := by
  have hr : world.Reachable w := h.forget
  have hreg := registry_of_reachable hr
  have hserver := server_reachable hr
  obtain ⟨st, hst⟩ := Option.ne_none_iff_exists'.mp hlive
  obtain ⟨d, hd⟩ := (linked_of_reachable hr).served c (.inl ⟨st, hst⟩)
  have hfin : FinRead (w.received c) id :=
    hover.elim (fun hfin ↦ hfin) (finRead_of_resets hclient h)
  have hord := ordered_of_reachable hclient h.forget_account
  have hsettled : Settled w c id := by
    refine h.forget_account.invariant (I := fun w ↦ Settled w c id) ?_ fun w l w' hr hi _ ht ↦
      settled_step (hr.mono fun _ _ _ ↦ trivial) hi (ordered_of_reachable hclient hr)
        (step_happens ht)
    rintro _ ⟨callback, -, rfl⟩ (⟨st, hno⟩ | ⟨st, hno⟩)
    · simp [World.start, QuicheServerSocketImpl.bind] at hno
    · cases hno
  have hsent : eventsOf c (w.handled.map (·.sent)) = eventsOf c w.sent := by
    have hpending := (linked_of_reachable hr).pending
    rw [hevents, List.map_eq_nil_iff] at hpending
    rw [World.sent, hpending, List.append_nil]
  have hfollows := hsettled (.inl ⟨st, hst⟩) (reserved_of_spares hreg hspares)
    ((audited_of_reachable hserver).hung_iff.mpr hcalls)
  rw [hsent] at hfollows
  have hfaithful := (accounted_of_reachable hr).drivers c d hd
  have hremoved := hfollows.finished (hfaithful.finRead_iff.mp hfin)
  refine ⟨fun d' hd' hseen ↦ (hord d' hd').seen hseen hfin, fun st' hst' ↦ ?_, ?_,
    fun i hi hc hid ↦ ?_⟩
  · rw [hreg.map_eq hst']
    exact hremoved
  · obtain ⟨i, hi, hmap, hid⟩ := hfollows.registered hann
    exact ⟨i, hi, (hreg.issued i hi).1.symm.trans hmap, hid⟩
  · refine (hfollows.kept i hi ((hreg.issued i hi).1.trans hc) hid).resolve_left fun hentry ↦ ?_
    rw [hremoved] at hentry
    cases hentry

end

/-- The driver gets an answer for stream 0, and its pass over the stream ends. -/
def answersZero (answer : Except QuicheError (Bytes × Bool)) : List Label :=
  opensZero ++
    [.driver 0 (.read .call), .driver 0 (.read (.readableNext (some 0))),
      .driver 0 (.read .tryReserve), .driver 0 (.read (.streamRecv answer)),
      .pollCloses [] [], .again, .pollEvents []]

/-- The fin cleans up. -/
theorem fin_cleansUp :
    ∃ w t, story.run (.start closure, .start) (answersZero (.ok ([97], true))) = some (w, t) ∧
      CleanedUp w 0 0 := by
  have h : (story.run (.start closure, .start) (answersZero (.ok ([97], true)))).map (fun p ↦
      decide ((∀ e ∈ p.1.server.log, e.Spares 0 0) ∧ p.1.server.hung = none ∧
        p.1.events.queue = [] ∧ p.1.server.connections[0]? ≠ none ∧
        announcement 0 ∈ eventsOf 0 p.1.sent ∧ FinRead (p.1.received 0) 0)) = some true := by
    decide +kernel
  obtain ⟨⟨w, t⟩, hrun, heq⟩ := Option.map_eq_some_iff.mp h
  obtain ⟨hspares, hfree, hevents, hlive, hann, hfin⟩ := of_decide_eq_true heq
  have hok : story.Along (fun p ↦ EndsByFin 0 0 p.1) (.start closure, .start)
      (answersZero (.ok ([97], true))) := by decide +kernel
  have hreach : story.ReachableWhile (fun p ↦ EndsByFin 0 0 p.1) (w, t) :=
    .run (.init ⟨⟨closure, rfl, rfl⟩, rfl⟩) hok hrun
  have hcalls := (audited_of_reachable (server_reachable hreach.forget)).hung_iff.mp hfree
  exact ⟨w, t, hrun, cleanedUp_of_endsByFin (by decide) hreach hspares hcalls hevents hlive hann
    (.inl hfin)⟩

/-- A reset leaves everything: the stream is in both tables, and its `on_close` is not fired. -/
theorem reset_leavesAll :
    ∃ w t, story.run (.start closure, .start) (answersZero (.error (.streamReset 0))) =
        some (w, t) ∧
      w.events.queue = [] ∧ w.closes.queue = [] ∧ w.server.connections[0]? ≠ none ∧
      announcement 0 ∈ eventsOf 0 w.sent ∧ Over w t 0 0 ∧
      (∃ d ∈ w.drivers 0, 0 ∈ d.seenStreams) ∧ (w.server.maps 0)[(0 : StreamId)]? ≠ none ∧
      w.server.log.filterMap Obs.fires = [] ∧ ¬ CleanedUp w 0 0 := by
  have h : (story.run (.start closure, .start) (answersZero (.error (.streamReset 0)))).map
      (fun p ↦ decide (p.1.events.queue = [] ∧ p.1.closes.queue = [] ∧
        p.1.server.connections[0]? ≠ none ∧
        announcement 0 ∈ eventsOf 0 p.1.sent ∧ p.2.resets 0 0 = true ∧
        (∃ d ∈ p.1.drivers 0, 0 ∈ d.seenStreams) ∧ (p.1.server.maps 0)[(0 : StreamId)]? ≠ none ∧
        p.1.server.log.filterMap Obs.fires = [])) = some true := by decide +kernel
  obtain ⟨⟨w, t⟩, hrun, heq⟩ := Option.map_eq_some_iff.mp h
  obtain ⟨hevents, hcloses, hlive, hann, hreset, hseen, hplace, hfires⟩ := of_decide_eq_true heq
  refine ⟨w, t, hrun, hevents, hcloses, hlive, hann, .inr hreset, hseen, hplace, hfires, ?_⟩
  intro hno
  obtain ⟨d, hd, hin⟩ := hseen
  exact hno.forgotten d hd hin

end ExtQuiche.System
