import ExtQuiche.Server.Delivery
import ExtQuiche.System.Accounts
import ExtQuiche.System.CloseSignals

/-!
# Read delivery from the transport to PHP

Library `System`. What `stream_recv` returned against what PHP was handed, over all runs
of the drivers and the server: the driver sends every result as one event, the channel
keeps the order, and the server hands every chunk of a ready stream to its `on_data`
callback.
-/

namespace ExtQuiche.System
open ExtQuiche.Base ExtQuiche.Conn ExtQuiche.Driver ExtQuiche.Server

namespace World

/-- Chunks of a stream on the event channel, oldest first. -/
def queued (w : World) (c : ConnId) (id : StreamId) : List (Bytes × Bool) :=
  chunksIn id (w.events.queue.filterMap fun (c', ev) ↦ if c' = c then some ev else none)

/-- Events that were dispatched to a record, oldest first. -/
def dispatched (w : World) : List Sent := (w.handled.filter (·.found)).map (·.sent)

/-- Events of a stream that have been handled, oldest first. -/
def handledOn (w : World) (c : ConnId) (id : StreamId) : List DriverEvent :=
  (eventsOf c (w.handled.map (·.sent))).filter (·.streamId = id)

/-- Every stream callback for the stream has set `on_data`, PHP has opened no stream under
its id, and no event of the stream has been handled after its fin. -/
structure Streaming (w : World) (c : ConnId) (id : StreamId) : Prop where
  hooks : ∀ e ∈ w.server.log, e.Hooks c id
  spares : ∀ e ∈ w.server.log, e.Spares c id
  ends : ∀ ev ∈ (w.handledOn c id).dropLast, ev.isFin = false

end World

section

variable {w w' : World} {c : ConnId} {id : StreamId}

/-- What carries the delivery on a stream of the peer from step to step. -/
private structure Carried (w : World) (c : ConnId) (id : StreamId) : Prop where
  callback : ∃ cb ∈ w.server.streamCallback, cb.isCallable = true
  chunks : w.Streaming c id → delivered w.server.log c id = chunksIn id (eventsOf c w.dispatched)
  ready : w.Streaming c id → (∀ ev ∈ w.handledOn c id, ev.isFin = false) →
    announcement id ∈ eventsOf c w.dispatched → w.server.Serves c → w.server.Ready c id

private theorem handledOn_grows (h : w.handled <+: w'.handled) :
    w.handledOn c id <+: w'.handledOn c id :=
  ((h.map _).filterMap _).filter _

private theorem dropLast_subset {α : Type} {l l' : List α} (h : l <+: l') :
    l.dropLast ⊆ l'.dropLast := by
  obtain ⟨m, rfl⟩ := h
  cases m with
  | nil => rw [List.append_nil]; exact List.Subset.refl _
  | cons a m =>
    rw [List.dropLast_append_cons]
    exact fun x hx ↦ List.mem_append_left _ (List.dropLast_subset l hx)

private theorem streaming_of_step {l : Label} (h : Happens w l w') (hs : w'.Streaming c id)
    (hhandled : w.handled <+: w'.handled) : w.Streaming c id := by
  have hlog := h.log
  exact ⟨fun e he ↦ hs.hooks e (hlog.subset he), fun e he ↦ hs.spares e (hlog.subset he),
    fun ev hev ↦ hs.ends ev (dropLast_subset (handledOn_grows hhandled) hev)⟩

private theorem callback_step {l : Label} (h : Happens w l w')
    (hcb : ∃ cb ∈ w.server.streamCallback, cb.isCallable = true) :
    ∃ cb ∈ w'.server.streamCallback, cb.isCallable = true := by
  rcases h.server with heq | ⟨k, hk, -⟩
  · rwa [heq]
  · rwa [streamCallback_step hk]

private theorem handled_of_dispatched {ev : DriverEvent} (h : ev ∈ eventsOf c w.dispatched) :
    ∃ e ∈ w.handled, e.sent.connId = c ∧ e.sent.event = ev := by
  obtain ⟨s, hs, hc, hev⟩ := mem_eventsOf.mp h
  obtain ⟨e, he, rfl⟩ := List.mem_map.mp hs
  exact ⟨e, List.mem_of_mem_filter he, hc, hev⟩

/-- A step that handles no event of the stream. -/
private theorem carried_undisturbed {l : Label} (hw : w.Linked) (hreg : w'.server.Registry)
    (hi : Carried w c id) (h : Happens w l w') (hun : Undisturbed c id w.server w'.server)
    (hhandled : w.handled <+: w'.handled)
    (hchunks : chunksIn id (eventsOf c w'.dispatched) = chunksIn id (eventsOf c w.dispatched))
    (hann : announcement id ∈ eventsOf c w'.dispatched →
      announcement id ∈ eventsOf c w.dispatched) : Carried w' c id := by
  refine ⟨callback_step h hi.callback, fun hs ↦ ?_, fun hs hopen hmem hserves ↦ ?_⟩
  · rw [hun.delivered, hchunks]
    exact hi.chunks (streaming_of_step h hs hhandled)
  · have hold := hann hmem
    obtain ⟨e, he, rfl, -⟩ := handled_of_dispatched hold
    exact hun.ready hserves (reserved_of_spares hreg hs.spares)
      (hi.ready (streaming_of_step h hs hhandled)
        (fun ev hev ↦ hopen ev ((handledOn_grows hhandled).subset hev)) hold
        (serves_of_handled hw h he hserves))

private theorem Handles.prefix {first : Sent} {tape : List Script} (h : Handles w w' first tape) :
    w.handled <+: w'.handled := by
  rw [h.handled]
  exact List.prefix_append _ _

private theorem Handles.handledOn {first : Sent} {tape : List Script} (h : Handles w w' first tape)
    (hc : first.connId = c) (hid : first.event.streamId = id) :
    w'.handledOn c id = w.handledOn c id ++ [first.event] := by
  rw [World.handledOn, h.handled, List.map_append, List.map_singleton, eventsOf_snoc, if_pos hc,
    List.filter_append]
  simp [World.handledOn, hid]

private theorem Handles.dispatched {first : Sent} {tape : List Script}
    (h : Handles w w' first tape) : w'.dispatched = w.dispatched ++
      if w.server.connections[first.connId]?.isSome then [first] else [] := by
  rw [World.dispatched, h.handled, List.filter_append, List.map_append]
  cases hc : w.server.connections[first.connId]?.isSome <;> simp [World.dispatched]

/-- An event before the first data event of a stream has been dispatched to its record. -/
private theorem announced_of_chunk (hr : world.Reachable w) (hclient : clientInitiated id = true)
    {first : Sent} {tape : List Script} (h : Handles w w' first tape) (hc : first.connId = c)
    (hserves : w.server.Serves c) (hid : first.event.streamId = id)
    (hdata : first.event.chunk?.isSome = true) : announcement id ∈ eventsOf c w.dispatched := by
  obtain ⟨d, hd⟩ := (linked_of_reachable hr).served c hserves
  have hfaithful := (accounted_of_reachable hr).drivers c d hd
  have hmem := hfaithful.first _ _ (h.next hc) hdata (hid ▸ hclient)
  rw [hid] at hmem
  obtain ⟨s, hs, hsc, hev⟩ := mem_eventsOf.mp hmem
  obtain ⟨e, he, rfl⟩ := List.mem_map.mp hs
  refine mem_eventsOf.mpr ⟨e.sent, List.mem_map_of_mem (List.mem_filter.mpr ⟨he, ?_⟩), hsc, hev⟩
  exact found_of_reachable hr e he (hsc ▸ hserves)

/-- An event of the stream itself, with its connection on record. -/
private theorem carried_mine (hr : world.Reachable w) (hr' : world.Reachable w')
    (hi : Carried w c id) (hclient : clientInitiated id = true) {first : Sent}
    {tape : List Script} (h : Handles w w' first tape) (hc : first.connId = c)
    (hid : first.event.streamId = id)
    (hrecord : w.server.connections[first.connId]?.isSome = true) : Carried w' c id := by
  have hreg := registry_of_reachable hr
  have hdispatched := h.dispatched
  rw [if_pos hrecord] at hdispatched
  have hhandled := h.prefix
  have hstep := h.step
  rw [hc] at hstep hrecord
  have hserves : w.server.Serves c := (serves_iff_of_free (free_of_handle hstep) c).mpr hrecord
  have hsome : w.server.connections[c]? ≠ none := Option.isSome_iff_ne_none.mp hrecord
  have hmine : w'.Streaming c id → delivered w'.server.log c id =
      delivered w.server.log c id ++ first.event.chunk?.toList ∧
      (first.event.isFin = false → w'.server.Ready c id) := by
    intro hs
    have hopen : ∀ ev ∈ w.handledOn c id, ev.isFin = false := by
      have hends := hs.ends
      rwa [h.handledOn hc hid, List.dropLast_concat] at hends
    have hreserved := reserved_of_spares (registry_of_reachable hr') hs.spares
    cases hchunk : first.event.chunk? with
    | none =>
      have ha : first.event.announces = true := by cases hev : first.event <;> simp_all [
        DriverEvent.chunk?, DriverEvent.announces]
      obtain ⟨hdel, hready⟩ := announced_step hreg hi.callback hsome ha hstep
      rw [hid] at hdel hready
      exact ⟨by simpa using hdel, fun _ ↦ hready hs.hooks hreserved⟩
    | some chunk =>
      have hann := announced_of_chunk hr hclient h hc hserves hid (by simp [hchunk])
      have hready := hi.ready (streaming_of_step h.happens hs hhandled) hopen hann hserves
      obtain ⟨data, fin⟩ := chunk
      have hev : first.event = .data id data fin := by
        cases hev : first.event <;> simp_all [DriverEvent.chunk?, DriverEvent.streamId]
      rw [hev] at hstep
      obtain ⟨hdel, hready'⟩ := chunk_step hreg hsome hready hstep
      exact ⟨hdel, fun hfin ↦ hready' (by rwa [hev] at hfin) hreserved⟩
  refine ⟨callback_step h.happens hi.callback, fun hs ↦ ?_, fun hs hopen _ _ ↦ (hmine hs).2 ?_⟩
  case refine_2 =>
    exact hopen _ (h.handledOn hc hid ▸ List.mem_append_right _ (List.mem_singleton_self _))
  rw [hdispatched, eventsOf_snoc, if_pos hc, chunksIn_snoc, if_pos hid,
    ← hi.chunks (streaming_of_step h.happens hs hhandled)]
  exact (hmine hs).1

private theorem carried_handles (hr : world.Reachable w) (hr' : world.Reachable w')
    (hi : Carried w c id) (hclient : clientInitiated id = true) {first : Sent}
    {tape : List Script} (h : Handles w w' first tape) : Carried w' c id := by
  by_cases hmine : w.server.connections[first.connId]?.isSome = true ∧ first.connId = c ∧
      first.event.streamId = id
  · exact carried_mine hr hr' hi hclient h hmine.2.1 hmine.2.2 hmine.1
  · have hun : Undisturbed c id w.server w'.server := by
      refine undisturbed_step (registry_of_reachable hr) h.step fun c' ev tape' heq hsome hother ↦
        hmine ?_
      cases heq
      exact ⟨Option.isSome_iff_ne_none.mpr hsome, hother⟩
    refine carried_undisturbed (linked_of_reachable hr) (registry_of_reachable hr') hi h.happens hun
      h.prefix ?_ ?_
    · rw [h.dispatched]
      split
      · next hrecord =>
        rw [eventsOf_snoc]
        split
        · next hc => rw [chunksIn_snoc, if_neg fun hid ↦ hmine ⟨hrecord, hc, hid⟩]; simp
        · simp
      · simp
    · rw [h.dispatched]
      split
      · next hrecord =>
        rw [eventsOf_snoc]
        intro hmem
        refine (List.mem_append.mp hmem).resolve_right fun hnew ↦ hmine ⟨hrecord, ?_⟩
        split at hnew
        · next hc =>
          refine ⟨hc, ?_⟩
          rw [← List.mem_singleton.mp hnew, streamId_announcement]
        · exact absurd hnew List.not_mem_nil
      · simp

private theorem carried_step {l : Label} (hr : world.Reachable w) (hr' : world.Reachable w')
    (hi : Carried w c id) (hclient : clientInitiated id = true) (h : Happens w l w') :
    Carried w' c id := by
  rcases h.handles (linked_of_reachable hr) with ⟨first, tape, -, hh⟩ | ⟨hsame, hserver⟩
  · exact carried_handles hr hr' hi hclient hh
  · -- no event is handled
    have hdispatched : w'.dispatched = w.dispatched := by
      rw [World.dispatched, hsame, World.dispatched]
    refine carried_undisturbed (linked_of_reachable hr) (registry_of_reachable hr') hi h ?_
      (hsame ▸ List.prefix_refl _) (by rw [hdispatched]) ?_
    case refine_2 => exact fun hmem ↦ hdispatched ▸ hmem
    rcases hserver with heq | ⟨k, hk, hother⟩
    · exact ⟨by rw [heq], fun _ _ hready ↦ heq ▸ hready⟩
    · exact undisturbed_step (registry_of_reachable hr) hk fun c' ev tape heq ↦
        absurd heq (hother c' ev tape)

private theorem carried_of_reachable (h : world.Reachable w) (c : ConnId)
    (hclient : clientInitiated id = true) : Carried w c id := by
  refine h.invariant (I := fun w ↦ Carried w c id) ?_ fun s l t hs hi _ ht ↦
    carried_step hs (.step l hs trivial ht) hi hclient (step_happens ht)
  rintro _ ⟨callback, hcb, rfl⟩
  exact ⟨⟨callback, rfl, hcb⟩, fun _ ↦ rfl, fun _ _ hno ↦ absurd hno List.not_mem_nil⟩

/-- Where every event of a connection found its record, none is left out. -/
private theorem eventsOf_dispatched (h : ∀ e ∈ w.handled, e.sent.connId = c → e.found = true) :
    eventsOf c w.dispatched = eventsOf c (w.handled.map (·.sent)) := by
  rw [eventsOf, eventsOf, World.dispatched, List.filterMap_map, List.filterMap_map,
    List.filterMap_filter]
  refine List.filterMap_congr fun e he ↦ ?_
  by_cases hc : e.sent.connId = c
  · simp [h e he hc]
  · simp [hc]

/-- The events on the channel are those the account has pending. -/
private theorem queued_eq (hw : w.Linked) (c : ConnId) (id : StreamId) :
    w.queued c id = chunksIn id (eventsOf c w.pending) := by
  rw [World.queued, ← hw.pending, List.filterMap_map]
  rfl

/-- On a stream of the peer that PHP hooks, the chunks handed to `on_data` and those on the
channel are the results of `stream_recv`, up to the fin and with it. -/
theorem delivered_queued (h : world.Reachable w) (hclient : clientInitiated id = true)
    (hserves : w.server.Serves c) (hs : w.Streaming c id) :
    delivered w.server.log c id ++ w.queued c id = w.received c id := by
  have hw := linked_of_reachable h
  obtain ⟨d, hd⟩ := hw.served c hserves
  have hfaithful := (accounted_of_reachable h).drivers c d hd
  have hall := eventsOf_dispatched (w := w) (c := c) fun e he hc ↦
    found_of_reachable h e he (hc ▸ hserves)
  rw [(carried_of_reachable h c hclient).chunks hs, queued_eq hw, hall, ← hfaithful.chunks id,
    World.sent, eventsOf_append]
  exact (List.filterMap_append ..).symm

end

end ExtQuiche.System
