import ExtQuiche.Server.Isolation
import ExtQuiche.Server.Place

/-!
# The life of a stream on the server

Library `Server`. What the events of one stream do to its place: the announcement registers
a pair there, a chunk leaves it alone, and the peer's fin empties it and fires the pair.
-/

namespace ExtQuiche.Server
open ExtQuiche.Base ExtQuiche.Base.Locking ExtQuiche.Conn ExtQuiche.Stream
open QuicheServerSocketImpl

/-- Since `s` the place of the stream has not changed, and nothing was registered there. -/
structure Untouched (c : ConnId) (id : StreamId) (s t : QuicheServerSocketImpl) : Prop where
  entry : (t.maps c)[id]? = (s.maps c)[id]?
  log : s.log <+: t.log
  registered : ∀ i, .inserted i ∈ t.log → i.map = c → i.streamId = id → .inserted i ∈ s.log

/-- Since `s` one registration has been made for the stream, and it is in its place. -/
structure Registers (c : ConnId) (id : StreamId) (i : Insertion) (s t : QuicheServerSocketImpl) :
    Prop where
  entry : (t.maps c)[id]? = some i.slots
  log : s.log <+: t.log
  registered : .inserted i ∈ t.log ∧ i.map = c ∧ i.streamId = id
  only : ∀ j, .inserted j ∈ t.log → j.map = c → j.streamId = id → .inserted j ∈ s.log ∨ j = i

/-- Since `s` the place of the stream has been emptied and its pair passed to
`fire_on_close`, and nothing was registered there. -/
structure Finishes (c : ConnId) (id : StreamId) (s t : QuicheServerSocketImpl) : Prop where
  entry : (t.maps c)[id]? = none
  log : s.log <+: t.log
  registered : ∀ i, .inserted i ∈ t.log → i.map = c → i.streamId = id → .inserted i ∈ s.log
  fired : ∀ slots, (s.maps c)[id]? = some slots → .fireOnClose slots.onClose true ∈ t.log

section

variable {s t u : QuicheServerSocketImpl} {c : ConnId} {id : StreamId} {held : List MutexRef}

/-- Nothing has happened yet. -/
theorem Untouched.refl (s : QuicheServerSocketImpl) : Untouched c id s s :=
  ⟨rfl, List.prefix_refl _, fun _ hi _ _ ↦ hi⟩

private theorem Untouched.of_eq (hmaps : t.maps = s.maps) (hlog : t.log = s.log) :
    Untouched c id s t :=
  ⟨by rw [hmaps], hlog ▸ List.prefix_refl _, fun i hi _ _ ↦ hlog ▸ hi⟩

private theorem Untouched.inserted (h : Untouched c id s t) (origin : Origin) (c' : ConnId)
    {map : MapRef} {id' : StreamId} (hne : ¬ (map = c ∧ id' = id)) (o : StreamObject) :
    Untouched c id s
      ((t.allocated.inserted origin c' map id' (.ofPair t.nextPair)).withObject o) := by
  refine ⟨?_, h.log.trans (List.prefix_append _ _), fun i hi hmap hid ↦ ?_⟩
  · refine (getElem?_inserted (s := t.allocated) origin c' map c id' id _).trans ?_
    rw [if_neg fun heq ↦ hne ⟨heq.1.symm, heq.2.symm⟩]
    exact h.entry
  · refine h.registered i ((mem_or_eq_of_inserted hi).resolve_right ?_) hmap hid
    rintro rfl
    exact hne ⟨hmap, hid⟩

/-- It is local to the place of the stream. -/
theorem local_untouched (c : ConnId) (id : StreamId) (s : QuicheServerSocketImpl) :
    Local c id (Untouched c id s) where
  moved h hplace _ _ hlog :=
    ⟨hplace.trans h.entry, hlog ▸ h.log, fun i hi ↦ h.registered i (hlog ▸ hi)⟩
  noted he h := ⟨h.entry, h.log.trans (List.prefix_append _ _),
    fun i hi ↦ h.registered i (mem_of_noted he hi)⟩
  registered hne h := h.inserted .announced _ hne _
  effect he ht h := by
    cases he with
    | opened o ho handle hh streamId new hnew =>
      refine h.inserted .opened handle.connId ?_ new
      exact ht _ (List.mem_append_right _ (List.mem_singleton_self _)) rfl
    | _ => exact ⟨h.entry, h.log, h.registered⟩

private theorem untouched_callIfCallable (s : QuicheServerSocketImpl) (c : ConnId) (id : StreamId)
    {callback : Option Zval} {invocation : Invocation} :
    Spec held (· = s) (callIfCallable callback invocation)
      (fun _ t ↦ t.Reserved c id → Untouched c id s t)
      fun _ t ↦ t.Reserved c id → Untouched c id s t := by
  apply (local_untouched c id s).stable.callIfCallable.pre
  rintro t rfl
  exact ⟨fun _ ↦ .of_eq rfl rfl, trivial⟩

private theorem untouched_deliver (s : QuicheServerSocketImpl) (c : ConnId) (id : StreamId)
    {connId : ConnId} {map : MapRef} {streamId : StreamId} {data : Bytes} {fin : Bool} :
    Spec [] (· = s) (deliver connId map streamId data fin)
      (fun _ t ↦ t.Reserved c id → Untouched c id s t)
      fun _ t ↦ t.Reserved c id → Untouched c id s t :=
  deliver_spec (fun _ _ ↦ .of_eq rfl rfl) fun _ _ ↦ untouched_callIfCallable s c id

private theorem registers_of_untouched {o : StreamObject}
    (h : Untouched c id
      ((s.allocated.inserted .announced c c id (.ofPair s.nextPair)).withObject o) t) :
    ∃ i, Registers c id i s t := by
  obtain ⟨hentry, hlog, hregistered⟩ := h
  have hplace := getElem?_inserted (s := s.allocated) .announced c c c id id (.ofPair s.nextPair)
  rw [if_pos ⟨rfl, rfl⟩] at hplace
  refine ⟨⟨.announced, c, c, id, .ofPair s.nextPair, (s.maps c)[id]?, s.attached c c⟩,
    hentry.trans hplace, (List.prefix_append _ _).trans hlog, ⟨hlog.subset ?_, rfl, rfl⟩, ?_⟩
  · exact List.mem_append_right _ (List.mem_singleton_self _)
  · exact fun j hj hmap hid ↦ mem_or_eq_of_inserted (hregistered j hj hmap hid)

/-- The announcement of a stream registers it. -/
theorem registers_step (hr : s.Registry) (hc : s.connections[c]? ≠ none) {ev : DriverEvent}
    (ha : ev.announces = true) {tape : List Script}
    (ht : s.step (.driverEvent c ev tape) = some t) (hres : t.Reserved c ev.streamId) :
    ∃ i, Registers c ev.streamId i s t := by
  have hspec : Spec [] (· = { s with tape }) (dispatchDriverEvent c ev)
      (fun _ t ↦ t.Reserved c ev.streamId → ∃ i, Registers c ev.streamId i { s with tape } t)
      fun _ t ↦ t.Reserved c ev.streamId → ∃ i, Registers c ev.streamId i { s with tape } t := by
    refine dispatchDriverEvent_spec (fun hno ↦ absurd hno hc) (fun st o hst _ ho ↦ ?_) ?_
    · rw [hr.map_eq hst]
      exact callStreamCallback_spec ((untouched_callIfCallable _ c ev.streamId).weaken
        (fun _ hu ↦ hu) (fun _ _ hu hres ↦ registers_of_untouched (hu hres))
        fun _ _ hu hres ↦ registers_of_untouched (hu hres))
    · rintro st id data fin - rfl
      cases ha
  obtain ⟨-, u, ⟨rfl, hu⟩ | ⟨m, rfl, hu⟩⟩ := handle_spec hspec ht
  · obtain ⟨i, hi⟩ := hu hres
    exact ⟨i, hi.entry, hi.log, hi.registered, hi.only⟩
  · obtain ⟨i, hi⟩ := hu hres
    exact ⟨i, hi.entry, hi.log, hi.registered, hi.only⟩

/-- A chunk that is not the last leaves the place of its stream alone. -/
theorem untouched_chunk {data : Bytes} {tape : List Script}
    (ht : s.step (.driverEvent c (.data id data false) tape) = some t) (hres : t.Reserved c id) :
    Untouched c id s t := by
  have hspec : Spec [] (· = { s with tape }) (dispatchDriverEvent c (.data id data false))
      (fun _ t ↦ t.Reserved c id → Untouched c id { s with tape } t)
      fun _ t ↦ t.Reserved c id → Untouched c id { s with tape } t := by
    refine dispatchDriverEvent_spec (fun _ _ ↦ .of_eq rfl rfl) (fun _ _ _ ha ↦ ?_) ?_
    · cases ha
    · rintro st id' data' fin - heq
      cases heq
      exact .bind (untouched_deliver _ c id) fun _ ↦ .pure fun _ h ↦ h
  obtain ⟨-, u, ⟨rfl, hu⟩ | ⟨m, rfl, hu⟩⟩ := handle_spec hspec ht
  · exact ⟨(hu hres).entry, (hu hres).log, (hu hres).registered⟩
  · exact ⟨(hu hres).entry, (hu hres).log, (hu hres).registered⟩

/-- From an untouched place, `remove` and `fire_on_close` finish the stream. -/
private theorem finishes_finish (h : u.Reserved c id → Untouched c id s u) :
    Spec [] (· = u) (finish c id) (fun _ t ↦ t.Reserved c id → Finishes c id s t)
      fun _ _ ↦ True := by
  have hempty : ((u.removed c id).maps c)[id]? = none := by
    rw [getElem?_removed, if_pos ⟨rfl, rfl⟩]
  refine finish_spec (fun hno hres ↦ ?_) fun slots hslots ↦ ?_
  · obtain ⟨hentry, hlog, hregistered⟩ := h hres
    refine ⟨hempty, hlog, hregistered, fun slots hslots ↦ ?_⟩
    rw [hentry, hslots] at hno
    cases hno
  · refine fireOnClose_spec (fun _ ↦ ?_) fun hno ↦ absurd hno List.not_mem_nil
    refine (untouched_callIfCallable _ c id).weaken (fun _ ht ↦ ht) (fun _ t ht hres ↦ ?_)
      fun _ _ _ ↦ trivial
    obtain ⟨hentry, hlog, hregistered⟩ := ht (reserved_of_log (List.prefix_append _ _) hres)
    have hold := (List.prefix_append u.log [.fireOnClose slots.onClose true]).trans hlog
    obtain ⟨hentry', hlog', hregistered'⟩ := h (reserved_of_log
      (hold.trans (List.prefix_append _ _)) hres)
    refine ⟨hentry.trans hempty, (hlog'.trans hold).trans (List.prefix_append _ _), ?_, ?_⟩
    · intro i hi hmap hid
      have hnew := hregistered i (mem_of_noted rfl hi) hmap hid
      exact hregistered' i (mem_of_noted (s := u.removed c id) rfl hnew) hmap hid
    · intro slots' hslots'
      rw [← hentry', hslots] at hslots'
      cases hslots'
      refine List.mem_append_left _ (hlog.subset ?_)
      exact List.mem_append_right _ (List.mem_singleton_self _)

/-- The peer's fin finishes its stream, unless the thread hangs. -/
theorem finishes_step (hr : s.Registry) (hc : s.connections[c]? ≠ none) {data : Bytes}
    {tape : List Script} (ht : s.step (.driverEvent c (.data id data true) tape) = some t)
    (hres : t.Reserved c id) (hfree : t.hung = none) : Finishes c id s t := by
  have hspec : Spec [] (· = { s with tape }) (dispatchDriverEvent c (.data id data true))
      (fun _ t ↦ t.Reserved c id → Finishes c id { s with tape } t) fun _ _ ↦ True := by
    refine dispatchDriverEvent_spec (fun hno ↦ absurd hno hc) (fun _ _ _ ha ↦ ?_) ?_
    · cases ha
    · rintro st id' data' fin hst heq
      cases heq
      rw [dispatchData, hr.map_eq hst]
      refine .bind ((untouched_deliver _ c id).weaken (fun _ h ↦ h) (fun _ _ h ↦ h)
        fun _ _ _ ↦ trivial) fun _ ↦ .of_forall fun u hu ↦ ?_
      exact finishes_finish hu
  obtain ⟨-, u, ⟨rfl, hu⟩ | ⟨m, rfl, -⟩⟩ := handle_spec hspec ht
  · obtain ⟨hentry, hlog, hregistered, hfired⟩ := hu hres
    exact ⟨hentry, hlog, hregistered, hfired⟩
  · cases hfree

/-- Connections of records, of what can open streams and of registrations have a number. -/
structure QuicheServerSocketImpl.Numbered (s : QuicheServerSocketImpl) : Prop where
  conns : ∀ (c : ConnId) (st : ConnState), s.connections[c]? = some st →
    c < s.idCounter ∧ st.openHandle.connId < s.idCounter
  accepting : ∀ (c : ConnId) (st : ConnState), s.accepting = some (c, st) →
    c < s.idCounter ∧ st.openHandle.connId < s.idCounter
  objects : ∀ o ∈ s.objects, ∀ handle, o.connHandle? = some handle → handle.connId < s.idCounter
  log : ∀ i, .inserted i ∈ s.log → i.connId < s.idCounter

private theorem numbered_noted {e : Obs} (he : e.issues = none) (hs : s.Numbered) :
    (s.noted e).Numbered :=
  ⟨hs.conns, hs.accepting, hs.objects, fun i hi ↦ hs.log i (mem_of_noted he hi)⟩

private theorem numbered_registered (hs : s.Numbered) (origin : Origin) (hc : c < s.idCounter)
    (map : MapRef) (id : StreamId) {o : StreamObject}
    (ho : ∀ handle, o.connHandle? = some handle → handle.connId < s.idCounter) :
    ((s.allocated.inserted origin c map id (.ofPair s.nextPair)).withObject o).Numbered where
  conns := hs.conns
  accepting := hs.accepting
  objects o' ho' := by
    rcases List.mem_append.mp ho' with hold | hnew
    · exact hs.objects o' hold
    · exact List.mem_singleton.mp hnew ▸ ho
  log i hi := by
    rcases mem_or_eq_of_inserted hi with hold | rfl
    · exact hs.log i hold
    · exact hc

private theorem Effect.numbered (h : Effect s t) (hs : s.Numbered) : t.Numbered := by
  cases h with
  | opened o ho handle hh streamId new hnew =>
    refine numbered_registered hs .opened (hs.objects o ho handle hh) _ _ fun handle' hno ↦ ?_
    cases hnew <;> cases hno
  | _ => exact ⟨hs.conns, hs.accepting, hs.objects, hs.log⟩

private theorem stable_numbered :
    Stable (fun _ _ ↦ True) (fun _ _ ↦ True) QuicheServerSocketImpl.Numbered where
  grows _ _ _ _ hA := hA
  callback {s invocation} held _ hs := by
    apply callback_of_effect (fun _ _ hs he ↦ he.numbered hs)
    obtain ⟨hconns, hacc, hobjects, hlog⟩ :=
      numbered_noted (e := .invoked ⟨invocation, held, s.objects, s.nextScript⟩) rfl hs
    exact ⟨hconns, hacc, hobjects, hlog⟩
  fireOnClose _ _ _ hs := numbered_noted rfl hs
  firedOnClose _ hs := numbered_noted rfl hs
  announced hc ho _ _ hs := by
    refine numbered_registered hs .announced (hs.conns _ _ hc).1 _ _ fun handle hh ↦ ?_
    cases ho <;> cases hh <;> exact (hs.conns _ _ hc).2
  removed _ hs := ⟨hs.conns, hs.accepting, hs.objects, hs.log⟩
  emptied _ hs := ⟨hs.conns, hs.accepting, hs.objects, hs.log⟩
  hung _ hs := ⟨hs.conns, hs.accepting, hs.objects, hs.log⟩

/-- Everything in use has a number that the server gave out. -/
theorem numbered_of_reachable (h : server.Reachable s) : s.Numbered := by
  have hlasting : Lasting QuicheServerSocketImpl.Numbered := by
    refine ⟨stable_numbered, fun _ _ hs he ↦ he.numbered hs, fun s peerAddr hs ↦ ?_,
      fun s c st hacc hs ↦ ?_, fun s c hs ↦ ?_,
      fun _ _ _ _ hs ↦ ⟨hs.conns, hs.accepting, hs.objects, hs.log⟩⟩
    · have hlt := Nat.lt_succ_self s.idCounter
      refine ⟨fun c st hc ↦ ?_, fun c st hc ↦ ?_, fun o ho handle hh ↦
        (hs.objects o ho handle hh).trans hlt, fun i hi ↦ (hs.log i hi).trans hlt⟩
      · exact (hs.conns c st hc).imp (·.trans hlt) (·.trans hlt)
      · cases hc
        exact ⟨hlt, hlt⟩
    · refine ⟨fun c' st' hc' ↦ ?_, fun _ _ hno ↦ (by cases hno), hs.objects, hs.log⟩
      rw [getElem?_insertConn] at hc'
      split at hc'
      · next heq =>
        cases hc'
        exact heq ▸ hs.accepting c st hacc
      · exact hs.conns c' st' hc'
    · exact ⟨fun c' st' hc' ↦ hs.conns c' st' (getElem?_of_forgotten hc'), hs.accepting,
        hs.objects, hs.log⟩
  refine hlasting.of_reachable (fun callback ↦ ?_) h
  constructor <;> simp [QuicheServerSocketImpl.bind]

/-- Where the events handled so far have led the place of a stream: its announcement has
registered it, a registered pair is in the place or fired, and its fin has emptied the place. -/
structure Follows (c : ConnId) (id : StreamId) (handled : List DriverEvent)
    (s : QuicheServerSocketImpl) : Prop where
  silent : announcement id ∉ handled → ∀ i, .inserted i ∈ s.log → i.map = c → i.streamId ≠ id
  registered : announcement id ∈ handled → ∃ i, .inserted i ∈ s.log ∧ i.map = c ∧ i.streamId = id
  kept : ∀ i, .inserted i ∈ s.log → i.map = c → i.streamId = id →
    (s.maps c)[id]? = some i.slots ∨ .fireOnClose i.slots.onClose true ∈ s.log
  finished : (∃ e ∈ handled, e.streamId = id ∧ e.isFin = true) → (s.maps c)[id]? = none

/-- The place of a stream on a new connection. -/
theorem follows_newConn (hr : s.Registry) (hn : s.Numbered) (id : StreamId)
    (peerAddr : SocketAddr) : Follows s.idCounter id [] (s.newConn peerAddr) := by
  have hnone : ∀ i, .inserted i ∈ (s.newConn peerAddr).log → i.map ≠ s.idCounter := by
    intro i hi hmap
    exact Nat.lt_irrefl _ (hmap ▸ (hr.issued i hi).1 ▸ hn.log i hi)
  exact ⟨fun _ i hi hmap ↦ absurd hmap (hnone i hi), fun hno ↦ absurd hno List.not_mem_nil,
    fun i hi hmap ↦ absurd hmap (hnone i hi), fun ⟨e, hno, _⟩ ↦ absurd hno List.not_mem_nil⟩

/-- Nothing happens to the place, and no event on it matters. -/
theorem Follows.untouched {handled handled' : List DriverEvent} (h : Follows c id handled s)
    (hu : Untouched c id s t) (hann : announcement id ∈ handled' ↔ announcement id ∈ handled)
    (hfin : (∃ e ∈ handled', e.streamId = id ∧ e.isFin = true) →
      ∃ e ∈ handled, e.streamId = id ∧ e.isFin = true) : Follows c id handled' t where
  silent hno i hi hmap hid :=
    h.silent (mt hann.mpr hno) i (hu.registered i hi hmap hid) hmap hid
  registered hyes := by
    obtain ⟨i, hi, hrest⟩ := h.registered (hann.mp hyes)
    exact ⟨i, hu.log.subset hi, hrest⟩
  kept i hi hmap hid := by
    rw [hu.entry]
    exact (h.kept i (hu.registered i hi hmap hid) hmap hid).imp_right fun hf ↦ hu.log.subset hf
  finished hyes := hu.entry.trans (h.finished (hfin hyes))

private theorem Follows.registers {handled : List DriverEvent} {i : Insertion}
    (h : Follows c id handled s) (hr : Registers c id i s t) (hnew : announcement id ∉ handled)
    (hfin : ∀ e ∈ handled, e.streamId ≠ id) :
    Follows c id (handled ++ [announcement id]) t where
  silent hno := absurd (List.mem_append_right _ (List.mem_singleton_self _)) hno
  registered _ := ⟨i, hr.registered⟩
  kept j hj hmap hid := by
    rcases hr.only j hj hmap hid with hold | rfl
    · exact absurd hid (h.silent hnew j hold hmap)
    · exact .inl hr.entry
  finished hyes := by
    obtain ⟨e, he, hid, hf⟩ := hyes
    rcases List.mem_append.mp he with hold | hlast
    · exact absurd hid (hfin e hold)
    · rw [List.mem_singleton.mp hlast, isFin_announcement] at hf
      cases hf

private theorem Follows.finishes {handled : List DriverEvent} {data : Bytes}
    (h : Follows c id handled s) (hf : Finishes c id s t) :
    Follows c id (handled ++ [.data id data true]) t where
  silent hno i hi hmap hid :=
    h.silent (fun hyes ↦ hno (List.mem_append_left _ hyes)) i (hf.registered i hi hmap hid) hmap hid
  registered hyes := by
    have hold : announcement id ∈ handled := by
      refine (List.mem_append.mp hyes).resolve_right fun hlast ↦ ?_
      have hchunk := congrArg DriverEvent.isFin (List.mem_singleton.mp hlast)
      rw [isFin_announcement] at hchunk
      cases hchunk
    obtain ⟨i, hi, hrest⟩ := h.registered hold
    exact ⟨i, hf.log.subset hi, hrest⟩
  kept i hi hmap hid := by
    rcases h.kept i (hf.registered i hi hmap hid) hmap hid with hentry | hfired
    · exact .inr (hf.fired i.slots hentry)
    · exact .inr (hf.log.subset hfired)
  finished _ := hf.entry

/-- An event of the stream is followed, unless the thread hangs: an announcement is the first
event of its stream. -/
theorem Follows.event {handled : List DriverEvent} {ev : DriverEvent} {tape : List Script}
    (h : Follows c id handled s) (hr : s.Registry) (hc : s.connections[c]? ≠ none)
    (hid : ev.streamId = id)
    (hann : ev.announces = true → ev = announcement id ∧ ∀ e ∈ handled, e.streamId ≠ id)
    (ht : s.step (.driverEvent c ev tape) = some t) (hres : t.Reserved c id)
    (hfree : t.hung = none) : Follows c id (handled ++ [ev]) t := by
  cases ha : ev.announces with
  | true =>
    obtain ⟨rfl, hfirst⟩ := hann ha
    have hnew : announcement id ∉ handled := fun hyes ↦ hfirst _ hyes (streamId_announcement id)
    rw [← hid] at hres
    obtain ⟨i, hi⟩ := registers_step hr hc ha ht hres
    rw [hid] at hi
    exact h.registers hi hnew hfirst
  | false =>
    obtain ⟨data, fin, rfl⟩ : ∃ data fin, ev = .data id data fin := by
      cases ev with
      | data id' data fin => exact ⟨data, fin, by rw [← hid]; rfl⟩
      | _ => cases ha
    cases fin with
    | true => exact h.finishes (finishes_step hr hc ht hres hfree)
    | false =>
      apply h.untouched (untouched_chunk ht hres)
      · refine ⟨fun hyes ↦ ?_, List.mem_append_left _⟩
        refine (List.mem_append.mp hyes).resolve_right fun hlast ↦ ?_
        have hchunk := congrArg DriverEvent.announces (List.mem_singleton.mp hlast)
        rw [announces_announcement] at hchunk
        cases hchunk
      · rintro ⟨e, he, hid', hf⟩
        refine ⟨e, (List.mem_append.mp he).resolve_right fun hlast ↦ ?_, hid', hf⟩
        rw [List.mem_singleton.mp hlast] at hf
        cases hf

end

end ExtQuiche.Server
