import ExtQuiche.Server.Dispatch

/-!
# What handlers keep

Library `Server`. A property of the server that survives every change a handler can make
survives the handler, also where the thread hangs. The changes are listed once, with the
callbacks and the slot map places that the handler may touch.
-/

namespace ExtQuiche.Server
open ExtQuiche.Base ExtQuiche.Base.Locking ExtQuiche.Conn ExtQuiche.Stream
open QuicheServerSocketImpl

/-- `I` survives each change of a handler that invokes callbacks among `A` and touches
places among `K`. A callback is among `A` by what is in the log when it is invoked; what
its calls do is the business of `callback`. -/
structure Stable (A : List Obs → Invocation → Prop) (K : MapRef → StreamId → Prop)
    (I : QuicheServerSocketImpl → Prop) : Prop where
  grows : ∀ log log' invocation, log <+: log' → A log invocation → A log' invocation
  callback : ∀ {s invocation} held, A s.log invocation → I s →
    Spec held (· = s.entered held invocation) (s.nextScript.calls.forM runCall) (fun _ ↦ I)
      fun _ ↦ I
  fireOnClose : ∀ {s} slot peerClosed, A s.log (.onClose slot peerClosed) → I s →
    I (s.noted (.fireOnClose slot peerClosed))
  firedOnClose : ∀ {s} slot, I s → I (s.noted (.firedOnClose slot))
  announced : ∀ {s c st id o}, s.connections[c]? = some st → AnnouncesAs c st id s.nextPair o →
    (∀ log obj, A log (.stream c id obj)) → K st.phpStreamCallbacks id → I s →
    I ((s.allocated.inserted .announced c st.phpStreamCallbacks id (.ofPair s.nextPair)).withObject
      o)
  removed : ∀ {s map id}, K map id → I s → I (s.removed map id)
  emptied : ∀ {s map}, (∀ id, K map id) → I s → I (s.emptied map)
  hung : ∀ {s} hung, I s → I { s with hung }

/-- What every call of PHP keeps, a callback keeps once it is entered. -/
theorem callback_of_effect {I : QuicheServerSocketImpl → Prop} {held : List MutexRef}
    {s : QuicheServerSocketImpl} {invocation : Invocation} (hI : ∀ s t, I s → Effect s t → I t)
    (hs : I (s.entered held invocation)) :
    Spec held (· = s.entered held invocation) (s.nextScript.calls.forM runCall) (fun _ ↦ I)
      fun _ ↦ I := by
  apply (runCalls_spec hI _).pre
  rintro t rfl
  exact hs

namespace Stable

variable {A : List Obs → Invocation → Prop} {K : MapRef → StreamId → Prop}
  {I : QuicheServerSocketImpl → Prop} {held : List MutexRef}

/-- Every change of a handler only adds to the log. -/
theorem log
    (hgrows : ∀ log log' invocation, log <+: log' → A log invocation → A log' invocation)
    (log : List Obs) : Stable A K fun s ↦ log <+: s.log where
  grows := hgrows
  callback _ _ hs := callback_of_effect (fun _ _ hu he ↦ hu.trans he.log)
    (hs.trans (List.prefix_append _ _))
  fireOnClose _ _ _ hs := hs.trans (List.prefix_append _ _)
  firedOnClose _ hs := hs.trans (List.prefix_append _ _)
  announced _ _ _ _ hs := hs.trans (List.prefix_append _ _)
  removed _ hs := hs
  emptied _ hs := hs
  hung _ hs := hs

/-- Two properties at once. -/
theorem and {J : QuicheServerSocketImpl → Prop} (h : Stable A K I) (h' : Stable A K J) :
    Stable A K fun s ↦ I s ∧ J s where
  grows := h.grows
  callback held hA hs :=
    ((h.callback held hA hs.1).and (h'.callback held hA hs.2)).pre fun _ ht ↦ ⟨ht, ht⟩
  fireOnClose _ _ hA hs := ⟨h.fireOnClose _ _ hA hs.1, h'.fireOnClose _ _ hA hs.2⟩
  firedOnClose _ hs := ⟨h.firedOnClose _ hs.1, h'.firedOnClose _ hs.2⟩
  announced hc ho hA hK hs := ⟨h.announced hc ho hA hK hs.1, h'.announced hc ho hA hK hs.2⟩
  removed hK hs := ⟨h.removed hK hs.1, h'.removed hK hs.2⟩
  emptied hK hs := ⟨h.emptied hK hs.1, h'.emptied hK hs.2⟩
  hung m hs := ⟨h.hung m hs.1, h'.hung m hs.2⟩

/-- A callback among `A`. -/
theorem callIfCallable (h : Stable A K I) {callback : Option Zval} {invocation : Invocation} :
    Spec held (fun s ↦ I s ∧ A s.log invocation) (callIfCallable callback invocation)
      (fun _ ↦ I) fun _ ↦ I := by
  exact .of_forall fun s hs ↦ callIfCallable_spec (fun _ ↦ h.callback held hs.2 hs.1) fun _ ↦ hs.1

/-- `fire_on_close` with its callback among `A`. -/
theorem fireOnClose_keeps (h : Stable A K I) {slot : SlotRef} {peerClosed : Bool} :
    Spec held (fun s ↦ I s ∧ A s.log (.onClose slot peerClosed))
      (Server.fireOnClose slot peerClosed) (fun _ ↦ I) fun _ ↦ I := by
  refine .of_forall fun s ⟨hs, hA⟩ ↦ ?_
  have hnoted := h.fireOnClose slot peerClosed hA hs
  refine fireOnClose_spec (fun _ ↦ ?_) fun _ ↦ hnoted
  refine h.callIfCallable.weaken ?_ (fun _ _ ht ↦ h.firedOnClose _ ht) fun _ _ ht ↦ ht
  rintro t rfl
  exact ⟨hnoted, h.grows _ _ _ (List.prefix_append _ _) hA⟩

/-- A drain of a map whose places are among `K`. -/
theorem fireAll (h : Stable A K I) {map : MapRef} (hK : ∀ id, K map id) {peerClosed : Bool}
    (order : List StreamId) :
    Spec [] (fun s ↦ I s ∧ ∀ (id : StreamId) (slots : StreamSlots),
        (s.maps map)[id]? = some slots → A s.log (.onClose slots.onClose peerClosed))
      (Server.fireAll map order peerClosed) (fun _ ↦ I) fun _ ↦ I := by
  refine .of_forall fun s ⟨hs, hA⟩ ↦ fireAll_spec ?_
  refine Spec.weaken (Spec.forM_mem (I := fun t ↦ s.log <+: t.log ∧ I t)
    (H := fun _ t ↦ s.log <+: t.log ∧ I t) fun e he ↦ ?_) ?_ (fun _ _ ht ↦ ht.2) fun _ _ ht ↦ ht.2
  · have hentry := hA e.1 e.2 (mem_drainInOrder.mp he)
    exact ((Stable.log h.grows s.log).and h).fireOnClose_keeps.pre fun t ht ↦ ⟨ht, h.grows _ _ _ ht.1 hentry⟩
  · rintro t rfl
    exact ⟨List.prefix_refl _, h.emptied hK hs⟩

/-- A fin of a stream whose place is among `K`. -/
theorem finish_keeps (h : Stable A K I) {map : MapRef} {id : StreamId} (hK : K map id)
    (hclose : ∀ t slots, I t → (t.maps map)[id]? = some slots →
      A t.log (.onClose slots.onClose true)) :
    Spec [] I (finish map id) (fun _ ↦ I) fun _ ↦ I := by
  refine .of_forall fun t ht ↦ finish_spec (fun _ ↦ h.removed hK ht) fun slots hslots ↦
    h.fireOnClose_keeps.pre ?_
  rintro u rfl
  exact ⟨h.removed hK ht, hclose t slots ht hslots⟩

/-- An event on a stream whose place is among `K`. -/
theorem dispatchDriverEvent (h : Stable A K I) {s : QuicheServerSocketImpl} (hs : I s)
    {connId : ConnId} {ev : DriverEvent}
    (hK : ∀ st : ConnState, s.connections[connId]? = some st →
      K st.phpStreamCallbacks ev.streamId)
    (hclose : ∀ st : ConnState, s.connections[connId]? = some st → ev.isFin = true →
      ∀ t slots, I t → (t.maps st.phpStreamCallbacks)[ev.streamId]? = some slots →
        A t.log (.onClose slots.onClose true))
    (hstream : ∀ st : ConnState, s.connections[connId]? = some st → ev.announces = true →
      ∀ log obj, A log (.stream connId ev.streamId obj))
    (hdata : ∀ st : ConnState, s.connections[connId]? = some st → ∀ slots id data fin,
      ev = .data id data fin → (s.maps st.phpStreamCallbacks)[id]? = some slots →
        A s.log (.onData slots.onData connId id data fin)) :
    Spec [] (· = s) (dispatchDriverEvent connId ev) (fun _ ↦ I) fun _ ↦ I := by
  apply dispatchDriverEvent_spec (fun _ ↦ hs)
  · intro state o hc ha ho
    refine .of_forall ?_
    rintro t rfl
    refine callStreamCallback_spec (h.callIfCallable.pre ?_)
    rintro u rfl
    have hA := hstream state hc ha
    exact ⟨h.announced hc ho hA (hK state hc) hs, hA _ _⟩
  · rintro state id data fin hc rfl
    refine .bind (Q := fun _ ↦ I) ?_ fun _ ↦ ?_
    · refine deliver_spec (fun _ ↦ hs) fun slots hslots ↦ h.callIfCallable.pre ?_
      rintro t rfl
      exact ⟨hs, hdata state hc slots id data fin rfl hslots⟩
    · split
      · next hfin => exact h.finish_keeps (hK state hc) (hclose state hc hfin)
      · exact .pure fun _ ht ↦ ht

/-- A close message of a connection whose places are among `K`. -/
theorem connClosed (h : Stable A K I) {s : QuicheServerSocketImpl} {connId : ConnId}
    (hs : s.connections[connId]? = none → I s) (hforgotten : I (s.forgotten connId))
    {peerInitiated : Bool}
    (hK : ∀ st : ConnState, s.connections[connId]? = some st → ∀ id, K st.phpStreamCallbacks id)
    (hA : ∀ st : ConnState, s.connections[connId]? = some st → ∀ (id : StreamId) (slots : StreamSlots),
      (s.maps st.phpStreamCallbacks)[id]? = some slots →
        A s.log (.onClose slots.onClose peerInitiated))
    (order : List StreamId) :
    Spec [] (· = s) (connClosed connId peerInitiated order) (fun _ ↦ I) fun _ ↦ I := by
  refine .getData_bind ?_
  rintro t rfl
  split
  · next hno => exact .pure fun u hu ↦ hu ▸ hs hno
  · next st hc =>
    refine .bind (.modifyData (Q := fun _ ↦ (· = t.forgotten connId)) ?_) fun _ ↦
      (h.fireAll (hK st hc) order).pre ?_
    · rintro u rfl
      rfl
    · rintro u rfl
      exact ⟨hforgotten, hA st hc⟩

end Stable

/-- The close of the server keeps what each of its rounds keeps. -/
theorem close_spec {I : QuicheServerSocketImpl → Prop} {s : QuicheServerSocketImpl} (hs : I s)
    {conns : List ConnId} {orders : ConnId → List StreamId}
    (hround : ∀ (c : ConnId) (st : ConnState), s.connections[c]? = some st →
      Spec [] I (do
        modifyData (·.forgotten c)
        Server.fireAll st.phpStreamCallbacks (orders c) false) (fun _ ↦ I) fun _ ↦ I)
    (hdeaf : ∀ t, I t → I { t with listening := false }) :
    Spec [] (· = s) (close conns orders) (fun _ ↦ I) fun _ ↦ I := by
  refine .getData_bind ?_
  rintro t rfl
  refine .bind (Q := fun _ ↦ I) ((Spec.forM_mem fun e he ↦ ?_).pre ?_) fun _ ↦ .modifyData hdeaf
  · exact hround e.1 e.2 (mem_drainInOrder.mp he)
  · rintro u rfl
    exact hs

/-- The close of the server, with all places among `K`. -/
theorem Stable.close {A : List Obs → Invocation → Prop} {K : MapRef → StreamId → Prop}
    {I : QuicheServerSocketImpl → Prop} (h : Stable A K I) {s : QuicheServerSocketImpl} (hs : I s)
    (hK : ∀ map id, K map id)
    (hA : ∀ t (map : MapRef) (id : StreamId) (slots : StreamSlots), I t → (t.maps map)[id]? = some slots →
      A t.log (.onClose slots.onClose false))
    (hforgotten : ∀ t c, I t → I (t.forgotten c))
    (hdeaf : ∀ t, I t → I { t with listening := false })
    (conns : List ConnId) (orders : ConnId → List StreamId) :
    Spec [] (· = s) (close conns orders) (fun _ ↦ I) fun _ ↦ I :=
  close_spec hs (fun c _ _ ↦ .bind (.modifyData fun t ht ↦ hforgotten t c ht) fun _ ↦
    (h.fireAll (hK _) _).pre fun t ht ↦ ⟨ht, fun id slots ↦ hA t _ id slots ht⟩) hdeaf

section

variable {A : List Obs → Invocation → Prop} {K : MapRef → StreamId → Prop}
  {I : QuicheServerSocketImpl → Prop} {s t : QuicheServerSocketImpl} {tape : List Script}

/-- A handler that keeps `I` is a step that keeps it, whether it returns or hangs. -/
theorem Stable.handle (h : Stable A K I) {prog : PhpM PUnit}
    (hprog : Spec [] (· = { s with tape }) prog (fun _ ↦ I) fun _ ↦ I)
    (ht : s.handle tape prog = some t) : I t := by
  obtain ⟨-, u, ⟨rfl, hu⟩ | ⟨m, rfl, hu⟩⟩ := handle_spec hprog ht
  · exact h.hung _ hu
  · exact h.hung _ hu

/-- An event on a stream whose place is among `K`, as a step. -/
theorem Stable.step_driverEvent (h : Stable A K I) {connId : ConnId} {ev : DriverEvent}
    (ht : s.step (.driverEvent connId ev tape) = some t) (hs : I { s with tape })
    (hK : ∀ st : ConnState, s.connections[connId]? = some st →
      K st.phpStreamCallbacks ev.streamId)
    (hclose : ∀ st : ConnState, s.connections[connId]? = some st → ev.isFin = true →
      ∀ t slots, I t → (t.maps st.phpStreamCallbacks)[ev.streamId]? = some slots →
        A t.log (.onClose slots.onClose true))
    (hstream : ∀ st : ConnState, s.connections[connId]? = some st → ev.announces = true →
      ∀ log obj, A log (.stream connId ev.streamId obj))
    (hdata : ∀ st : ConnState, s.connections[connId]? = some st → ∀ slots id data fin,
      ev = .data id data fin → (s.maps st.phpStreamCallbacks)[id]? = some slots →
        A s.log (.onData slots.onData connId id data fin)) : I t :=
  h.handle (h.dispatchDriverEvent hs hK hclose hstream hdata) ht

/-- A close message of a connection whose places are among `K`, as a step. -/
theorem Stable.step_connClosed (h : Stable A K I) {connId : ConnId} {peerInitiated : Bool}
    {order : List StreamId}
    (ht : s.step (.connClosed connId peerInitiated order tape) = some t)
    (hs : s.connections[connId]? = none → I { s with tape })
    (hforgotten : I { s.forgotten connId with tape })
    (hK : ∀ st : ConnState, s.connections[connId]? = some st → ∀ id, K st.phpStreamCallbacks id)
    (hA : ∀ st : ConnState, s.connections[connId]? = some st → ∀ (id : StreamId) (slots : StreamSlots),
      (s.maps st.phpStreamCallbacks)[id]? = some slots →
        A s.log (.onClose slots.onClose peerInitiated)) : I t :=
  h.handle (h.connClosed (s := { s with tape }) hs hforgotten hK hA order) ht

/-- The close of the server, with all places among `K`, as a step. -/
theorem Stable.step_close (h : Stable A K I) {conns : List ConnId}
    {orders : ConnId → List StreamId} (ht : s.step (.close conns orders tape) = some t)
    (hs : I { s with tape }) (hK : ∀ map id, K map id)
    (hA : ∀ t (map : MapRef) (id : StreamId) (slots : StreamSlots), I t → (t.maps map)[id]? = some slots →
      A t.log (.onClose slots.onClose false))
    (hforgotten : ∀ t c, I t → I (t.forgotten c))
    (hdeaf : ∀ t, I t → I { t with listening := false }) : I t :=
  h.handle (h.close hs hK hA hforgotten hdeaf conns orders) ht

/-- A call of PHP, as a step. -/
theorem Stable.step_call (h : Stable A K I) {c : PhpCall} (ht : s.step (.call c) = some t)
    (hI : ∀ s t, I s → Effect s t → I t) (hs : I { s with tape := [] }) : I t :=
  h.handle ((runCall_spec c).weaken (fun _ hu ↦ hu) (fun _ _ hu ↦ hI _ _ hs hu.1)
    fun _ _ hu ↦ hI _ _ hs hu.1) ht

/-- What every handler keeps, whichever callbacks it invokes and places it touches. -/
structure Lasting (I : QuicheServerSocketImpl → Prop) : Prop where
  stable : Stable (fun _ _ ↦ True) (fun _ _ ↦ True) I
  effect : ∀ s t, I s → Effect s t → I t
  newConn : ∀ s peerAddr, I s → I (s.newConn peerAddr)
  insertConn : ∀ s c st, s.accepting = some (c, st) → I s → I (s.insertConn c st)
  forgotten : ∀ s c, I s → I (s.forgotten c)
  rest : ∀ s listening writes tape, I s → I { s with listening, writes, tape }

/-- It is kept by every step of the server. -/
theorem Lasting.step (h : Lasting I) (hs : I s) {l : Label} (ht : s.step l = some t) : I t := by
  have hretape : ∀ {u : QuicheServerSocketImpl} tape, I u → I { u with tape } :=
    fun {u} tape hu ↦ h.rest u u.listening u.writes tape hu
  cases l with
  | newConn peerAddr =>
    simp only [QuicheServerSocketImpl.step] at ht
    split at ht <;> cases ht
    exact h.newConn s peerAddr hs
  | insertConn =>
    obtain ⟨⟨c, st⟩, hacc, rfl⟩ := Option.map_eq_some_iff.mp ht
    exact h.insertConn s c st hacc hs
  | driverEvent c ev tape =>
    exact h.stable.step_driverEvent ht (hretape tape hs) (fun _ _ ↦ trivial)
      (fun _ _ _ _ _ _ _ ↦ trivial) (fun _ _ _ _ _ ↦ trivial) fun _ _ _ _ _ _ _ _ ↦ trivial
  | connClosed c b order tape =>
    exact h.stable.step_connClosed ht (fun _ ↦ hretape tape hs)
      (hretape tape (h.forgotten s c hs)) (fun _ _ _ ↦ trivial) fun _ _ _ _ _ ↦ trivial
  | close conns orders tape =>
    exact h.stable.step_close ht (hretape tape hs) (fun _ _ ↦ trivial)
      (fun _ _ _ _ _ _ ↦ trivial) h.forgotten fun u hu ↦ h.rest u false u.writes u.tape hu
  | call c => exact h.stable.step_call ht h.effect (hretape [] hs)
  | driverWrites ref tx =>
    cases ht
    exact h.rest s s.listening _ s.tape hs

/-- It holds in every reachable state where it holds initially. -/
theorem Lasting.of_reachable (h : Lasting I) (hinit : ∀ callback, I (.bind callback))
    (hs : server.Reachable s) : I s := by
  refine hs.invariant (I := I) ?_ fun _ _ _ _ hu _ ht ↦ h.step hu ht
  rintro _ ⟨callback, rfl⟩
  exact hinit callback

/-- A handler runs on a free thread. -/
theorem free_of_handle {prog : PhpM PUnit} (ht : s.handle tape prog = some t) : s.Free := by
  unfold QuicheServerSocketImpl.handle at ht
  split at ht
  · next hfree => exact hfree
  · cases ht

end

/-- Every step only adds to the log. -/
theorem log_step {s t : QuicheServerSocketImpl} {l : Label} (h : s.step l = some t) :
    s.log <+: t.log := by
  have hlasting : Lasting fun u ↦ s.log <+: u.log :=
    ⟨Stable.log (fun _ _ _ _ hA ↦ hA) s.log, fun _ _ hu he ↦ hu.trans he.log, fun _ _ hu ↦ hu,
      fun _ _ _ _ hu ↦ hu, fun _ _ hu ↦ hu, fun _ _ _ _ hu ↦ hu⟩
  exact hlasting.step (List.prefix_refl _) h

namespace QuicheServerSocketImpl

/-- The records, the one being accepted and the counter. -/
def records (s : QuicheServerSocketImpl) :
    Std.ExtTreeMap ConnId ConnState × Option (ConnId × ConnState) × ConnId :=
  (s.connections, s.accepting, s.idCounter)

/-- The connection has a record, or one that is about to be inserted. -/
def Serves (s : QuicheServerSocketImpl) (c : ConnId) : Prop :=
  (∃ st : ConnState, s.connections[c]? = some st) ∨ ∃ st, s.accepting = some (c, st)

instance (s : QuicheServerSocketImpl) (c : ConnId) : Decidable (s.Serves c) :=
  decidable_of_iff (s.connections[c]?.isSome = true ∨ s.accepting.map Prod.fst = some c) <| by
    rw [Option.isSome_iff_exists, Option.map_eq_some_iff]
    simp [Serves]

end QuicheServerSocketImpl

section

variable {s t : QuicheServerSocketImpl}

/-- Handlers keep the records they do not remove. -/
theorem stable_records {r : Std.ExtTreeMap ConnId ConnState ×
    Option (ConnId × ConnState) × ConnId} :
    Stable (fun _ _ ↦ True) (fun _ _ ↦ True) fun s ↦ s.records = r where
  grows _ _ _ _ hA := hA
  callback _ _ hs := callback_of_effect (fun _ _ hs he ↦ by cases he <;> exact hs) hs
  fireOnClose _ _ _ hs := hs
  firedOnClose _ hs := hs
  announced _ _ _ _ hs := hs
  removed _ hs := hs
  emptied _ hs := hs
  hung _ hs := hs

/-- Events change no record. -/
theorem records_driverEvent {connId : ConnId} {ev : DriverEvent} {tape : List Script}
    (h : s.step (.driverEvent connId ev tape) = some t) : s.Free ∧ t.records = s.records :=
  ⟨free_of_handle h, stable_records.step_driverEvent h rfl (fun _ _ ↦ trivial)
    (fun _ _ _ _ _ _ _ ↦ trivial) (fun _ _ _ _ _ ↦ trivial) fun _ _ _ _ _ _ _ _ ↦ trivial⟩

/-- A PHP call changes no record. -/
theorem records_call {c : PhpCall} (h : s.step (.call c) = some t) :
    s.Free ∧ t.records = s.records :=
  ⟨free_of_handle h, stable_records.step_call h (fun _ _ hs he ↦ by cases he <;> exact hs) rfl⟩

/-- A close message removes the record of its connection and no other. -/
theorem records_connClosed {connId : ConnId} {peerInitiated : Bool} {order : List StreamId}
    {tape : List Script} (h : s.step (.connClosed connId peerInitiated order tape) = some t) :
    s.Free ∧ t.records = (s.connections.erase connId, s.accepting, s.idCounter) := by
  refine ⟨free_of_handle h, stable_records.step_connClosed h (fun hno ↦ ?_) rfl
    (fun _ _ _ ↦ trivial) fun _ _ _ _ _ ↦ trivial⟩
  have herase : s.connections = s.connections.erase connId := by
    refine Std.ExtTreeMap.ext_getElem? fun c ↦ ?_
    rw [Std.ExtTreeMap.getElem?_erase]
    split
    · next heq => exact Std.compare_eq_iff_eq.mp heq ▸ hno
    · rfl
  exact congrArg (·, s.accepting, s.idCounter) herase

/-- The close of the server only removes records. -/
theorem records_close {conns : List ConnId} {orders : ConnId → List StreamId}
    {tape : List Script} (h : s.step (.close conns orders tape) = some t) :
    s.Free ∧ t.accepting = s.accepting ∧ t.idCounter = s.idCounter ∧
      ∀ (c : ConnId) (st : ConnState), t.connections[c]? = some st →
        s.connections[c]? = some st := by
  have hstable : Stable (fun _ _ ↦ True) (fun _ _ ↦ True) fun u ↦ u.accepting = s.accepting ∧
      u.idCounter = s.idCounter ∧ ∀ (c : ConnId) (st : ConnState),
        u.connections[c]? = some st → s.connections[c]? = some st := by
    constructor
    case grows => exact fun _ _ _ _ hA ↦ hA
    case callback => exact fun _ _ hu ↦ callback_of_effect (fun _ _ hu he ↦ by cases he <;> exact hu) hu
    all_goals intros; assumption
  refine ⟨free_of_handle h, hstable.step_close h ⟨rfl, rfl, fun _ _ hc ↦ hc⟩ (fun _ _ ↦ trivial)
    (fun _ _ _ _ _ _ ↦ trivial) ?_ fun _ hu ↦ hu⟩
  rintro u c ⟨hacc, hid, hconns⟩
  exact ⟨hacc, hid, fun c' st hc' ↦ hconns c' st (getElem?_of_forgotten hc')⟩

/-- On a free thread the served connections are those with a record. -/
theorem serves_iff_of_free (h : s.Free) (c : ConnId) :
    s.Serves c ↔ s.connections[c]?.isSome = true := by
  rw [Option.isSome_iff_exists]
  refine ⟨fun hserves ↦ hserves.resolve_right ?_, .inl⟩
  rintro ⟨st, hacc⟩
  rw [h.2] at hacc
  cases hacc

/-- Whom the server serves after a step. -/
def ServesAfter (s : QuicheServerSocketImpl) (l : Label) (t : QuicheServerSocketImpl) : Prop :=
  match l with
  | .newConn _ => t.idCounter = s.idCounter + 1 ∧ ∀ c, t.Serves c ↔ s.Serves c ∨ c = s.idCounter
  | .connClosed closed _ _ _ =>
    t.idCounter = s.idCounter ∧ ∀ c, t.Serves c ↔ s.Serves c ∧ c ≠ closed
  | .close _ _ _ => t.idCounter = s.idCounter ∧ ∀ c, t.Serves c → s.Serves c
  | .insertConn | .driverEvent _ _ _ | .call _ | .driverWrites _ _ =>
    t.idCounter = s.idCounter ∧ ∀ c, t.Serves c ↔ s.Serves c

private theorem serves_of_records (h : t.records = s.records) :
    t.idCounter = s.idCounter ∧ ∀ c, t.Serves c ↔ s.Serves c := by
  obtain ⟨hconns, hacc, hid⟩ := Prod.mk.inj h |>.imp_right Prod.mk.inj
  exact ⟨hid, fun c ↦ by simp only [Serves, hconns, hacc]⟩

/-- Connections are served from their acceptance to their close. -/
theorem serves_step {l : Label} (h : s.step l = some t) : ServesAfter s l t := by
  cases l with
  | newConn peerAddr =>
    simp only [step] at h
    split at h
    · next hfree =>
      cases h
      refine ⟨rfl, fun c ↦ ?_⟩
      simp [Serves, newConn, hfree.1.2, eq_comm]
    · cases h
  | insertConn =>
    obtain ⟨⟨c', st⟩, hacc, rfl⟩ := Option.map_eq_some_iff.mp h
    refine ⟨rfl, fun c ↦ ?_⟩
    rcases eq_or_ne c c' with rfl | hne
    · simp [Serves, insertConn, hacc]
    · simp [Serves, insertConn, hacc, Std.ExtTreeMap.getElem?_insert, hne.symm]
  | driverEvent c ev tape => exact serves_of_records (records_driverEvent h).2
  | connClosed c' b order tape =>
    obtain ⟨hfree, hrec⟩ := records_connClosed h
    obtain ⟨hconns, hacc, hid⟩ := Prod.mk.inj hrec |>.imp_right Prod.mk.inj
    refine ⟨hid, fun c ↦ ?_⟩
    rcases eq_or_ne c c' with rfl | hne
    · simp [Serves, hconns, hacc, hfree.2]
    · simp [Serves, hconns, hacc, hfree.2, Std.ExtTreeMap.getElem?_erase, hne, hne.symm]
  | close conns orders tape =>
    obtain ⟨-, hacc, hid, hconns⟩ := records_close h
    refine ⟨hid, fun c hc ↦ ?_⟩
    rw [Serves, hacc] at hc
    refine hc.imp_left ?_
    rintro ⟨st, hst⟩
    exact ⟨st, hconns c st hst⟩
  | call c => exact serves_of_records (records_call h).2
  | driverWrites ref tx =>
    cases h
    exact ⟨rfl, fun c ↦ Iff.rfl⟩

end

end ExtQuiche.Server
