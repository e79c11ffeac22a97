import ExtQuiche.Server.Place

/-!
# Chunks handed to PHP

Library `Server`. A stream is ready while its place in the map of its connection holds a
pair whose `on_data` slot has a callable in it. A stream callback that sets `on_data` on
the new object makes it ready, everything but the end of the stream or of its connection
leaves it ready, and a chunk for a ready stream is handed to its callback exactly once.
-/

namespace ExtQuiche.Server
open ExtQuiche.Base ExtQuiche.Base.Locking ExtQuiche.Conn ExtQuiche.Stream
open QuicheServerSocketImpl

/-- Payload and fin flag that an entry hands to the `on_data` callback of a stream. -/
def Obs.chunk? (c : ConnId) (id : StreamId) : Obs → Option (Bytes × Bool)
  | .invoked r =>
    match r.invocation with
    | .onData _ c' id' data fin => if c' = c ∧ id' = id then some (data, fin) else none
    | .stream _ _ _ => none
    | .onClose _ _ => none
  | .inserted _ => none
  | .fireOnClose _ _ => none
  | .firedOnClose _ => none

/-- Chunks handed to the `on_data` callback of a stream, oldest first. -/
def delivered (log : List Obs) (c : ConnId) (id : StreamId) : List (Bytes × Bool) :=
  log.filterMap (Obs.chunk? c id)

/-- The call sets a callable `on_data` on the object. -/
def PhpCall.SetsOnData (obj : Nat) : PhpCall → Prop
  | .setOnData obj' callback => obj' = obj ∧ callback.isCallable = true
  | _ => False

instance (obj : Nat) : ∀ call, Decidable (PhpCall.SetsOnData obj call)
  | .setOnData _ _ => inferInstanceAs (Decidable (_ ∧ _))
  | .setOnClose _ _ | .write _ _ _ | .close _ | .openBidiStream _ _ | .openUniStream _ _ =>
    .isFalse id

/-- A stream callback for the stream sets `on_data` on the new object. -/
def Obs.Hooks (c : ConnId) (id : StreamId) : Obs → Prop
  | .invoked ⟨.stream c' id' obj, _, _, script⟩ =>
    c' = c ∧ id' = id → ∃ call ∈ script.calls, call.SetsOnData obj
  | _ => True

instance (c : ConnId) (id : StreamId) : ∀ e, Decidable (Obs.Hooks c id e)
  | .invoked ⟨.stream _ _ _, _, _, _⟩ => inferInstanceAs (Decidable (_ → _))
  | .invoked ⟨.onData _ _ _ _ _, _, _, _⟩ | .invoked ⟨.onClose _ _, _, _, _⟩ | .inserted _
  | .fireOnClose _ _ | .firedOnClose _ => .isTrue trivial

namespace QuicheServerSocketImpl

/-- The place of the stream holds a pair that was made. -/
def Placed (s : QuicheServerSocketImpl) (c : ConnId) (id : StreamId) (n : Nat) : Prop :=
  n < s.nextPair ∧ (s.maps c)[id]? = some (.ofPair n)

/-- The place of the stream holds a pair with a callable in its `on_data` slot. -/
def Ready (s : QuicheServerSocketImpl) (c : ConnId) (id : StreamId) : Prop :=
  ∃ n, s.Placed c id n ∧ ∃ callback : Zval, s.slots ⟨n, .data⟩ = some callback ∧
    callback.isCallable = true

end QuicheServerSocketImpl

section

variable {s t : QuicheServerSocketImpl} {c : ConnId} {id : StreamId} {n : Nat}

private theorem PhpCall.SetsOnData.exists {call : PhpCall} {obj : Nat} (h : call.SetsOnData obj) :
    ∃ callback : Zval, call = .setOnData obj callback ∧ callback.isCallable = true := by
  cases call with
  | setOnData obj' callback => exact ⟨callback, by rw [h.1], h.2⟩
  | _ => exact h.elim

/-- A callable in its slot makes a placed stream ready. -/
theorem ready_installed (h : s.Placed c id n) {callback : Zval}
    (hcb : callback.isCallable = true) : (s.installed ⟨n, .data⟩ callback).Ready c id :=
  ⟨n, h, callback, Function.update_self .., hcb⟩

private theorem placed_inserted (h : s.Placed c id n) (origin : Origin) (c' : ConnId)
    {map : MapRef} {id' : StreamId} (hne : ¬ (map = c ∧ id' = id)) (slots : StreamSlots) :
    (s.allocated.inserted origin c' map id' slots).Placed c id n := by
  refine ⟨h.1.trans (Nat.lt_succ_self _), ?_⟩
  rw [getElem?_inserted, if_neg fun heq ↦ hne ⟨heq.1.symm, heq.2.symm⟩]
  exact h.2

private theorem slot_allocated (hn : n < s.nextPair) :
    s.allocated.slots ⟨n, .data⟩ = s.slots ⟨n, .data⟩ := by
  have hne : n ≠ s.nextPair := hn.ne
  simp [allocated, hne]

/-- A call of PHP leaves a placed stream in its place, where it does not open it. -/
theorem Effect.placed (h : Effect s t) (hp : s.Placed c id n) (ht : t.Reserved c id) :
    t.Placed c id n := by
  cases h with
  | none => exact hp
  | installed o ho slot hslot callback hcb => exact hp
  | sent o ho data fin m hm tx htx => exact hp
  | allocated => exact ⟨hp.1.trans (Nat.lt_succ_self _), hp.2⟩
  | opened o ho handle hh streamId new hnew =>
    refine placed_inserted hp .opened handle.connId ?_ _
    exact ht _ (List.mem_append_right _ (List.mem_singleton_self _)) rfl

/-- A call of PHP leaves a ready stream ready, where it does not open it. -/
theorem Effect.ready (h : Effect s t) (hr : s.Ready c id) (ht : t.Reserved c id) :
    t.Ready c id := by
  obtain ⟨n, hp, callback, hslot, hcb⟩ := hr
  refine ⟨n, h.placed hp ht, ?_⟩
  cases h with
  | none => exact ⟨callback, hslot, hcb⟩
  | installed o ho slot hslot' callback' hcb' =>
    rcases eq_or_ne ⟨n, .data⟩ slot with rfl | hne
    · exact ⟨callback', Function.update_self .., hcb'⟩
    · exact ⟨callback, (Function.update_of_ne hne ..).trans hslot, hcb⟩
  | sent o ho data fin m hm tx htx => exact ⟨callback, hslot, hcb⟩
  | allocated => exact ⟨callback, (slot_allocated hp.1).trans hslot, hcb⟩
  | opened o ho handle hh streamId new hnew =>
    exact ⟨callback, (slot_allocated hp.1).trans hslot, hcb⟩

/-- Readiness is local to the place of the stream. -/
theorem local_ready (c : ConnId) (id : StreamId) : Local c id (·.Ready c id) where
  moved hs hplace hslots hpair _ := by
    obtain ⟨n, ⟨hn, hp⟩, hcb⟩ := hs
    exact ⟨n, ⟨hpair ▸ hn, hplace.trans hp⟩, hslots ▸ hcb⟩
  noted _ hs := hs
  registered {s c' map id' o} hne hs := by
    obtain ⟨n, hp, callback, hslot, hcb⟩ := hs
    exact ⟨n, placed_inserted hp .announced c' hne _, callback, (slot_allocated hp.1).trans hslot,
      hcb⟩
  effect he ht hs := he.ready hs ht

private theorem delivered_append (log : List Obs) (e : Obs) (c : ConnId) (id : StreamId) :
    delivered (log ++ [e]) c id = delivered log c id ++ (e.chunk? c id).toList := by
  rw [delivered, List.filterMap_append]
  rfl

private theorem Effect.delivered (h : Effect s t) : delivered t.log c id = delivered s.log c id := by
  cases h with
  | opened o ho handle hh streamId new hnew =>
    exact (delivered_append _ _ c id).trans (List.append_nil _)
  | _ => rfl

/-- Nothing but an `on_data` callback of the stream is handed a chunk of it. -/
theorem stable_delivered (c : ConnId) (id : StreamId) (chunks : List (Bytes × Bool)) :
    Stable (fun _ invocation ↦ ∀ slot data fin, invocation ≠ .onData slot c id data fin)
      (fun _ _ ↦ True) fun s ↦ delivered s.log c id = chunks where
  grows _ _ _ _ hA := hA
  callback {s invocation} held hA hs := by
    apply callback_of_effect (fun _ _ hs he ↦ he.delivered.trans hs)
    have hno : (Obs.invoked ⟨invocation, held, s.objects, s.nextScript⟩).chunk? c id = none := by
      cases invocation with
      | onData slot c' id' data fin =>
        apply if_neg
        rintro ⟨rfl, rfl⟩
        exact hA slot data fin rfl
      | stream c' id' obj => rfl
      | onClose slot b => rfl
    rw [QuicheServerSocketImpl.entered, delivered_append, hno]
    exact (List.append_nil _).trans hs
  fireOnClose _ _ _ hs := (delivered_append _ _ c id).trans ((List.append_nil _).trans hs)
  firedOnClose _ hs := (delivered_append _ _ c id).trans ((List.append_nil _).trans hs)
  announced _ _ _ _ hs := (delivered_append _ _ c id).trans ((List.append_nil _).trans hs)
  removed _ hs := hs
  emptied _ hs := hs
  hung _ hs := hs

/-- `setOnData` with a callable stores it in the slot of the object. -/
theorem setOnData_spec {held : List MutexRef} {H : MutexRef → QuicheServerSocketImpl → Prop}
    {obj : Nat} {o : StreamObject} (ho : s.objects[obj]? = some o) {slot : SlotRef}
    (hslot : o.onData? = some slot) (hfree : .slot slot ∉ held) {callback : Zval}
    (hcb : callback.isCallable = true) :
    Spec held (· = s) (runCall (.setOnData obj callback))
      (fun _ t ↦ t = s.installed slot callback) H := by
  refine .getData_bind ?_
  rintro t rfl
  simp only [PhpCall.obj, ho, onMethod, callOn, hslot, installSlot, hcb, if_true]
  refine .bind (Q := fun _ u ↦ u = t.installed slot callback) ?_ fun _ ↦ .pure fun _ h ↦ h
  refine .bind (Q := fun _ u ↦ u = t.installed slot callback)
    (.withLock (fun _ ↦ .modifyData ?_) fun hno ↦ absurd hno hfree) fun _ ↦ .pure fun _ h ↦ h
  rintro u rfl
  rfl

/-- No call locks the mutex of the stream callback. -/
private theorem streamCallback_not_locked (call : PhpCall) (o : StreamObject) :
    ∀ m ∈ call.locks o, m ≠ .streamCallback := by
  intro m hm
  cases call with
  | setOnData obj callback =>
    simp only [PhpCall.locks] at hm
    split at hm
    · obtain ⟨slot, -, rfl⟩ := Option.map_eq_some_iff.mp hm
      simp
    · cases hm
  | setOnClose obj callback =>
    simp only [PhpCall.locks] at hm
    split at hm
    · cases hm
      simp
    · cases hm
  | write obj data fin => cases hm
  | close obj => cases hm
  | openBidiStream obj streamId =>
    obtain ⟨handle, -, rfl⟩ := Option.map_eq_some_iff.mp hm
    simp
  | openUniStream obj streamId =>
    obtain ⟨handle, -, rfl⟩ := Option.map_eq_some_iff.mp hm
    simp

/-- A call of the stream callback returns with its effect. -/
private theorem runCall_in_stream (call : PhpCall) :
    Spec [.streamCallback] (· = s) (runCall call) (fun _ ↦ Effect s) fun _ _ ↦ False := by
  apply (runCall_spec call).weaken (fun _ h ↦ h) (fun _ _ h ↦ h.1)
  rintro m t ⟨-, hlocks, hmem⟩
  obtain ⟨o, -, hm⟩ := Option.mem_bind_iff.mp hlocks
  exact streamCallback_not_locked call o m hm (List.mem_singleton.mp hmem)

private theorem Effect.getElem?_objects (h : Effect s t) {i : Nat} {o : StreamObject}
    (ho : s.objects[i]? = some o) : t.objects[i]? = some o := by
  cases h with
  | none => exact ho
  | installed o ho' slot hslot callback hcb => exact ho
  | sent o ho' data fin m hm tx htx => exact ho
  | allocated => exact ho
  | opened o' ho' handle hh streamId new hnew =>
    obtain ⟨hlt, -⟩ := List.getElem?_eq_some_iff.mp ho
    exact (List.getElem?_append_left hlt).trans ho

/-- The calls of a stream callback, with the new object at its place. -/
private theorem hooking_calls (c : ConnId) (id : StreamId) (obj : Nat) {o : StreamObject}
    (ho : o.onData? = some ⟨n, .data⟩) (calls : List PhpCall) :
    Spec [.streamCallback]
      (fun t ↦ t.objects[obj]? = some o ∧ (t.Reserved c id → t.Placed c id n))
      (calls.forM runCall)
      (fun _ t ↦ (∃ call ∈ calls, call.SetsOnData obj) → t.Reserved c id → t.Ready c id)
      fun _ _ ↦ False := by
  induction calls with
  | nil => exact .pure fun _ _ ⟨_, hno, _⟩ ↦ absurd hno List.not_mem_nil
  | cons call calls ih =>
    by_cases hcall : call.SetsOnData obj
    · obtain ⟨callback, rfl, hcb⟩ := hcall.exists
      refine .bind (Q := fun _ t ↦ t.Reserved c id → t.Ready c id) ?_ fun _ ↦ ?_
      · refine .of_forall fun t ht ↦ (setOnData_spec ht.1 ho (by simp) hcb).post ?_
        rintro - u rfl hu
        exact ready_installed (ht.2 hu) hcb
      · -- the remaining calls leave the stream ready
        refine (Spec.forM_mem (I := fun t ↦ t.Reserved c id → t.Ready c id) fun call _ ↦
          .of_forall fun t ht ↦ (runCall_in_stream call).post fun _ u hu hres ↦ ?_).post
            fun _ _ hu _ ↦ hu
        exact hu.ready (ht (reserved_of_log hu.log hres)) hres
    · refine .bind (Q := fun _ t ↦ t.objects[obj]? = some o ∧
        (t.Reserved c id → t.Placed c id n)) ?_ fun _ ↦ ih.post fun _ t ht hset ↦ ht ?_
      · refine .of_forall fun t ht ↦ (runCall_in_stream call).post fun _ u hu ↦ ?_
        exact ⟨hu.getElem?_objects ht.1, fun hres ↦
          hu.placed (ht.2 (reserved_of_log hu.log hres)) hres⟩
      · obtain ⟨call', hmem, hset⟩ := hset
        refine ⟨call', (List.mem_cons.mp hmem).resolve_left ?_, hset⟩
        rintro rfl
        exact hcall hset

/-- A stream callback that sets `on_data` makes its stream ready, and returns. -/
theorem callStreamCallback_ready (hplaced : s.Placed c id n) {o : StreamObject}
    (ho : o.onData? = some ⟨n, .data⟩) (hcb : ∃ cb ∈ s.streamCallback, cb.isCallable = true) :
    Spec [] (· = s) (callStreamCallback c id o)
      (fun _ t ↦ (∀ e ∈ t.log, e.Hooks c id) → t.Reserved c id → t.Ready c id) fun _ _ ↦ False := by
  refine callStreamCallback_spec (callIfCallable_spec (fun _ ↦ ?_) fun hno ↦ absurd hcb hno)
  -- the callback is in the log from its entry on
  refine ((hooking_calls c id s.objects.length ho (s.withObject o).nextScript.calls).and
    (runCalls_spec (I := fun t ↦ ((s.withObject o).entered [.streamCallback]
      (.stream c id s.objects.length)).log <+: t.log) (fun _ _ ht he ↦ ht.trans he.log) _)).weaken
    ?_ ?_ fun _ _ h ↦ h.1
  · rintro t rfl
    exact ⟨⟨List.getElem?_concat_length .., fun _ ↦ hplaced⟩, List.prefix_refl _⟩
  · rintro - t ⟨hready, hgrown⟩ hhooked
    have hentered := hgrown.subset (List.mem_append_right _ (List.mem_singleton_self _))
    exact hready (hhooked _ hentered ⟨rfl, rfl⟩)

/-- A chunk of a ready stream is handed to its callback once, also where that hangs. -/
theorem deliver_ready (h : s.Ready c id) (data : Bytes) (fin : Bool) :
    Spec [] (· = s) (deliver c c id data fin)
      (fun _ t ↦ delivered t.log c id = delivered s.log c id ++ [(data, fin)] ∧
        (t.Reserved c id → t.Ready c id))
      fun _ t ↦ delivered t.log c id = delivered s.log c id ++ [(data, fin)] ∧
        (t.Reserved c id → t.Ready c id) := by
  obtain ⟨n, hplaced, callback, hslot, hcb⟩ := h
  refine deliver_spec (fun hno ↦ ?_) fun slots hs ↦ ?_
  · rw [hplaced.2] at hno
    cases hno
  · rw [hplaced.2] at hs
    cases hs
    refine callIfCallable_spec (fun _ ↦ ?_) fun hno ↦ absurd ⟨callback, hslot, hcb⟩ hno
    refine (runCalls_spec ?_ _).pre ?_
    · rintro t u ⟨hchunks, hready⟩ he
      exact ⟨he.delivered.trans hchunks,
        fun hu ↦ he.ready (hready (reserved_of_log he.log hu)) hu⟩
    · rintro t rfl
      refine ⟨(delivered_append ..).trans ?_, fun _ ↦ ⟨n, hplaced, callback, hslot, hcb⟩⟩
      simp [Obs.chunk?]

/-- What a step that does not concern the stream leaves as it was. -/
structure Undisturbed (c : ConnId) (id : StreamId) (s t : QuicheServerSocketImpl) : Prop where
  delivered : delivered t.log c id = delivered s.log c id
  ready : t.Serves c → t.Reserved c id → s.Ready c id → t.Ready c id

private theorem onClose_ne_onData {slot : SlotRef} {b : Bool} (slot' : SlotRef) (data : Bytes)
    (fin : Bool) : Invocation.onClose slot b ≠ .onData slot' c id data fin := by
  intro hno
  cases hno

private theorem stream_ne_onData {c' : ConnId} {id' : StreamId} {obj : Nat} (slot : SlotRef)
    (data : Bytes) (fin : Bool) : Invocation.stream c' id' obj ≠ .onData slot c id data fin := by
  intro hno
  cases hno

/-- Every step but an event on the stream leaves its chunks and its readiness alone. -/
theorem undisturbed_step (hr : s.Registry) {l : Label} (h : s.step l = some t)
    (hother : ∀ c' ev tape, l = .driverEvent c' ev tape → s.connections[c']? ≠ none →
      ¬ (c' = c ∧ ev.streamId = id)) : Undisturbed c id s t := by
  refine ⟨?_, fun hs hres hready ↦ (local_ready c id).step hr h hother hs hres hready⟩
  have hstable := stable_delivered c id (delivered s.log c id)
  cases l with
  | newConn peerAddr =>
    simp only [step] at h
    split at h <;> cases h
    rfl
  | insertConn =>
    obtain ⟨⟨c', st⟩, -, rfl⟩ := Option.map_eq_some_iff.mp h
    rfl
  | driverEvent c' ev tape =>
    refine hstable.step_driverEvent h rfl (fun _ _ ↦ trivial)
      (fun _ _ _ _ _ _ _ ↦ onClose_ne_onData) (fun _ _ _ _ _ ↦ stream_ne_onData)
      fun st hc slots id' data fin hev _ slot' data' fin' heq ↦ ?_
    cases heq
    exact hother c ev tape rfl (by simp [hc]) ⟨rfl, by rw [hev]; rfl⟩
  | connClosed c' b order tape =>
    exact hstable.step_connClosed h (fun _ ↦ rfl) rfl (fun _ _ _ ↦ trivial)
      fun _ _ _ _ _ ↦ onClose_ne_onData
  | close conns orders tape =>
    exact hstable.step_close h rfl (fun _ _ ↦ trivial) (fun _ _ _ _ _ _ ↦ onClose_ne_onData)
      (fun _ _ hu ↦ hu) fun _ hu ↦ hu
  | call call => exact hstable.step_call h (fun _ _ hs he ↦ he.delivered.trans hs) rfl
  | driverWrites ref tx =>
    cases h
    rfl

private theorem onData?_of_announces {st : ConnState} {o : StreamObject}
    (h : AnnouncesAs c st id n o) : o.onData? = some ⟨n, .data⟩ := by
  cases h <;> rfl

/-- The announcement of the stream makes it ready, when its stream callback sets `on_data`. -/
theorem announced_step (hr : s.Registry) (hcb : ∃ cb ∈ s.streamCallback, cb.isCallable = true)
    (hc : s.connections[c]? ≠ none) {ev : DriverEvent} (ha : ev.announces = true)
    {tape : List Script} (h : s.step (.driverEvent c ev tape) = some t) :
    delivered t.log c ev.streamId = delivered s.log c ev.streamId ∧
      ((∀ e ∈ t.log, e.Hooks c ev.streamId) → t.Reserved c ev.streamId →
        t.Ready c ev.streamId) := by
  constructor
  · refine (stable_delivered c ev.streamId _).step_driverEvent h rfl (fun _ _ ↦ trivial)
      (fun _ _ _ _ _ _ _ ↦ onClose_ne_onData) (fun _ _ _ _ _ ↦ stream_ne_onData)
      fun _ _ _ _ _ _ hev ↦ ?_
    rw [hev] at ha
    cases ha
  · have hspec : Spec [] (· = { s with tape }) (dispatchDriverEvent c ev)
        (fun _ u ↦ (∀ e ∈ u.log, e.Hooks c ev.streamId) → u.Reserved c ev.streamId →
          u.Ready c ev.streamId) fun _ _ ↦ False := by
      refine dispatchDriverEvent_spec (fun hno ↦ absurd hno hc) (fun st o hst _ ho ↦ ?_) ?_
      · have hmap := hr.map_eq hst
        refine callStreamCallback_ready ⟨Nat.lt_succ_self _, ?_⟩ (onData?_of_announces ho) hcb
        rw [getElem?_inserted, if_pos ⟨hmap.symm, rfl⟩]
      · rintro st id data fin - rfl
        cases ha
    obtain ⟨-, u, ⟨rfl, hu⟩ | ⟨m, -, hu⟩⟩ := handle_spec hspec h
    · exact hu
    · exact hu.elim

/-- A chunk of a ready stream is handed to PHP, and leaves it ready unless it has the fin. -/
theorem chunk_step (hr : s.Registry) (hc : s.connections[c]? ≠ none) (hready : s.Ready c id)
    {data : Bytes} {fin : Bool} {tape : List Script}
    (h : s.step (.driverEvent c (.data id data fin) tape) = some t) :
    delivered t.log c id = delivered s.log c id ++ [(data, fin)] ∧
      (fin = false → t.Reserved c id → t.Ready c id) := by
  have hspec : Spec [] (· = { s with tape }) (dispatchDriverEvent c (.data id data fin))
      (fun _ u ↦ delivered u.log c id = delivered s.log c id ++ [(data, fin)] ∧
        (fin = false → u.Reserved c id → u.Ready c id))
      fun _ u ↦ delivered u.log c id = delivered s.log c id ++ [(data, fin)] ∧
        (fin = false → u.Reserved c id → u.Ready c id) := by
    refine dispatchDriverEvent_spec (fun hno ↦ absurd hno hc) (fun _ _ _ ha ↦ by cases ha) ?_
    rintro st id' data' fin' hst heq
    cases heq
    unfold dispatchData
    rw [hr.map_eq hst]
    have hdeliver := deliver_ready (s := { s with tape }) hready data fin
    cases fin with
    | false =>
      exact .bind (hdeliver.weaken (fun _ hu ↦ hu) (fun _ _ hu ↦ ⟨hu.1, fun _ ↦ hu.2⟩)
        fun _ _ hu ↦ ⟨hu.1, fun _ ↦ hu.2⟩) fun _ ↦ .pure fun _ hu ↦ hu
    | true =>
      -- the callback of the end is not handed the chunk a second time
      have hfinish : Spec [] (fun u ↦ delivered u.log c id = delivered s.log c id ++ [(data, true)])
          (finish c id) (fun _ u ↦ delivered u.log c id = delivered s.log c id ++ [(data, true)])
          fun _ u ↦ delivered u.log c id = delivered s.log c id ++ [(data, true)] :=
        (stable_delivered c id _).finish_keeps trivial fun _ _ _ _ ↦ onClose_ne_onData
      exact .bind (hdeliver.weaken (fun _ hu ↦ hu) (fun _ _ hu ↦ hu.1) fun _ _ hu ↦ ⟨hu.1, nofun⟩)
        fun _ ↦ hfinish.weaken (fun _ hu ↦ hu) (fun _ _ hu ↦ ⟨hu, nofun⟩) fun _ _ hu ↦ ⟨hu, nofun⟩
  obtain ⟨-, u, ⟨rfl, hu⟩ | ⟨m, rfl, hu⟩⟩ := handle_spec hspec h
  · exact hu
  · exact hu

/-- The stream callback is never replaced. -/
theorem streamCallback_step {l : Label} (h : s.step l = some t) :
    t.streamCallback = s.streamCallback := by
  have heffect : ∀ u v : QuicheServerSocketImpl, u.streamCallback = s.streamCallback →
      Effect u v → v.streamCallback = s.streamCallback := by
    rintro u v hu he
    cases he <;> exact hu
  have hlasting : Lasting fun u ↦ u.streamCallback = s.streamCallback := by
    constructor
    case effect => exact heffect
    case stable =>
      constructor
      case grows => exact fun _ _ _ _ hA ↦ hA
      case callback => exact fun _ _ hu ↦ callback_of_effect heffect hu
      all_goals intros; assumption
    all_goals intros; assumption
  exact hlasting.step rfl h

end

end ExtQuiche.Server
