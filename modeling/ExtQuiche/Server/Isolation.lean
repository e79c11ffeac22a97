import ExtQuiche.Server.CloseOnce
import ExtQuiche.Server.Frame

/-!
# What one connection's messages can touch

Library `Server`. Stream objects and records refer to the channel, the `Notify` and the map
of their own connection, and every map entry was registered where it is. So a message of
one connection invokes callbacks of that connection only, and the maps of the others change
only where its callbacks open streams on them.
-/

namespace ExtQuiche.Server
open ExtQuiche.Base ExtQuiche.Base.Locking ExtQuiche.Conn ExtQuiche.Stream
open QuicheServerSocketImpl

/-- The handle refers to what belongs to its connection. -/
structure OwnHandle (c : ConnId) (handle : ConnOpenHandle) : Prop where
  connId : handle.connId = c
  writeTx : handle.writeTx = c
  writeNotify : handle.writeNotify = c
  phpStreamCallbacks : handle.phpStreamCallbacks = c

/-- The record refers to what belongs to its connection. -/
structure OwnRecord (c : ConnId) (st : ConnState) : Prop where
  phpStreamCallbacks : st.phpStreamCallbacks = c
  openHandle : OwnHandle c st.openHandle

/-- The object's writes and its handle stay with its connection. -/
structure OwnObject (o : StreamObject) : Prop where
  outbound : ∀ m, (∃ data fin, o.write data fin = some m) ∨ o.close = some m →
    m.writeTx = o.connId ∧ m.writeNotify = o.connId
  handle : ∀ handle, o.connHandle? = some handle → OwnHandle o.connId handle

namespace QuicheServerSocketImpl

/-- Every entry of a slot map has been registered there. -/
def Listed (s : QuicheServerSocketImpl) : Prop :=
  ∀ (map : MapRef) (id : StreamId) (slots : StreamSlots), (s.maps map)[id]? = some slots →
    ∃ i, .inserted i ∈ s.log ∧ i.map = map ∧ i.streamId = id ∧ i.slots = slots

/-- All references stay within their connection. -/
structure Owned (s : QuicheServerSocketImpl) : Prop where
  refs : s.nextRef = s.idCounter
  conns : ∀ (c : ConnId) (st : ConnState), s.connections[c]? = some st → OwnRecord c st
  accepting : ∀ (c : ConnId) (st : ConnState), s.accepting = some (c, st) → OwnRecord c st
  objects : ∀ o ∈ s.objects, OwnObject o
  log : ∀ i, .inserted i ∈ s.log → i.map = i.connId

end QuicheServerSocketImpl

section

variable {s t : QuicheServerSocketImpl}

/-- Registrations after an entry that is none. -/
theorem mem_of_noted {e : Obs} (he : e.issues = none) {i : Insertion}
    (hi : .inserted i ∈ (s.noted e).log) : .inserted i ∈ s.log := by
  refine (List.mem_append.mp hi).resolve_right fun hnew ↦ ?_
  cases List.mem_singleton.mp hnew
  cases he

/-- Registrations after one more. -/
theorem mem_or_eq_of_inserted {origin : Origin} {c : ConnId} {map : MapRef} {id : StreamId}
    {slots : StreamSlots} {o : StreamObject} {i : Insertion}
    (hi : .inserted i ∈ ((s.allocated.inserted origin c map id slots).withObject o).log) :
    .inserted i ∈ s.log ∨
      i = ⟨origin, c, map, id, slots, (s.maps map)[id]?, s.attached c map⟩ := by
  refine (List.mem_append.mp hi).imp_right fun hnew ↦ ?_
  cases List.mem_singleton.mp hnew
  rfl

private theorem listed_inserted (hs : s.Listed) (origin : Origin) (c : ConnId) (map : MapRef)
    (id : StreamId) (o : StreamObject) :
    ((s.allocated.inserted origin c map id (.ofPair s.nextPair)).withObject o).Listed := by
  intro map' id' slots hslots
  have hplace := (getElem?_inserted (s := s.allocated) origin c map map' id id'
    (.ofPair s.nextPair)).symm.trans hslots
  split at hplace
  · next heq =>
    cases hplace
    exact ⟨_, List.mem_append_right _ (List.mem_singleton_self _), heq.1.symm, heq.2.symm, rfl⟩
  · obtain ⟨i, hi, hrest⟩ := hs map' id' slots hplace
    exact ⟨i, List.mem_append_left _ hi, hrest⟩

private theorem Effect.listed (h : Effect s t) (hs : s.Listed) : t.Listed := by
  cases h with
  | opened o ho handle hh streamId new hnew => exact listed_inserted hs _ _ _ _ _
  | _ => exact hs

private theorem listed_noted {e : Obs} (hs : s.Listed) : (s.noted e).Listed := by
  intro map id slots hslots
  obtain ⟨i, hi, hrest⟩ := hs map id slots hslots
  exact ⟨i, List.mem_append_left _ hi, hrest⟩

/-- Entries are registered before they are in a map. -/
theorem stable_listed {A : List Obs → Invocation → Prop} {K : MapRef → StreamId → Prop}
    (hgrows : ∀ log log' invocation, log <+: log' → A log invocation → A log' invocation) :
    Stable A K Listed where
  grows := hgrows
  callback _ _ hs := callback_of_effect (fun _ _ hs he ↦ he.listed hs) (listed_noted hs)
  fireOnClose _ _ _ hs := listed_noted hs
  firedOnClose _ hs := listed_noted hs
  announced _ _ _ _ hs := listed_inserted hs _ _ _ _ _
  removed _ hs map id slots hslots := by
    rw [getElem?_removed] at hslots
    split at hslots
    · cases hslots
    · exact hs map id slots hslots
  emptied _ hs map id slots hslots := by
    rw [getElem?_emptied] at hslots
    split at hslots
    · cases hslots
    · exact hs map id slots hslots
  hung _ hs := hs

/-- Map entries are registered in every reachable state. -/
theorem listed_of_reachable (h : server.Reachable s) : s.Listed := by
  have hlasting : Lasting Listed := by
    refine ⟨stable_listed fun _ _ _ _ hA ↦ hA, fun _ _ hs he ↦ he.listed hs, ?_,
      fun _ _ _ _ hs ↦ hs, fun _ _ hs ↦ hs, fun _ _ _ _ hs ↦ hs⟩
    intro s peerAddr hs map id slots hslots
    rcases eq_or_ne map s.nextRef with rfl | hne
    · simp [QuicheServerSocketImpl.newConn] at hslots
    · exact hs map id slots (by simpa [QuicheServerSocketImpl.newConn, hne] using hslots)
  refine hlasting.of_reachable (fun callback map id slots hslots ↦ ?_) h
  simp [QuicheServerSocketImpl.bind] at hslots

private theorem OwnHandle.opens {c : ConnId} {handle : ConnOpenHandle} (h : OwnHandle c handle)
    {id : StreamId} {n : Nat} {o : StreamObject} (ho : OpensAs handle id n o) : OwnObject o := by
  obtain ⟨rfl, htx, hnotify, -⟩ := h
  cases ho with
  | bidi =>
    refine ⟨?_, fun _ hno ↦ by cases hno⟩
    rintro m (⟨data, fin, hm⟩ | hm) <;> cases hm <;> exact ⟨htx, hnotify⟩
  | uni =>
    refine ⟨?_, fun _ hno ↦ by cases hno⟩
    rintro m (⟨data, fin, hm⟩ | hm) <;> cases hm <;> exact ⟨htx, hnotify⟩

private theorem OwnHandle.announces {c : ConnId} {st : ConnState} (h : OwnHandle c st.openHandle)
    {id : StreamId} {n : Nat} {o : StreamObject} (ho : AnnouncesAs c st id n o) : OwnObject o := by
  cases ho with
  | bidi =>
    refine ⟨?_, fun handle hh ↦ by cases hh; exact h⟩
    rintro m (⟨data, fin, hm⟩ | hm) <;> cases hm <;> exact ⟨h.writeTx, h.writeNotify⟩
  | uni =>
    refine ⟨?_, fun handle hh ↦ by cases hh; exact h⟩
    rintro m (⟨data, fin, hm⟩ | hm) <;> cases hm

private theorem owned_noted (hs : s.Owned) {e : Obs} (he : e.issues = none) : (s.noted e).Owned where
  refs := hs.refs
  conns := hs.conns
  accepting := hs.accepting
  objects := hs.objects
  log i hi := hs.log i (mem_of_noted he hi)

/-- So does entering a callback. -/
theorem owned_entered (hs : s.Owned) (held : List MutexRef) (invocation : Invocation) :
    (s.entered held invocation).Owned := by
  obtain ⟨hrefs, hconns, hacc, hobjects, hlog⟩ :=
    owned_noted hs (e := .invoked ⟨invocation, held, s.objects, s.nextScript⟩) rfl
  exact ⟨hrefs, hconns, hacc, hobjects, hlog⟩

private theorem owned_registered (hs : s.Owned) (origin : Origin) {c : ConnId} {map : MapRef}
    (hmap : map = c) (id : StreamId) {o : StreamObject} (ho : OwnObject o) :
    ((s.allocated.inserted origin c map id (.ofPair s.nextPair)).withObject o).Owned where
  refs := hs.refs
  conns := hs.conns
  accepting := hs.accepting
  objects o' ho' := by
    rcases List.mem_append.mp ho' with ho' | ho'
    · exact hs.objects o' ho'
    · exact List.mem_singleton.mp ho' ▸ ho
  log i hi := by
    rcases mem_or_eq_of_inserted hi with hold | rfl
    · exact hs.log i hold
    · exact hmap

/-- Nothing of it is about the scripts to come. -/
theorem QuicheServerSocketImpl.Owned.retape (h : s.Owned) (tape : List Script) :
    { s with tape }.Owned :=
  ⟨h.refs, h.conns, h.accepting, h.objects, h.log⟩

/-- A call keeps references within their connection. -/
theorem Effect.owned (h : Effect s t) (hs : s.Owned) : t.Owned := by
  cases h with
  | opened o ho handle hh streamId new hnew =>
    have hown := (hs.objects o ho).handle handle hh
    exact owned_registered hs .opened (hown.phpStreamCallbacks.trans hown.connId.symm) streamId
      (hown.opens hnew)
  | _ => exact ⟨hs.refs, hs.conns, hs.accepting, hs.objects, hs.log⟩

/-- Handlers keep references within their connection. -/
theorem stable_owned {A : List Obs → Invocation → Prop} {K : MapRef → StreamId → Prop}
    (hgrows : ∀ log log' invocation, log <+: log' → A log invocation → A log' invocation) :
    Stable A K Owned where
  grows := hgrows
  callback _ _ hs := callback_of_effect (fun _ _ hs he ↦ he.owned hs) (owned_entered hs _ _)
  fireOnClose _ _ _ hs := owned_noted hs rfl
  firedOnClose _ hs := owned_noted hs rfl
  announced hc ho _ _ hs := by
    have hown := hs.conns _ _ hc
    exact owned_registered hs .announced hown.phpStreamCallbacks _ (hown.openHandle.announces ho)
  removed _ hs := ⟨hs.refs, hs.conns, hs.accepting, hs.objects, hs.log⟩
  emptied _ hs := ⟨hs.refs, hs.conns, hs.accepting, hs.objects, hs.log⟩
  hung _ hs := ⟨hs.refs, hs.conns, hs.accepting, hs.objects, hs.log⟩

/-- Every step keeps references within their connection. -/
theorem lasting_owned : Lasting Owned where
  stable := stable_owned fun _ _ _ _ hA ↦ hA
  effect _ _ hs he := he.owned hs
  newConn s peerAddr hs := by
    refine ⟨congrArg (· + 1) hs.refs, hs.conns, ?_, hs.objects, hs.log⟩
    rintro c st heq
    cases heq
    exact ⟨hs.refs, rfl, hs.refs, hs.refs, hs.refs⟩
  insertConn s c st hacc hs := by
    refine ⟨hs.refs, fun c' st' hc' ↦ ?_, fun _ _ hno ↦ (by cases hno), hs.objects, hs.log⟩
    rw [getElem?_insertConn] at hc'
    split at hc'
    · next heq =>
      cases hc'
      exact heq ▸ hs.accepting c st hacc
    · exact hs.conns c' st' hc'
  forgotten s c hs := ⟨hs.refs, fun c' st' hc' ↦ hs.conns c' st' (getElem?_of_forgotten hc'),
    hs.accepting, hs.objects, hs.log⟩
  rest _ _ _ _ hs := ⟨hs.refs, hs.conns, hs.accepting, hs.objects, hs.log⟩

/-- References stay within their connection in every reachable state. -/
theorem owned_of_reachable (h : server.Reachable s) : s.Owned := by
  refine lasting_owned.of_reachable (fun callback ↦ ?_) h
  constructor <;> simp [QuicheServerSocketImpl.bind]

/-- Pairs are registered once. -/
structure QuicheServerSocketImpl.RegisteredOnce (s : QuicheServerSocketImpl) : Prop where
  old : ∀ i, .inserted i ∈ s.log → i.slots.onClose.pair < s.nextPair
  once : ∀ i j, .inserted i ∈ s.log → .inserted j ∈ s.log →
    i.slots.onClose = j.slots.onClose → i = j

private theorem registeredOnce_noted (hs : s.RegisteredOnce) {e : Obs} (he : e.issues = none) :
    (s.noted e).RegisteredOnce := by
  exact ⟨fun i hi ↦ hs.old i (mem_of_noted he hi),
    fun i j hi hj ↦ hs.once i j (mem_of_noted he hi) (mem_of_noted he hj)⟩

private theorem registeredOnce_inserted (hs : s.RegisteredOnce) (origin : Origin) (c : ConnId)
    (map : MapRef) (id : StreamId) (o : StreamObject) :
    ((s.allocated.inserted origin c map id (.ofPair s.nextPair)).withObject o).RegisteredOnce := by
  refine ⟨fun i hi ↦ ?_, fun i j hi hj heq ↦ ?_⟩
  · rcases mem_or_eq_of_inserted hi with hold | rfl
    · exact (hs.old i hold).trans (Nat.lt_succ_self _)
    · exact Nat.lt_succ_self _
  · rcases mem_or_eq_of_inserted hi with hi | rfl <;> rcases mem_or_eq_of_inserted hj with hj | rfl
    · exact hs.once i j hi hj heq
    · exact absurd (congrArg SlotRef.pair heq) (hs.old i hi).ne
    · exact absurd (congrArg SlotRef.pair heq) (hs.old j hj).ne'
    · rfl

private theorem Effect.registeredOnce (h : Effect s t) (hs : s.RegisteredOnce) :
    t.RegisteredOnce := by
  cases h with
  | opened o ho handle hh streamId new hnew => exact registeredOnce_inserted hs ..
  | allocated => exact ⟨fun i hi ↦ (hs.old i hi).trans (Nat.lt_succ_self _), hs.once⟩
  | _ => exact ⟨hs.old, hs.once⟩

/-- Pairs are registered once in every reachable state. -/
theorem registeredOnce_of_reachable (h : server.Reachable s) : s.RegisteredOnce := by
  have heffect : ∀ s t : QuicheServerSocketImpl, s.RegisteredOnce → Effect s t → t.RegisteredOnce :=
    fun _ _ hs he ↦ he.registeredOnce hs
  have hlasting : Lasting RegisteredOnce := by
    refine ⟨⟨fun _ _ _ _ hA ↦ hA, fun _ _ hs ↦ callback_of_effect heffect ?_,
      fun _ _ _ hs ↦ registeredOnce_noted hs rfl, fun _ hs ↦ registeredOnce_noted hs rfl,
      fun _ _ _ _ hs ↦ registeredOnce_inserted hs .., fun _ hs ↦ ⟨hs.old, hs.once⟩,
      fun _ hs ↦ ⟨hs.old, hs.once⟩, fun _ hs ↦ ⟨hs.old, hs.once⟩⟩, heffect,
      fun _ _ hs ↦ ⟨hs.old, hs.once⟩, fun _ _ _ _ hs ↦ ⟨hs.old, hs.once⟩,
      fun _ _ hs ↦ ⟨hs.old, hs.once⟩, fun _ _ _ _ hs ↦ ⟨hs.old, hs.once⟩⟩
    obtain ⟨hold, honce⟩ := registeredOnce_noted hs (e := .invoked ⟨_, _, _, _⟩) rfl
    exact ⟨hold, honce⟩
  refine hlasting.of_reachable (fun callback ↦ ?_) h
  constructor <;> simp [QuicheServerSocketImpl.bind]

/-- Slot and flag that an entry passes to `fire_on_close`. -/
def Obs.fires : Obs → Option (SlotRef × Bool)
  | .fireOnClose slot peerClosed => some (slot, peerClosed)
  | _ => none

/-- Callbacks of a connection: those of a stream pair are registered on it. Its `on_close`
callbacks are told `peerClosed` on the streams of `P` only. -/
def Concerns (c : ConnId) (P : StreamId → Bool → Prop) (log : List Obs) : Invocation → Prop
  | .stream c' _ _ => c' = c
  | .onData slot c' id _ _ => c' = c ∧ ∃ i, .inserted i ∈ log ∧ i.connId = c ∧ i.streamId = id ∧
      i.slots.onData = slot
  | .onClose slot peerClosed => ∃ i, .inserted i ∈ log ∧ i.connId = c ∧
      i.slots.onClose = slot ∧ P i.streamId peerClosed

/-- A registration stays in the log. -/
theorem concerns_grows {c : ConnId} {P : StreamId → Bool → Prop} (log log' : List Obs)
    (invocation : Invocation) (hlog : log <+: log') (h : Concerns c P log invocation) :
    Concerns c P log' invocation := by
  cases invocation with
  | stream c' id obj => exact h
  | onData slot c' id data fin =>
    obtain ⟨hc, i, hi, hrest⟩ := h
    exact ⟨hc, i, hlog.subset hi, hrest⟩
  | onClose slot b =>
    obtain ⟨i, hi, hrest⟩ := h
    exact ⟨i, hlog.subset hi, hrest⟩

/-- Since `s`, only callbacks among `A` have been invoked, and only such `on_close` fired. -/
structure Traced (A : List Obs → Invocation → Prop) (s t : QuicheServerSocketImpl) : Prop where
  log : s.log <+: t.log
  invoked : ∀ r, .invoked r ∈ t.log.drop s.log.length → A t.log r.invocation
  fired : ∀ slot b, .fireOnClose slot b ∈ t.log.drop s.log.length → A t.log (.onClose slot b)

/-- A weaker condition on the fired streams. -/
theorem Traced.mono {c : ConnId} {P Q : StreamId → Bool → Prop} (hPQ : ∀ id b, P id b → Q id b)
    (h : Traced (Concerns c P) s t) : Traced (Concerns c Q) s t := by
  have hweaken : ∀ log invocation, Concerns c P log invocation → Concerns c Q log invocation := by
    intro log invocation hinv
    cases invocation with
    | stream c' id obj => exact hinv
    | onData slot c' id data fin => exact hinv
    | onClose slot b =>
      obtain ⟨i, hi, hconn, hslot, hP⟩ := hinv
      exact ⟨i, hi, hconn, hslot, hPQ _ _ hP⟩
  exact ⟨h.log, fun r hr ↦ hweaken _ _ (h.invoked r hr), fun slot b hb ↦ hweaken _ _ (h.fired slot b hb)⟩

variable {A : List Obs → Invocation → Prop} {K : MapRef → StreamId → Prop}
  {u : QuicheServerSocketImpl}

private theorem drop_log (h : s.log <+: t.log) {e : Obs} (hu : u.log = t.log ++ [e]) :
    u.log.drop s.log.length = t.log.drop s.log.length ++ [e] := by
  rw [hu, List.drop_append_of_le_length h.length_le]

private theorem mem_drop_log (h : s.log <+: t.log) {e : Obs} (hu : u.log = t.log ++ [e]) :
    e ∈ u.log.drop s.log.length :=
  drop_log h hu ▸ List.mem_append_right _ (List.mem_singleton_self _)

private theorem Traced.noted (h : Traced A s t)
    (hgrows : ∀ log log' invocation, log <+: log' → A log invocation → A log' invocation)
    {e : Obs} (hu : u.log = t.log ++ [e]) (hinvoked : ∀ r, e = .invoked r → A t.log r.invocation)
    (hfired : ∀ slot b, e = .fireOnClose slot b → A t.log (.onClose slot b)) : Traced A s u := by
  have hgrown : t.log <+: u.log := ⟨[e], hu.symm⟩
  refine ⟨h.log.trans hgrown, fun r hr ↦ ?_, fun slot b hb ↦ ?_⟩
  · rw [drop_log h.log hu] at hr
    rcases List.mem_append.mp hr with hr | hr
    · exact hgrows _ _ _ hgrown (h.invoked r hr)
    · exact hgrows _ _ _ hgrown (hinvoked r (List.mem_singleton.mp hr).symm)
  · rw [drop_log h.log hu] at hb
    rcases List.mem_append.mp hb with hb | hb
    · exact hgrows _ _ _ hgrown (h.fired slot b hb)
    · exact hgrows _ _ _ hgrown (hfired slot b (List.mem_singleton.mp hb).symm)

/-- A call of PHP invokes and fires nothing. -/
theorem Traced.effect (h : Traced A s t)
    (hgrows : ∀ log log' invocation, log <+: log' → A log invocation → A log' invocation)
    (he : Effect t u) : Traced A s u := by
  cases he with
  | opened o ho handle hh streamId new hnew => exact h.noted hgrows rfl (fun _ ↦ nofun) fun _ _ ↦ nofun
  | _ => exact ⟨h.log, h.invoked, h.fired⟩

/-- A handler that invokes callbacks among `A` leaves a trace of such. -/
theorem stable_traced
    (hgrows : ∀ log log' invocation, log <+: log' → A log invocation → A log' invocation)
    (s : QuicheServerSocketImpl) : Stable A K (Traced A s) where
  grows := hgrows
  callback {t invocation} held hA hs := by
    refine callback_of_effect (fun _ _ hs he ↦ hs.effect hgrows he) (hs.noted hgrows rfl ?_ ?_)
    · rintro r heq
      cases heq
      exact hA
    · exact fun _ _ ↦ nofun
  fireOnClose slot b hA hs := by
    refine hs.noted hgrows rfl (fun _ ↦ nofun) ?_
    rintro slot' b' heq
    cases heq
    exact hA
  firedOnClose _ hs := hs.noted hgrows rfl (fun _ ↦ nofun) fun _ _ ↦ nofun
  announced _ _ _ _ hs := hs.noted hgrows rfl (fun _ ↦ nofun) fun _ _ ↦ nofun
  removed _ hs := ⟨hs.log, hs.invoked, hs.fired⟩
  emptied _ hs := ⟨hs.log, hs.invoked, hs.fired⟩
  hung _ hs := ⟨hs.log, hs.invoked, hs.fired⟩

/-- Nothing has happened yet. -/
theorem Traced.of_log (h : t.log = s.log) : Traced A s t :=
  ⟨h ▸ List.prefix_refl _, by simp [h], by simp [h]⟩

/-- What has happened since `s` is what happened up to `t` and what has happened since. -/
theorem Traced.trans
    (hgrows : ∀ log log' invocation, log <+: log' → A log invocation → A log' invocation)
    (h : Traced A s t) (h' : Traced A t u) : Traced A s u := by
  have hdrop : u.log.drop s.log.length =
      t.log.drop s.log.length ++ u.log.drop t.log.length := by
    obtain ⟨more, hmore⟩ := h'.log
    rw [← hmore, List.drop_append_of_le_length h.log.length_le, List.drop_left]
  refine ⟨h.log.trans h'.log, fun r hr ↦ ?_, fun slot b hb ↦ ?_⟩
  · rw [hdrop] at hr
    rcases List.mem_append.mp hr with hold | hnew
    · exact hgrows _ _ _ h'.log (h.invoked r hold)
    · exact h'.invoked r hnew
  · rw [hdrop] at hb
    rcases List.mem_append.mp hb with hold | hnew
    · exact hgrows _ _ _ h'.log (h.fired slot b hold)
    · exact h'.fired slot b hnew

/-- An entry in the map of a connection was registered on it, under its id. -/
theorem registered_of_entry (hown : s.Owned) (hlisted : s.Listed) {c : ConnId} {id : StreamId}
    {slots : StreamSlots} (hslots : (s.maps c)[id]? = some slots) :
    ∃ i, .inserted i ∈ s.log ∧ i.connId = c ∧ i.streamId = id ∧ i.slots = slots := by
  obtain ⟨i, hi, hmap, hid, heq⟩ := hlisted c id slots hslots
  exact ⟨i, hi, (hown.log i hi).symm.trans hmap, hid, heq⟩

/-- An event invokes callbacks of its connection, and fires its stream only. -/
theorem traced_driverEvent (hown : s.Owned) (hlisted : s.Listed) {c : ConnId} {ev : DriverEvent}
    {tape : List Script} (ht : s.step (.driverEvent c ev tape) = some t) :
    Traced (Concerns c fun id peerClosed ↦ peerClosed = true ∧ id = ev.streamId) s t := by
  have hgrows := concerns_grows (c := c)
    (P := fun id peerClosed ↦ peerClosed = true ∧ id = ev.streamId)
  have hstable := ((stable_traced (K := fun _ _ ↦ True) hgrows s).and (stable_listed hgrows)).and
    (stable_owned hgrows)
  refine (hstable.step_driverEvent ht ⟨⟨Traced.of_log rfl, hlisted⟩, hown.retape tape⟩
    (fun _ _ ↦ trivial) ?_ (fun _ _ _ _ _ ↦ rfl) ?_).1.1
  · rintro st hc - u slots ⟨⟨-, hlisted'⟩, hown'⟩ hslots
    rw [(hown.conns c st hc).phpStreamCallbacks] at hslots
    obtain ⟨i, hi, hconn, hid, rfl⟩ := registered_of_entry hown' hlisted' hslots
    exact ⟨i, hi, hconn, rfl, rfl, hid⟩
  · rintro st hc slots id data fin rfl hslots
    rw [(hown.conns c st hc).phpStreamCallbacks] at hslots
    obtain ⟨i, hi, hconn, hid, rfl⟩ := registered_of_entry hown hlisted hslots
    exact ⟨rfl, i, hi, hconn, hid, rfl⟩

/-- A close message fires streams in the map of its connection, with its flag. -/
theorem traced_connClosed (hown : s.Owned) (hlisted : s.Listed) {c : ConnId} {b : Bool}
    {order : List StreamId} {tape : List Script}
    (ht : s.step (.connClosed c b order tape) = some t) :
    Traced (Concerns c fun id peerClosed ↦ peerClosed = b ∧ s.connections[c]? ≠ none ∧
      (s.maps c)[id]? ≠ none) s t := by
  refine (stable_traced (K := fun _ _ ↦ True) concerns_grows s).step_connClosed ht
    (fun _ ↦ Traced.of_log rfl) (Traced.of_log rfl) (fun _ _ _ ↦ trivial) ?_
  · intro st hc id slots hslots
    rw [(hown.conns c st hc).phpStreamCallbacks] at hslots
    obtain ⟨i, hi, hconn, rfl, rfl⟩ := registered_of_entry hown hlisted hslots
    exact ⟨i, hi, hconn, rfl, rfl, by simp [hc], by simp [hslots]⟩

/-- Since `s`, the maps of other connections have changed only where PHP opened a stream. -/
structure OthersKept (c : ConnId) (s t : QuicheServerSocketImpl) : Prop where
  log : s.log <+: t.log
  maps : ∀ (map : MapRef), map ≠ c → ∀ id : StreamId, (t.maps map)[id]? = (s.maps map)[id]? ∨
    ∃ i, .inserted i ∈ t.log.drop s.log.length ∧ i.origin = .opened ∧ i.connId = map ∧
      i.streamId = id ∧ (t.maps map)[id]? = some i.slots

private theorem OthersKept.grown {c : ConnId} (h : OthersKept c s t) (hlog : t.log <+: u.log)
    {map : MapRef} (hmap : map ≠ c) {id : StreamId}
    (hsame : (u.maps map)[id]? = (t.maps map)[id]?) :
    (u.maps map)[id]? = (s.maps map)[id]? ∨
      ∃ i, .inserted i ∈ u.log.drop s.log.length ∧ i.origin = .opened ∧ i.connId = map ∧
        i.streamId = id ∧ (u.maps map)[id]? = some i.slots := by
  obtain ⟨more, hmore⟩ := hlog
  rw [hsame]
  refine (h.maps map hmap id).imp_right fun ⟨i, hi, hrest⟩ ↦ ⟨i, ?_, hrest⟩
  rw [← hmore, List.drop_append_of_le_length h.log.length_le]
  exact List.mem_append_left _ hi

private theorem OthersKept.noted {c : ConnId} (h : OthersKept c s t) (hlog : t.log <+: u.log)
    (hmaps : ∀ (map : MapRef) (id : StreamId), map ≠ c → (u.maps map)[id]? = (t.maps map)[id]?) :
    OthersKept c s u :=
  ⟨h.log.trans hlog, fun map hmap id ↦ h.grown hlog hmap (hmaps map id hmap)⟩

private theorem OthersKept.effect {c : ConnId} (h : OthersKept c s t) (hown : t.Owned)
    (he : Effect t u) : OthersKept c s u := by
  have hlog := he.log
  cases he with
  | opened o ho handle hh streamId new hnew =>
    refine ⟨h.log.trans hlog, fun map hmap id ↦ ?_⟩
    have hplace := getElem?_inserted (s := t.allocated) .opened handle.connId
      handle.phpStreamCallbacks map streamId id (.ofPair t.nextPair)
    by_cases hat : map = handle.phpStreamCallbacks ∧ id = streamId
    · obtain ⟨rfl, rfl⟩ := hat
      have hhandle := (hown.objects o ho).handle handle hh
      rw [if_pos (And.intro rfl rfl)] at hplace
      have hi := mem_drop_log h.log (u := (t.allocated.inserted .opened handle.connId
        handle.phpStreamCallbacks id (.ofPair t.nextPair)).withObject new) rfl
      exact .inr ⟨_, hi, rfl, hhandle.connId.trans hhandle.phpStreamCallbacks.symm, rfl, hplace⟩
    · exact h.grown hlog hmap (hplace.trans (if_neg hat))
  | _ => exact h.noted hlog fun _ _ _ ↦ rfl

private theorem stable_others (c : ConnId) (s : QuicheServerSocketImpl) :
    Stable (fun _ _ ↦ True) (fun map _ ↦ map = c) fun t ↦ OthersKept c s t ∧ t.Owned := by
  have howned := stable_owned (A := fun _ _ ↦ True) (K := fun map _ ↦ map = c)
    fun _ _ _ _ hA ↦ hA
  refine ⟨fun _ _ _ _ hA ↦ hA, ?_, ?_, ?_, ?_, ?_, ?_, ?_⟩
  · intro t invocation held _ hs
    refine callback_of_effect (fun _ _ hu he ↦ ⟨hu.1.effect hu.2 he, he.owned hu.2⟩)
      ⟨?_, owned_entered hs.2 held invocation⟩
    exact hs.1.noted (List.prefix_append _ _) fun _ _ _ ↦ rfl
  · exact fun slot b hA hs ↦ ⟨hs.1.noted (List.prefix_append _ _) fun _ _ _ ↦ rfl,
      howned.fireOnClose slot b hA hs.2⟩
  · exact fun slot hs ↦ ⟨hs.1.noted (List.prefix_append _ _) fun _ _ _ ↦ rfl,
      howned.firedOnClose slot hs.2⟩
  · intro t c' st id o hc ho hA hK hs
    refine ⟨hs.1.noted (List.prefix_append _ _) fun map id' hmap ↦ ?_,
      howned.announced hc ho hA hK hs.2⟩
    exact (getElem?_inserted (s := t.allocated) .announced c' _ map id id' _).trans
      (if_neg fun hat ↦ hmap (hat.1.trans hK))
  · intro t map id hK hs
    refine ⟨hs.1.noted (List.prefix_refl _) fun map' id' hmap ↦ ?_, howned.removed hK hs.2⟩
    exact (getElem?_removed map map' id id').trans (if_neg fun hat ↦ hmap (hat.1.trans hK))
  · intro t map hK hs
    refine ⟨hs.1.noted (List.prefix_refl _) fun map' id' hmap ↦ ?_, howned.emptied hK hs.2⟩
    exact (getElem?_emptied map map' id').trans (if_neg fun hat ↦ hmap (hat.trans (hK 0)))
  · exact fun m hs ↦ ⟨⟨hs.1.log, hs.1.maps⟩, howned.hung m hs.2⟩

/-- An event leaves the maps of other connections to PHP. -/
theorem othersKept_driverEvent (hown : s.Owned) {c : ConnId} {ev : DriverEvent}
    {tape : List Script} (ht : s.step (.driverEvent c ev tape) = some t) : OthersKept c s t := by
  exact ((stable_others c s).step_driverEvent ht
    ⟨⟨List.prefix_refl _, fun _ _ _ ↦ .inl rfl⟩, hown.retape tape⟩
    (fun st hc ↦ (hown.conns c st hc).phpStreamCallbacks) (fun _ _ _ _ _ _ _ ↦ trivial)
    (fun _ _ _ _ _ ↦ trivial) fun _ _ _ _ _ _ _ _ ↦ trivial).1

/-- A close message leaves the maps of other connections to PHP. -/
theorem othersKept_connClosed (hown : s.Owned) {c : ConnId} {b : Bool} {order : List StreamId}
    {tape : List Script} (ht : s.step (.connClosed c b order tape) = some t) :
    OthersKept c s t := by
  exact ((stable_others c s).step_connClosed ht
    (fun _ ↦ ⟨⟨List.prefix_refl _, fun _ _ _ ↦ .inl rfl⟩, hown.retape tape⟩)
    ⟨⟨List.prefix_refl _, fun _ _ _ ↦ .inl rfl⟩, (lasting_owned.forgotten s c hown).retape tape⟩
    (fun st hc _ ↦ (hown.conns c st hc).phpStreamCallbacks) fun _ _ _ _ _ ↦ trivial).1

/-- The call sends on a write channel. -/
def PhpCall.sends : PhpCall → Bool
  | .write _ _ _ => true
  | .close _ => true
  | .setOnData _ _ => false
  | .setOnClose _ _ => false
  | .openBidiStream _ _ => false
  | .openUniStream _ _ => false

/-- Only the channel and the `Notify` of the connection have changed. -/
def Reaches (c : ConnId) (s t : QuicheServerSocketImpl) : Prop :=
  ∀ ref, ref ≠ c → t.writes ref = s.writes ref ∧ t.permits ref = s.permits ref

private theorem reaches_of_send {held : List MutexRef} {c : ConnId} {m : Outbound}
    (hm : m.writeTx = c ∧ m.writeNotify = c) (call : Submission) :
    Spec held (· = s) (do account call (← send m)) (fun _ t ↦ Reaches c s t)
      fun _ t ↦ Reaches c s t := by
  refine .bind (Q := fun _ t ↦ Reaches c s t) (.getData_bind ?_) fun result ↦ ?_
  case refine_2 =>
    unfold account
    split
    · exact .modifyData fun _ h ↦ h
    · exact .pure fun _ h ↦ h
  rintro t rfl
  split
  · refine .bind (Q := fun _ u ↦ Reaches c t u) (.modifyData ?_) fun _ ↦ .pure fun _ h ↦ h
    rintro u rfl ref href
    obtain ⟨htx, hnotify⟩ := hm
    exact ⟨Function.update_of_ne (htx ▸ href) .., Function.update_of_ne (hnotify ▸ href) ..⟩
  · refine .pure ?_
    rintro u rfl
    exact fun _ _ ↦ ⟨rfl, rfl⟩

private theorem reaches_runCall {held : List MutexRef} {call : PhpCall}
    (hsends : call.sends = true) {o : StreamObject} (ho : s.objects[call.obj]? = some o)
    (hown : OwnObject o) :
    Spec held (· = s) (runCall call) (fun _ t ↦ Reaches o.connId s t)
      fun _ t ↦ Reaches o.connId s t := by
  have hskip : Spec held (· = s) (pure ⟨⟩ : PhpM PUnit) (fun _ t ↦ Reaches o.connId s t)
      fun _ t ↦ Reaches o.connId s t := by
    refine .pure ?_
    rintro u rfl
    exact fun _ _ ↦ ⟨rfl, rfl⟩
  refine .getData_bind ?_
  rintro u rfl
  simp only [ho, onMethod]
  cases call with
  | write obj data fin =>
    simp only [callOn, onMethod]
    split
    · next m hm => exact reaches_of_send (hown.outbound m (.inl ⟨data, fin, hm⟩)) _
    · exact hskip
  | close obj =>
    simp only [callOn, onMethod]
    split
    · next m hm => exact reaches_of_send (hown.outbound m (.inr hm)) _
    · exact hskip
  | _ => cases hsends

/-- A write on a stream object reaches the channel of the object's connection only. -/
theorem reaches_call (hown : s.Owned) {call : PhpCall} (hsends : call.sends = true)
    {o : StreamObject} (ho : s.objects[call.obj]? = some o) (ht : s.step (.call call) = some t) :
    Reaches o.connId s t := by
  have hspec : Spec [] (· = { s with tape := [] }) (runCall call)
      (fun _ ↦ Reaches o.connId { s with tape := [] }) fun _ ↦ Reaches o.connId { s with tape := [] } :=
    reaches_runCall hsends ho (hown.objects o (List.mem_of_getElem? ho))
  obtain ⟨-, u, ⟨rfl, hu⟩ | ⟨m, rfl, hu⟩⟩ := handle_spec hspec ht
  · exact hu
  · exact hu

end

end ExtQuiche.Server
