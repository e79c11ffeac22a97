import ExtQuiche.Server.Closing
import ExtQuiche.Server.Isolation

/-!
# The streams that `close` fires

Library `Server`. `close` of `src/quiche/socket.rs:107–129` fires what it finds in the map of
a record: a stream that was there before, or one that a callback has opened since on an
object of that connection.
-/

namespace ExtQuiche.Server
open ExtQuiche.Base ExtQuiche.Base.Locking ExtQuiche.Conn ExtQuiche.Stream
open QuicheServerSocketImpl

/-- Stream id under which the call opens a stream. -/
def PhpCall.opened? : PhpCall → Option StreamId
  | .openBidiStream _ streamId => some streamId
  | .openUniStream _ streamId => some streamId
  | .setOnData _ _ => none
  | .setOnClose _ _ => none
  | .write _ _ _ => none
  | .close _ => none

namespace QuicheServerSocketImpl

/-- Connection and stream id that the call opens on an object that exists. -/
def opened? (s : QuicheServerSocketImpl) (call : PhpCall) : Option (ConnId × StreamId) :=
  (s.objects[call.obj]?.bind (·.connHandle?)).bind fun handle ↦
    call.opened?.map fun id ↦ (handle.connId, id)

/-- What the calls of the scripts open on objects that exist. -/
def openedOn (s : QuicheServerSocketImpl) (tape : List Script) : List (ConnId × StreamId) :=
  tape.flatMap fun script ↦ script.calls.filterMap s.opened?

end QuicheServerSocketImpl

section

variable {held : List MutexRef} {s t : QuicheServerSocketImpl}

/-- Places that were free are free, but the one the call opens. -/
private def Touches (s : QuicheServerSocketImpl) (call : PhpCall) (t : QuicheServerSocketImpl) : Prop :=
  ∀ (c : ConnId) (id : StreamId), (t.maps c)[id]? ≠ none → (s.maps c)[id]? ≠ none ∨
    s.opened? call = some (c, id)

private theorem opens_eq_false {call : PhpCall} (h : call.opened? = none) : call.opens = false := by
  cases call <;> first | rfl | cases h

private theorem touches_of_quiet {call : PhpCall} (h : call.opened? = none) :
    Spec held (· = s) (runCall call) (fun _ t ↦ Touches s call t) fun _ t ↦ Touches s call t := by
  have hmaps : ∀ t, Effect s t → t.log = s.log → Touches s call t := by
    intro t he hlog
    cases he with
    | opened o ho handle hh streamId new hnew => simp [withObject, inserted, allocated] at hlog
    | _ => exact fun c id hne ↦ .inl hne
  have hlog : Spec held (·.log = s.log) (runCall call) (fun _ t ↦ t.log = s.log)
      fun _ t ↦ t.log = s.log := runCall_log (opens_eq_false h)
  apply (Spec.and (runCall_spec (s := s) call) hlog).weaken
  · rintro t rfl
    exact ⟨rfl, rfl⟩
  · exact fun _ t ht ↦ hmaps t ht.1.1 ht.2
  · exact fun _ t ht ↦ hmaps t ht.1.1 ht.2

private theorem touches_of_open {call : PhpCall} {handle : ConnOpenHandle} {id : StreamId}
    (hplace : s.opened? call = some (handle.connId, id))
    (hown : handle.phpStreamCallbacks = handle.connId) (new : StreamSlots → StreamObject) :
    Spec held (· = s) (do
        let slots ← makeSlotPair
        insertSlots .opened handle.connId handle.phpStreamCallbacks id slots
        modifyData (·.withObject (new slots)))
      (fun _ t ↦ Touches s call t) fun _ t ↦ Touches s call t := by
  refine .bind makeSlotPair_spec fun slots ↦ .of_forall ?_
  rintro t ⟨rfl, rfl⟩
  refine .bind ((insertSlots_spec _ _ _ _ _).weaken (fun _ h ↦ h) (fun _ _ h ↦ h.2) ?_) fun _ ↦
    .modifyData ?_
  · rintro m t ⟨-, -, rfl⟩ c id' hne
    exact .inl hne
  · rintro t rfl c id' hne
    have hget := getElem?_inserted (s := s.allocated) .opened handle.connId
      handle.phpStreamCallbacks c id id' (.ofPair s.nextPair)
    by_cases hat : c = handle.phpStreamCallbacks ∧ id' = id
    · obtain ⟨rfl, rfl⟩ := hat
      exact .inr (hown ▸ hplace)
    · rw [if_neg hat] at hget
      exact .inl fun hno ↦ hne (hget.trans hno)

private theorem touches_runCall (hown : s.Owned) (call : PhpCall) :
    Spec held (· = s) (runCall call) (fun _ t ↦ Touches s call t) fun _ t ↦ Touches s call t := by
  cases hcall : call.opened? with
  | none => exact touches_of_quiet hcall
  | some id =>
    have hskip : Spec held (· = s) (pure ⟨⟩ : PhpM PUnit) (fun _ t ↦ Touches s call t)
        fun _ t ↦ Touches s call t := by
      refine .pure ?_
      rintro u rfl
      exact fun c id hne ↦ .inl hne
    refine .getData_bind ?_
    rintro u rfl
    cases ho : u.objects[call.obj]? with
    | none => exact hskip
    | some o =>
      cases hh : o.connHandle? with
      | none =>
        cases call <;> simp only [PhpCall.opened?, reduceCtorEq] at hcall <;>
          simpa only [onMethod, callOn, hh] using hskip
      | some handle =>
        have hplace : u.opened? call = some (handle.connId, id) := by
          simp [opened?, ho, hh, hcall]
        have hhandle := (hown.objects o (List.mem_of_getElem? ho)).handle handle hh
        have hmap := hhandle.phpStreamCallbacks.trans hhandle.connId.symm
        cases call with
        | openBidiStream obj streamId =>
          cases hcall
          simp only [onMethod, callOn, hh, openBidiStream_eq]
          exact touches_of_open hplace hmap _
        | openUniStream obj streamId =>
          cases hcall
          simp only [onMethod, callOn, hh, openUniStream_eq]
          exact touches_of_open hplace hmap _
        | _ => cases hcall

/-- On the way through `close` from `s`: the scripts to come are from the tape, objects that
open streams are those of `s`, and a stream in a map was there or has been opened since. -/
private structure Sweeping (s : QuicheServerSocketImpl) (tape : List Script)
    (t : QuicheServerSocketImpl) : Prop where
  owned : t.Owned
  scripts : t.tape <:+ tape
  objects : ∀ (k : Nat) (o : StreamObject), t.objects[k]? = some o →
    s.objects[k]? = some o ∨ o.connHandle? = none
  places : ∀ (c : ConnId) (id : StreamId), (t.maps c)[id]? ≠ none → (s.maps c)[id]? ≠ none ∨
    (c, id) ∈ s.openedOn tape

variable {tape : List Script} {u : QuicheServerSocketImpl}

private theorem connHandle?_of_opens {handle : ConnOpenHandle} {id : StreamId} {n : Nat}
    {o : StreamObject} (h : OpensAs handle id n o) : o.connHandle? = none := by
  cases h <;> rfl

private theorem Sweeping.effect_objects (h : Sweeping s tape t) (he : Effect t u) (k : Nat)
    (o : StreamObject) (ho : u.objects[k]? = some o) :
    s.objects[k]? = some o ∨ o.connHandle? = none := by
  cases he with
  | opened o' ho' handle hh streamId new hnew =>
    have hget : (t.objects ++ [new])[k]? = some o := ho
    rw [List.getElem?_append] at hget
    split at hget
    · exact h.objects k o hget
    · obtain rfl := List.mem_singleton.mp (List.mem_of_getElem? hget)
      exact .inr (connHandle?_of_opens hnew)
  | _ => exact h.objects k o ho

private theorem Sweeping.opened (h : Sweeping s tape t) {call : PhpCall} {c : ConnId} {id : StreamId}
    (hcall : t.opened? call = some (c, id)) : s.opened? call = some (c, id) := by
  obtain ⟨handle, hhandle, hid⟩ := Option.bind_eq_some_iff.mp hcall
  obtain ⟨o, ho, hh⟩ := Option.bind_eq_some_iff.mp hhandle
  rcases h.objects _ _ ho with hold | hnone
  · exact Option.bind_eq_some_iff.mpr ⟨handle, Option.bind_eq_some_iff.mpr ⟨o, hold, hh⟩, hid⟩
  · rw [hnone] at hh
    cases hh

private theorem Sweeping.call (h : Sweeping s tape t) {script : Script} (hscript : script ∈ tape)
    {call : PhpCall} (hcall : call ∈ script.calls) (he : Effect t u) (ht : Touches t call u) :
    Sweeping s tape u := by
  have htape : u.tape = t.tape := by cases he <;> rfl
  refine ⟨he.owned h.owned, htape ▸ h.scripts, h.effect_objects he, fun c id hne ↦ ?_⟩
  rcases ht c id hne with hold | hopened
  · exact h.places c id hold
  · exact .inr (List.mem_flatMap.mpr
      ⟨script, hscript, List.mem_filterMap.mpr ⟨call, hcall, h.opened hopened⟩⟩)

/-- The calls of the next script, from the state that enters it. -/
private theorem sweeping_calls (h : Sweeping s tape t) (invocation : Invocation) :
    Spec held (· = t.entered held invocation) (t.nextScript.calls.forM runCall)
      (fun _ ↦ Sweeping s tape) fun _ ↦ Sweeping s tape := by
  have hentered : Sweeping s tape (t.entered held invocation) :=
    ⟨owned_entered h.owned held invocation, (List.tail_suffix _).trans h.scripts, h.objects, h.places⟩
  have hscript : ∀ call ∈ t.nextScript.calls, t.nextScript ∈ tape := by
    intro call hcall
    apply h.scripts.subset
    cases ht : t.tape with
    | nil => simp [nextScript, ht] at hcall
    | cons script rest => simp [nextScript, ht]
  refine (Spec.forM_mem fun call hcall ↦ .of_forall fun u hu ↦ ?_).pre ?_
  · apply (Spec.and (runCall_spec (s := u) call) (touches_runCall hu.owned call)).weaken
    · rintro v rfl
      exact ⟨rfl, rfl⟩
    · exact fun _ v hv ↦ hu.call (hscript call hcall) hcall hv.1.1 hv.2
    · exact fun _ v hv ↦ hu.call (hscript call hcall) hcall hv.1.1 hv.2
  · rintro v rfl
    exact hentered

/-- The `on_close` callbacks of streams among `P`, told `false`. -/
def Sweeps (P : ConnId → StreamId → Prop) (log : List Obs) : Invocation → Prop
  | .stream _ _ _ => False
  | .onData _ _ _ _ _ => False
  | .onClose slot peerClosed => peerClosed = false ∧ ∃ i, .inserted i ∈ log ∧
      i.slots.onClose = slot ∧ P i.connId i.streamId

private theorem sweeps_grows {P : ConnId → StreamId → Prop} (log log' : List Obs)
    (invocation : Invocation) (hlog : log <+: log') (h : Sweeps P log invocation) :
    Sweeps P log' invocation := by
  cases invocation with
  | stream c id obj => exact h
  | onData slot c id data fin => exact h
  | onClose slot b => exact h.imp_right fun ⟨i, hi, hrest⟩ ↦ ⟨i, hlog.subset hi, hrest⟩

private theorem stable_sweeping {P : ConnId → StreamId → Prop} {K : MapRef → StreamId → Prop}
    (s : QuicheServerSocketImpl) (tape : List Script) :
    Stable (Sweeps P) K (Sweeping s tape) := by
  have howned := stable_owned (K := K) (sweeps_grows (P := P))
  refine ⟨sweeps_grows, fun held _ hs ↦ sweeping_calls hs _, ?_, ?_, ?_, ?_, ?_, ?_⟩
  · exact fun slot b hA hs ↦
      ⟨howned.fireOnClose slot b hA hs.owned, hs.scripts, hs.objects, hs.places⟩
  · exact fun slot hs ↦ ⟨howned.firedOnClose slot hs.owned, hs.scripts, hs.objects, hs.places⟩
  · exact fun _ _ hA ↦ absurd (hA [] 0) id
  · intro t map id hK hs
    refine ⟨howned.removed hK hs.owned, hs.scripts, hs.objects, fun c id' hne ↦ ?_⟩
    rw [getElem?_removed] at hne
    split at hne
    · exact absurd rfl hne
    · exact hs.places c id' hne
  · intro t map hK hs
    refine ⟨howned.emptied hK hs.owned, hs.scripts, hs.objects, fun c id' hne ↦ ?_⟩
    rw [getElem?_emptied] at hne
    split at hne
    · exact absurd rfl hne
    · exact hs.places c id' hne
  · exact fun m hs ↦ ⟨howned.hung m hs.owned, hs.scripts, hs.objects, hs.places⟩

/-- `close` fires streams of connections with a record, that were in its map or are opened
by its callbacks. -/
theorem traced_close (hown : s.Owned) (hlisted : s.Listed) {conns : List ConnId}
    {orders : ConnId → List StreamId} (ht : s.step (.close conns orders tape) = some t) :
    Traced (Sweeps fun c id ↦ s.connections[c]? ≠ none ∧ ((s.maps c)[id]? ≠ none ∨
      (c, id) ∈ s.openedOn tape)) s t := by
  have hgrows := sweeps_grows (P := fun c id ↦ s.connections[c]? ≠ none ∧
    ((s.maps c)[id]? ≠ none ∨ (c, id) ∈ s.openedOn tape))
  have hstable := ((stable_traced (K := fun _ _ ↦ True) hgrows s).and (stable_listed hgrows)).and
    (stable_sweeping s tape)
  refine (hstable.handle (close_spec ⟨⟨Traced.of_log rfl, hlisted⟩, hown.retape tape,
    List.suffix_refl _, fun _ _ ↦ .inl, fun _ _ ↦ .inl⟩ (fun c st hc ↦ ?_) ?_) ht).1.1
  · refine .bind (.modifyData fun u hu ↦ ?_) fun _ ↦ (hstable.fireAll (fun _ ↦ trivial) _).pre
      fun u hu ↦ ⟨hu, fun id slots hslots ↦ ?_⟩
    · exact ⟨⟨⟨hu.1.1.log, hu.1.1.invoked, hu.1.1.fired⟩, hu.1.2⟩,
        lasting_owned.forgotten u c hu.2.owned, hu.2.scripts, hu.2.objects, hu.2.places⟩
    · rw [(hown.conns c st hc).phpStreamCallbacks] at hslots
      obtain ⟨i, hi, rfl, rfl, rfl⟩ := registered_of_entry hu.2.owned hu.1.2 hslots
      exact ⟨rfl, i, hi, rfl, by simp [hc], hu.2.places _ _ (by simp [hslots])⟩
  · exact fun u hu ↦ ⟨⟨⟨hu.1.1.log, hu.1.1.invoked, hu.1.1.fired⟩, hu.1.2⟩,
      ⟨hu.2.owned.refs, hu.2.owned.conns, hu.2.owned.accepting, hu.2.owned.objects, hu.2.owned.log⟩,
      hu.2.scripts, hu.2.objects, hu.2.places⟩

end

end ExtQuiche.Server
