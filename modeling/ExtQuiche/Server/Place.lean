import ExtQuiche.Server.Frame
import ExtQuiche.Server.Handlers

/-!
# One place of the slot maps

Library `Server`. A stream has one place in the map of its connection. What depends on that
place only, besides the slots and the log, survives every step of the server but an event on
the stream, as long as the connection has a record and PHP opens nothing in that place.
-/

namespace ExtQuiche.Server
open ExtQuiche.Base ExtQuiche.Base.Locking ExtQuiche.Conn ExtQuiche.Stream
open QuicheServerSocketImpl

/-- PHP does not open a stream of the connection under the id. -/
def Obs.Spares (c : ConnId) (id : StreamId) : Obs → Prop
  | .inserted i => ¬ (i.origin = .opened ∧ i.connId = c ∧ i.streamId = id)
  | _ => True

instance (c : ConnId) (id : StreamId) : ∀ e, Decidable (Obs.Spares c id e)
  | .inserted _ => inferInstanceAs (Decidable (¬ _))
  | .invoked _ | .fireOnClose _ _ | .firedOnClose _ => .isTrue trivial

/-- No stream was opened by PHP in that place. -/
def QuicheServerSocketImpl.Reserved (s : QuicheServerSocketImpl) (c : ConnId) (id : StreamId) :
    Prop :=
  ∀ i : Insertion, .inserted i ∈ s.log → i.origin = .opened → ¬ (i.map = c ∧ i.streamId = id)

/-- `I` depends on the place of a stream, the slots and the log only: it survives what leaves
these alone, entries that register nothing, registrations in other places and calls of PHP
that open nothing there. -/
structure Local (c : ConnId) (id : StreamId) (I : QuicheServerSocketImpl → Prop) : Prop where
  moved : ∀ {s t}, I s → (t.maps c)[id]? = (s.maps c)[id]? → t.slots = s.slots →
    t.nextPair = s.nextPair → t.log = s.log → I t
  noted : ∀ {s e}, e.issues = none → I s → I (s.noted e)
  registered : ∀ {s c' map id' o}, ¬ (map = c ∧ id' = id) → I s →
    I ((s.allocated.inserted .announced c' map id' (.ofPair s.nextPair)).withObject o)
  effect : ∀ {s t}, Effect s t → t.Reserved c id → I s → I t

section

variable {s t : QuicheServerSocketImpl} {c : ConnId} {id : StreamId}
  {I : QuicheServerSocketImpl → Prop}

/-- What is reserved was reserved all along. -/
theorem reserved_of_log (h : s.log <+: t.log) (ht : t.Reserved c id) :
    s.Reserved c id := fun i hi ↦ ht i (h.subset hi)

/-- Opening a stream of the connection is the only way for PHP into its place. -/
theorem reserved_of_spares (hr : s.Registry) (h : ∀ e ∈ s.log, e.Spares c id) :
    s.Reserved c id := by
  rintro i hi horigin ⟨hmap, hid⟩
  exact h _ hi ⟨horigin, (hr.issued i hi).1.symm.trans hmap, hid⟩

/-- Handlers that do not touch the place keep what is local to it. -/
theorem Local.stable (h : Local c id I) :
    Stable (fun _ _ ↦ True) (fun map id' ↦ ¬ (map = c ∧ id' = id))
      fun s ↦ s.Reserved c id → I s where
  grows _ _ _ _ hA := hA
  callback {s invocation} held _ hs := by
    refine callback_of_effect (fun _ _ hs he ht ↦
      h.effect he ht (hs (reserved_of_log he.log ht))) fun ht ↦ ?_
    have hnoted := h.noted (e := .invoked ⟨invocation, held, s.objects, s.nextScript⟩) rfl
      (hs (reserved_of_log (List.prefix_append _ _) ht))
    exact h.moved hnoted rfl rfl rfl rfl
  fireOnClose _ _ _ hs ht := h.noted rfl (hs (reserved_of_log (List.prefix_append _ _) ht))
  firedOnClose _ hs ht := h.noted rfl (hs (reserved_of_log (List.prefix_append _ _) ht))
  announced _ _ _ hK hs ht := h.registered hK (hs (reserved_of_log (List.prefix_append _ _) ht))
  removed hK hs ht := by
    refine h.moved (hs ht) ?_ rfl rfl rfl
    rw [getElem?_removed, if_neg fun heq ↦ hK ⟨heq.1.symm, heq.2.symm⟩]
  emptied hK hs ht := by
    refine h.moved (hs ht) ?_ rfl rfl rfl
    rw [getElem?_emptied, if_neg fun heq ↦ hK id ⟨heq.symm, rfl⟩]
  hung _ hs ht := h.moved (hs ht) rfl rfl rfl rfl

private theorem unrecorded_stable {A : List Obs → Invocation → Prop} {K : MapRef → StreamId → Prop}
    (hgrows : ∀ log log' invocation, log <+: log' → A log invocation → A log' invocation)
    (c : ConnId) : Stable A K fun s ↦ s.connections[c]? = none where
  grows := hgrows
  callback _ _ hs := callback_of_effect (fun _ _ hs he ↦ he.connections ▸ hs) hs
  fireOnClose _ _ _ hs := hs
  firedOnClose _ hs := hs
  announced _ _ _ _ hs := hs
  removed _ hs := hs
  emptied _ hs := hs
  hung _ hs := hs

/-- A property that matters only while the connection has a record. -/
private theorem Stable.whenRecorded {A : List Obs → Invocation → Prop}
    {K : MapRef → StreamId → Prop} (h : Stable A K I) (c : ConnId) :
    Stable A K fun s ↦ s.connections[c]? ≠ none → I s where
  grows := h.grows
  callback {s invocation} held hA hs := by
    by_cases hc : s.connections[c]? = none
    · exact ((unrecorded_stable (K := K) h.grows c).callback held hA hc).weaken (fun _ hu ↦ hu)
        (fun _ _ hu hno ↦ absurd hu hno) fun _ _ hu hno ↦ absurd hu hno
    · exact (h.callback held hA (hs hc)).weaken (fun _ hu ↦ hu) (fun _ _ hu _ ↦ hu)
        fun _ _ hu _ ↦ hu
  fireOnClose slot b hA hs hc := h.fireOnClose slot b hA (hs hc)
  firedOnClose slot hs hc := h.firedOnClose slot (hs hc)
  announced hc' ho hA hK hs hc := h.announced hc' ho hA hK (hs hc)
  removed hK hs hc := h.removed hK (hs hc)
  emptied hK hs hc := h.emptied hK (hs hc)
  hung m hs hc := h.hung m (hs hc)

private theorem recorded_of_serves (hfree : s.Free) (hacc : t.accepting = s.accepting)
    (h : t.Serves c) : t.connections[c]? ≠ none := by
  rcases h with ⟨st, hst⟩ | ⟨st, hst⟩
  · simp [hst]
  · rw [hacc, hfree.2] at hst
    cases hst

private theorem forgotten_recorded {c' : ConnId} (hc : (s.forgotten c').connections[c]? ≠ none) :
    s.connections[c]? ≠ none := by
  obtain ⟨st, hst⟩ := Option.ne_none_iff_exists'.mp hc
  rw [getElem?_of_forgotten hst]
  exact Option.some_ne_none st

private theorem Local.step_close (h : Local c id I) (hr : s.Registry) {conns : List ConnId}
    {orders : ConnId → List StreamId} {tape : List Script}
    (ht : s.step (.close conns orders tape) = some t) (hs : t.Serves c) (hres : t.Reserved c id)
    (hI : I s) : I t := by
  obtain ⟨hfree, hacc, -⟩ := records_close ht
  have hstable := h.stable.whenRecorded c
  have hstart : I { s with tape } := h.moved hI rfl rfl rfl rfl
  refine hstable.handle (close_spec (fun _ _ ↦ hstart) (fun c' st hc ↦ ?_) fun u hu hc hu' ↦
    h.moved (hu hc hu') rfl rfl rfl rfl) ht (recorded_of_serves hfree hacc hs) hres
  rcases eq_or_ne c' c with rfl | hne
  · -- the round of the connection itself: its record is gone before its map is drained
    have hnone := unrecorded_stable (K := fun _ _ ↦ True) (A := fun _ _ ↦ True)
      (fun _ _ _ _ hA ↦ hA) c'
    refine .bind (Q := fun _ u ↦ u.connections[c']? = none) (.modifyData fun u _ ↦ ?_) fun _ ↦
      (hnone.fireAll (fun _ ↦ trivial) _).weaken (fun _ hu ↦ ⟨hu, fun _ _ _ ↦ trivial⟩)
        (fun _ _ hu hno ↦ absurd hu hno) fun _ _ hu hno ↦ absurd hu hno
    exact Std.ExtTreeMap.getElem?_erase_self
  · refine .bind (.modifyData fun u hu hno hu' ↦ ?_) fun _ ↦
      (hstable.fireAll (fun id' heq ↦ hne ?_) _).pre fun _ hu ↦ ⟨hu, fun _ _ _ ↦ trivial⟩
    · exact h.moved (hu (forgotten_recorded hno) hu') rfl rfl rfl rfl
    · exact (hr.map_eq hc).symm.trans heq.1

/-- What is local to the place of a stream survives every step but an event on the stream. -/
theorem Local.step (h : Local c id I) (hr : s.Registry) {l : Label} (ht : s.step l = some t)
    (hother : ∀ c' ev tape, l = .driverEvent c' ev tape → s.connections[c']? ≠ none →
      ¬ (c' = c ∧ ev.streamId = id)) (hs : t.Serves c) (hres : t.Reserved c id) (hI : I s) :
    I t := by
  have hretape : ∀ tape, I { s with tape } := fun _ ↦ h.moved hI rfl rfl rfl rfl
  cases l with
  | newConn peerAddr =>
    simp only [QuicheServerSocketImpl.step] at ht
    split at ht <;> cases ht
    refine h.moved hI ?_ rfl rfl rfl
    rcases eq_or_ne c s.nextRef with rfl | hne
    · cases hplace : (s.maps s.nextRef)[id]? with
      | none => simp [newConn]
      | some slots => exact absurd (hr.entries _ id _ hplace).1 (hr.refs ▸ Nat.lt_irrefl _)
    · simp [newConn, hne]
  | insertConn =>
    obtain ⟨⟨c', st⟩, -, rfl⟩ := Option.map_eq_some_iff.mp ht
    exact h.moved hI rfl rfl rfl rfl
  | driverEvent c' ev tape =>
    refine h.stable.step_driverEvent ht (fun _ ↦ hretape tape) (fun st hc heq ↦ ?_)
      (fun _ _ _ _ _ _ _ ↦ trivial) (fun _ _ _ _ _ ↦ trivial) (fun _ _ _ _ _ _ _ _ ↦ trivial) hres
    rw [hr.map_eq hc] at heq
    exact hother c' ev tape rfl (by simp [hc]) heq
  | connClosed c' b order tape =>
    have hne : c ≠ c' := (((serves_step ht).2 c).mp hs).2
    refine h.stable.step_connClosed ht (fun _ _ ↦ hretape tape)
      (fun _ ↦ h.moved hI rfl rfl rfl rfl) (fun st hc id' heq ↦ ?_) (fun _ _ _ _ _ ↦ trivial) hres
    rw [hr.map_eq hc] at heq
    exact hne heq.1.symm
  | close conns orders tape => exact h.step_close hr ht hs hres hI
  | call call =>
    exact h.stable.step_call ht (fun _ _ hu he hu' ↦
      h.effect he hu' (hu (reserved_of_log he.log hu'))) (fun _ ↦ hretape []) hres
  | driverWrites ref tx =>
    cases ht
    exact h.moved hI rfl rfl rfl rfl

end

end ExtQuiche.Server
