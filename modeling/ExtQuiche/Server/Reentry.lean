import ExtQuiche.Server.Accounts

/-!
# Calls that lock a mutex twice

Library `Server`. A callback runs while its own slot is locked, and during a drain while
the slot map is locked as well. `Offends` lists the calls that go for one of these again:
`setOnData` from the `on_data` callback of the same stream, `setOnClose` from its
`on_close` callback, and opening a stream from an `on_close` callback while the map of
that connection is drained. A script hangs exactly where it contains one.
-/

namespace ExtQuiche.Server
open ExtQuiche.Base ExtQuiche.Base.Locking ExtQuiche.Conn ExtQuiche.Stream
open QuicheServerSocketImpl

/-- A call on `o` that a callback must not make while `held` is locked around it. -/
def Offends (invocation : Invocation) (held : List MutexRef) (o : StreamObject) (call : PhpCall) :
    Prop :=
  match invocation, call with
  | .onData slot _ _ _ _, .setOnData _ callback =>
    callback.isCallable = true ∧ o.onData? = some slot
  | .onClose slot _, .setOnClose _ callback => callback.isCallable = true ∧ o.onClose = slot
  | .onClose _ _, .openBidiStream _ _ =>
    ∃ handle ∈ o.connHandle?, .slotsMap handle.phpStreamCallbacks ∈ held
  | .onClose _ _, .openUniStream _ _ =>
    ∃ handle ∈ o.connHandle?, .slotsMap handle.phpStreamCallbacks ∈ held
  | _, _ => False

/-- No call of the script offends. -/
def CallbackRun.Respects (r : CallbackRun) : Prop :=
  ∀ call ∈ r.script.calls, ∀ o ∈ r.objects[call.obj]?, ¬ Offends r.invocation r.held o call

/-- No callback so far has made an offending call. -/
def Respectful (log : List Obs) : Prop := ∀ r : CallbackRun, .invoked r ∈ log → r.Respects

/-- The mutexes around a callback: its own slot, and for an `on_close` at most slot maps. -/
inductive HeldAround (nextPair : Nat) : Invocation → List MutexRef → Prop where
  | stream (connId : ConnId) (id : StreamId) (obj : Nat) :
      HeldAround nextPair (.stream connId id obj) [.streamCallback]
  | onData (slot : SlotRef) (hside : slot.side = .data) (hlt : slot.pair < nextPair)
      (connId : ConnId) (id : StreamId) (data : Bytes) (fin : Bool) :
      HeldAround nextPair (.onData slot connId id data fin) [.slot slot]
  | onClose (slot : SlotRef) (hside : slot.side = .close) (hlt : slot.pair < nextPair)
      (peerClosed : Bool) (held : List MutexRef) (hmaps : ∀ m ∈ held, ∃ r, m = .slotsMap r) :
      HeldAround nextPair (.onClose slot peerClosed) (.slot slot :: held)

/-- The objects have grown by streams that PHP opened on new pairs. -/
structure Grown (objects : List StreamObject) (nextPair : Nat) (t : QuicheServerSocketImpl) :
    Prop where
  objects : ∃ new, t.objects = objects ++ new ∧ ∀ o ∈ new, o.connHandle? = none ∧
    nextPair ≤ o.onClose.pair ∧ ∀ slot ∈ o.onData?, nextPair ≤ slot.pair
  nextPair : nextPair ≤ t.nextPair

section

variable {objects : List StreamObject} {nextPair idCounter : Nat}
  {accepting : Option (ConnId × ConnState)} {invocation : Invocation} {held : List MutexRef}

private theorem Grown.effect {t u : QuicheServerSocketImpl} (h : Grown objects nextPair t)
    (he : Effect t u) : Grown objects nextPair u := by
  cases he with
  | none => exact h
  | installed o ho slot hslot callback hcb => exact ⟨h.objects, h.nextPair⟩
  | sent o ho data fin m hm tx htx => exact ⟨h.objects, h.nextPair⟩
  | allocated => exact ⟨h.objects, h.nextPair.trans (Nat.le_succ _)⟩
  | opened o ho handle hh streamId new hnew =>
    obtain ⟨opened, heq, hopened⟩ := h.objects
    refine ⟨⟨opened ++ [new], ?_, ?_⟩, h.nextPair.trans (Nat.le_succ _)⟩
    · simp only [QuicheServerSocketImpl.withObject, QuicheServerSocketImpl.inserted,
        QuicheServerSocketImpl.allocated, heq, List.append_assoc]
    · intro o ho
      rcases List.mem_append.mp ho with ho | ho
      · exact hopened o ho
      · rw [List.mem_singleton.mp ho]
        have hle := h.nextPair
        cases hnew <;> simp [StreamObject.connHandle?, StreamObject.onClose,
          StreamObject.onData?, hle]

private theorem Grown.getElem?_of_old {t : QuicheServerSocketImpl} (h : Grown objects nextPair t)
    {i : Nat} {o : StreamObject} (ho : objects[i]? = some o) : t.objects[i]? = some o := by
  obtain ⟨new, heq, -⟩ := h.objects
  obtain ⟨hlt, -⟩ := List.getElem?_eq_some_iff.mp ho
  rw [heq, List.getElem?_append_left hlt, ho]

private theorem Grown.getElem? {t : QuicheServerSocketImpl} (h : Grown objects nextPair t)
    {i : Nat} {o : StreamObject} (ho : t.objects[i]? = some o) :
    objects[i]? = some o ∨ (o.connHandle? = none ∧ nextPair ≤ o.onClose.pair ∧
      ∀ slot ∈ o.onData?, nextPair ≤ slot.pair) := by
  obtain ⟨new, heq, hnew⟩ := h.objects
  rw [heq] at ho
  rcases lt_or_ge i objects.length with hlt | hge
  · rw [List.getElem?_append_left hlt] at ho
    exact .inl ho
  · rw [List.getElem?_append_right hge] at ho
    exact .inr (hnew o (List.mem_of_getElem? ho))

private theorem slot_not_mem {held : List MutexRef} (hmaps : ∀ m ∈ held, ∃ r, m = .slotsMap r)
    (slot : SlotRef) : .slot slot ∉ held := by
  intro hmem
  obtain ⟨r, hr⟩ := hmaps _ hmem
  cases hr

/-- On an object that existed before, the offending calls are those that lock a mutex
held around the callback. -/
private theorem offends_iff (hheld : HeldAround nextPair invocation held) {o : StreamObject}
    (ho : Known nextPair idCounter accepting o) (call : PhpCall) :
    Offends invocation held o call ↔ ∃ m ∈ call.locks o, m ∈ held := by
  cases hheld with
  | stream connId id obj => cases call <;> simp [Offends, PhpCall.locks]
  | onData slot hside hlt connId id data fin =>
    have hclose : o.onClose ≠ slot := by
      rintro rfl
      rw [ho.onClose.1] at hside
      cases hside
    cases call <;> simp [Offends, PhpCall.locks, hclose]
  | onClose slot hside hlt peerClosed held hmaps =>
    have hdata : o.onData? ≠ some slot := by
      intro heq
      rw [(ho.onData slot heq).1] at hside
      cases hside
    have hslot := slot_not_mem hmaps
    cases call <;> simp [Offends, PhpCall.locks, hdata, hslot]

/-- On an object made in between, no call locks such a mutex. -/
private theorem not_locks_of_new (hheld : HeldAround nextPair invocation held) {o : StreamObject}
    (ho : o.connHandle? = none ∧ nextPair ≤ o.onClose.pair ∧
      ∀ slot ∈ o.onData?, nextPair ≤ slot.pair) (call : PhpCall) :
    ∀ m ∈ call.locks o, m ∉ held := by
  obtain ⟨hhandle, hclose, hdata⟩ := ho
  -- a new slot has another pair than every slot held
  have hfresh : ∀ slot : SlotRef, nextPair ≤ slot.pair → .slot slot ∉ held := by
    intro slot hle hmem
    cases hheld with
    | stream connId id obj => simp at hmem
    | onData slot' hside hlt connId id data fin =>
      simp only [List.mem_singleton, MutexRef.slot.injEq] at hmem
      subst hmem
      omega
    | onClose slot' hside hlt peerClosed held hmaps =>
      rcases List.mem_cons.mp hmem with heq | hmem
      · cases heq
        omega
      · exact slot_not_mem hmaps slot hmem
  intro m hm
  cases call with
  | setOnData obj callback =>
    simp only [PhpCall.locks] at hm
    split at hm
    · obtain ⟨slot, hslot, rfl⟩ := Option.map_eq_some_iff.mp hm
      exact hfresh slot (hdata slot hslot)
    · cases hm
  | setOnClose obj callback =>
    simp only [PhpCall.locks] at hm
    split at hm
    · cases hm
      exact hfresh _ hclose
    · cases hm
  | write obj data fin => cases hm
  | close obj => cases hm
  | openBidiStream obj id =>
    rw [PhpCall.locks, hhandle] at hm
    cases hm
  | openUniStream obj id =>
    rw [PhpCall.locks, hhandle] at hm
    cases hm

/-- The calls of a script, made from objects that existed before and streams opened in
between, hang exactly where one of them offends. -/
theorem calls_respect (hheld : HeldAround nextPair invocation held)
    (hknown : ∀ o ∈ objects, Known nextPair idCounter accepting o) (calls : List PhpCall) :
    Spec held (Grown objects nextPair) (calls.forM runCall)
      (fun _ _ ↦ ∀ call ∈ calls, ∀ o ∈ objects[call.obj]?, ¬ Offends invocation held o call)
      (fun _ _ ↦ ∃ call ∈ calls, ∃ o ∈ objects[call.obj]?, Offends invocation held o call) := by
  induction calls with
  | nil => exact .pure fun _ _ ↦ by simp
  | cons call calls ih =>
    refine .bind (Q := fun _ t ↦ Grown objects nextPair t ∧
      ∀ o ∈ objects[call.obj]?, ¬ Offends invocation held o call) ?_ fun _ ↦ .of_forall ?_
    · refine .of_forall fun t ht ↦ (runCall_spec call).weaken (fun _ h ↦ h) ?_ ?_
      · rintro - u ⟨heffect, hfree⟩
        refine ⟨ht.effect heffect, fun o ho hoff ↦ ?_⟩
        obtain ⟨m, hm, hmem⟩ := (offends_iff hheld (hknown o (List.mem_of_getElem? ho)) call).mp hoff
        exact hfree m (Option.mem_bind_iff.mpr ⟨o, ht.getElem?_of_old ho, hm⟩) hmem
      · rintro m u ⟨-, hlocks, hmem⟩
        obtain ⟨o, ho, hm⟩ := Option.mem_bind_iff.mp hlocks
        rcases ht.getElem? ho with ho | hnew
        · exact ⟨call, List.mem_cons_self .., o, ho,
            (offends_iff hheld (hknown o (List.mem_of_getElem? ho)) call).mpr ⟨m, hm, hmem⟩⟩
        · exact absurd hmem (not_locks_of_new hheld hnew call m hm)
    · rintro t ⟨ht, hcall⟩
      refine ih.weaken (fun _ h ↦ h ▸ ht) ?_ ?_
      · rintro - u hcalls call' hc
        rcases List.mem_cons.mp hc with rfl | hc
        · exact hcall
        · exact hcalls call' hc
      · rintro m u ⟨call', hc, hoff⟩
        exact ⟨call', List.mem_cons_of_mem _ hc, hoff⟩

end

end ExtQuiche.Server
