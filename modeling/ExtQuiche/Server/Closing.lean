import ExtQuiche.Server.CloseOnce
import ExtQuiche.Server.Frame

/-!
# The close of the server

Library `Server`. `close` of `src/quiche/socket.rs:107–129`: it fires every pair in the
map of a record and leaves neither records nor a listener, and without these no step of
the server invokes a callback.
-/

namespace ExtQuiche.Server
open ExtQuiche.Base ExtQuiche.Base.Locking ExtQuiche.Conn ExtQuiche.Stream
open QuicheServerSocketImpl

/-- The call opens a stream. -/
def PhpCall.opens : PhpCall → Bool
  | .openBidiStream _ _ => true
  | .openUniStream _ _ => true
  | .setOnData _ _ => false
  | .setOnClose _ _ => false
  | .write _ _ _ => false
  | .close _ => false

/-- The callback opens no stream, and an `on_close` callback does not replace itself. -/
structure CallbackRun.Mild (r : CallbackRun) : Prop where
  opens : ∀ call ∈ r.script.calls, call.opens = false
  replaces : ∀ slot b, r.invocation = .onClose slot b → ∀ obj callback,
    .setOnClose obj callback ∈ r.script.calls → ∀ o ∈ r.objects[obj]?, o.onClose = slot →
      callback.isCallable = false

namespace QuicheServerSocketImpl

/-- The slot is the `on_close` slot of a pair in the map of a connection in `connections`. -/
def Holds (s : QuicheServerSocketImpl) (slot : SlotRef) : Prop :=
  ∃ (c : ConnId) (st : ConnState) (id : StreamId) (slots : StreamSlots),
    s.connections[c]? = some st ∧ (s.maps st.phpStreamCallbacks)[id]? = some slots ∧
      slots.onClose = slot

/-- No connection has a record, and none will get one. -/
structure Deaf (s : QuicheServerSocketImpl) : Prop where
  connections : s.connections = ∅
  listening : s.listening = false
  accepting : s.accepting = none

end QuicheServerSocketImpl

/-- Every callback run since `s` is mild. -/
def MildSince (s t : QuicheServerSocketImpl) : Prop :=
  ∀ r, .invoked r ∈ t.log.drop s.log.length → r.Mild

/-- What `close` makes of `s`: it returns, each slot held is fired once, with `false`, and
no other one, and the server is deaf. -/
structure ClosedDown (s t : QuicheServerSocketImpl) : Prop where
  returned : t.hung = none
  fired : ∃ new, t.log = s.log ++ new ∧
    (∀ slot, s.Holds slot → new.count (.fireOnClose slot false) = 1) ∧
    ∀ slot b, .fireOnClose slot b ∈ new → b = false ∧ s.Holds slot
  deaf : t.Deaf

/-- The server is deaf, and since `s` no callback has been invoked and no pair fired. -/
structure Silent (s t : QuicheServerSocketImpl) : Prop where
  deaf : t.Deaf
  log : ∃ later, t.log = s.log ++ later ∧ (∀ r, .invoked r ∉ later) ∧
    ∀ slot b, .fireOnClose slot b ∉ later

section

variable {held : List MutexRef} {log : List Obs} {s t : QuicheServerSocketImpl}

private theorem installSlot_log (slot : SlotRef) (callback : Zval) (name : String) :
    Spec held (·.log = log) (installSlot slot callback name) (fun _ t ↦ t.log = log)
      fun _ t ↦ t.log = log := by
  unfold installSlot
  split
  · exact .bind (.withLock (fun _ ↦ .modifyData fun _ h ↦ h) fun _ _ h ↦ h) fun _ ↦
      .pure fun _ h ↦ h
  · exact .pure fun _ h ↦ h

private theorem send_log (m : Outbound) :
    Spec held (·.log = log) (send m) (fun _ t ↦ t.log = log) fun _ t ↦ t.log = log := by
  refine .getData_bind fun s hs ↦ ?_
  split
  · refine .bind (Q := fun _ t ↦ t.log = log) (.modifyData ?_) fun _ ↦ .pure fun _ h ↦ h
    rintro t rfl
    exact hs
  · refine .pure ?_
    rintro t rfl
    exact hs

private theorem account_log (call : Submission) (result : Except PhpException PUnit) :
    Spec held (·.log = log) (account call result) (fun _ t ↦ t.log = log) fun _ t ↦ t.log = log := by
  unfold account
  split
  · exact .modifyData fun _ h ↦ h
  · exact .pure fun _ h ↦ h

private theorem onMethod_log {α : Type} {method : Option α} {body : α → PhpM PUnit}
    (h : ∀ a, Spec held (·.log = log) (body a) (fun _ t ↦ t.log = log) fun _ t ↦ t.log = log) :
    Spec held (·.log = log) (onMethod method body) (fun _ t ↦ t.log = log)
      fun _ t ↦ t.log = log := by
  cases method with
  | none => exact .pure fun _ h ↦ h
  | some a => exact h a

/-- A call that opens no stream registers nothing. -/
theorem runCall_log {call : PhpCall} (h : call.opens = false) :
    Spec held (·.log = log) (runCall call) (fun _ t ↦ t.log = log) fun _ t ↦ t.log = log := by
  refine .bind .getData fun t ↦ Spec.pre (onMethod_log fun o ↦ ?_) fun _ hs ↦ hs.2
  cases call with
  | setOnData obj callback =>
    exact onMethod_log fun slot ↦ .bind (installSlot_log _ _ _) fun _ ↦ .pure fun _ h ↦ h
  | setOnClose obj callback => exact .bind (installSlot_log _ _ _) fun _ ↦ .pure fun _ h ↦ h
  | write obj data fin => exact onMethod_log fun m ↦ .bind (send_log m) (account_log _)
  | close obj => exact onMethod_log fun m ↦ .bind (send_log m) (account_log _)
  | openBidiStream obj streamId => cases h
  | openUniStream obj streamId => cases h

/-- The entries of `close`: no registration, and every callback is an `on_close` with `false`. -/
def Obs.Closes : Obs → Prop
  | .inserted _ => False
  | .invoked r => ∃ slot, r.invocation = .onClose slot false
  | .fireOnClose _ peerClosed => peerClosed = false
  | .firedOnClose _ => True

/-- Since `s` the log has grown by entries of `close`, as long as it is on the way to `new`. -/
private def Closing (s : QuicheServerSocketImpl) (new : List Obs) (t : QuicheServerSocketImpl) :
    Prop :=
  ∃ grown, t.log = s.log ++ grown ∧ (grown <+: new → ∀ e ∈ grown, e.Closes)

variable {new : List Obs}

private theorem Closing.noted (h : Closing s new t) (e : Obs) (he : e.Closes)
    {u : QuicheServerSocketImpl} (hu : u.log = t.log ++ [e]) : Closing s new u := by
  obtain ⟨grown, hlog, hgrown⟩ := h
  refine ⟨grown ++ [e], by rw [hu, hlog, List.append_assoc], fun hpart f hf ↦ ?_⟩
  rcases List.mem_append.mp hf with hf | hf
  · exact hgrown ((List.prefix_append _ _).trans hpart) f hf
  · exact List.mem_singleton.mp hf ▸ he

/-- The calls of an `on_close` callback register nothing where it is mild, and that is where
the log goes on towards `new`. -/
private theorem closing_calls (hnew : ∀ r, .invoked r ∈ new → r.Mild) (h : Closing s new t)
    {invocation : Invocation} (hinv : ∃ slot, invocation = .onClose slot false) :
    Spec held (· = t.entered held invocation) (t.nextScript.calls.forM runCall)
      (fun _ ↦ Closing s new) fun _ ↦ Closing s new := by
  obtain ⟨before, hbefore, -⟩ := id h
  obtain ⟨grown, hlog, hgrown⟩ : Closing s new (t.entered held invocation) :=
    h.noted (.invoked ⟨invocation, held, t.objects, t.nextScript⟩) hinv rfl
  by_cases hpart : grown <+: new
  · have hmild : CallbackRun.Mild ⟨invocation, held, t.objects, t.nextScript⟩ := by
      have hgrows : grown = before ++ [.invoked ⟨invocation, held, t.objects, t.nextScript⟩] := by
        refine List.append_cancel_left (?_ : s.log ++ _ = s.log ++ _)
        rw [← hlog, ← List.append_assoc, ← hbefore]
        rfl
      exact hnew _ (hpart.subset (hgrows ▸ List.mem_append_right _ (List.mem_singleton_self _)))
    have hcalls : Spec held (·.log = s.log ++ grown) (t.nextScript.calls.forM runCall)
        (fun _ u ↦ u.log = s.log ++ grown) fun _ u ↦ u.log = s.log ++ grown :=
      .forM_mem fun call hcall ↦ runCall_log (hmild.opens call hcall)
    refine hcalls.weaken ?_ (fun _ u hu ↦ ⟨grown, hu, hgrown⟩) fun _ u hu ↦ ⟨grown, hu, hgrown⟩
    rintro u rfl
    exact hlog
  · have hoff : ∀ u : QuicheServerSocketImpl, (t.entered held invocation).log <+: u.log →
        Closing s new u := by
      rintro u ⟨more, hmore⟩
      refine ⟨grown ++ more, by rw [← hmore, hlog, List.append_assoc], fun hp ↦ ?_⟩
      exact absurd ((List.prefix_append _ _).trans hp) hpart
    exact (callback_of_effect (fun _ _ hu he ↦ hu.trans he.log) (List.prefix_refl _)).weaken
      (fun _ hu ↦ hu) (fun _ u ↦ hoff u) fun _ u ↦ hoff u

private theorem stable_closing (hnew : ∀ r, .invoked r ∈ new → r.Mild) :
    Stable (fun _ invocation ↦ ∃ slot, invocation = .onClose slot false) (fun _ _ ↦ True)
      (Closing s new) where
  grows _ _ _ _ hA := hA
  callback _ hA hs := closing_calls hnew hs hA
  fireOnClose slot b hA hs := by
    obtain ⟨slot', heq⟩ := hA
    cases heq
    exact hs.noted (.fireOnClose slot false) (by exact rfl) rfl
  firedOnClose slot hs := hs.noted (.firedOnClose slot) trivial rfl
  announced _ _ hA _ _ := by
    obtain ⟨slot, hno⟩ := hA [] 0
    cases hno
  removed _ hs := hs
  emptied _ hs := hs
  hung _ hs := hs

/-- `close` takes every record, and the listener. -/
private theorem close_deafens (conns : List ConnId) (orders : ConnId → List StreamId) :
    Spec [] (· = s) (close conns orders) (fun _ t ↦ t.connections = ∅ ∧ t.listening = false)
      fun _ _ ↦ True := by
  refine .getData_bind ?_
  rintro t rfl
  refine .bind (Q := fun _ u ↦ u.connections = ∅) ?_ fun _ ↦ .modifyData fun u hu ↦ ⟨hu, rfl⟩
  -- the records still present are left to drain
  refine Spec.weaken (Spec.forM (H := fun _ _ ↦ True) (I := fun rest u ↦
    ∀ c : ConnId, u.connections[c]? ≠ none → c ∈ rest.map Prod.fst) ?_
      (drainInOrder t.connections conns)) ?_ ?_ fun _ _ _ ↦ trivial
  · rintro ⟨c, st⟩ rest
    refine .of_forall fun u hu ↦ .bind (.modifyData (Q := fun _ v ↦
      v.records = (u.forgotten c).records) ?_) fun _ ↦ (stable_records.fireAll (fun _ ↦ trivial)
        _).weaken (fun v hv ↦ ⟨hv, fun _ _ _ ↦ trivial⟩) ?_ fun _ _ _ ↦ trivial
    · rintro v rfl
      rfl
    · intro _ v hv c' hc'
      have hconns : v.connections = u.connections.erase c := congrArg Prod.fst hv
      rw [hconns, Std.ExtTreeMap.getElem?_erase] at hc'
      split at hc'
      · exact absurd rfl hc'
      · next hne =>
        apply (List.mem_cons.mp (hu c' hc')).resolve_left
        rintro rfl
        exact hne (Std.compare_eq_iff_eq.mpr rfl)
  · rintro u rfl c hc
    obtain ⟨st, hst⟩ := Option.ne_none_iff_exists'.mp hc
    exact List.mem_map.mpr ⟨(c, st), mem_drainInOrder.mpr hst, rfl⟩
  · intro _ u hu
    refine Std.ExtTreeMap.ext_getElem? fun c ↦ ?_
    rw [Std.ExtTreeMap.getElem?_empty]
    by_contra hc
    exact List.not_mem_nil (hu c hc)

private theorem respects_of_mild {r : CallbackRun} (h : r.Mild) {slot : SlotRef}
    (hr : r.invocation = .onClose slot false) : r.Respects := by
  intro call hcall o ho hoff
  rw [hr] at hoff
  cases call with
  | setOnClose obj callback =>
    have hno := h.replaces slot false hr obj callback hcall o ho hoff.2
    rw [hoff.1] at hno
    cases hno
  | openBidiStream obj id => exact absurd (h.opens _ hcall) (by simp [PhpCall.opens])
  | openUniStream obj id => exact absurd (h.opens _ hcall) (by simp [PhpCall.opens])
  | _ => exact hoff

/-- The slots held are the `on_close` slots of the live pairs. -/
theorem holds_iff (h : Sound [] s) (slot : SlotRef) :
    s.Holds slot ↔ slot.side = .close ∧ (s.ledger []).Live slot.pair := by
  rw [stored_iff h]
  constructor
  · rintro ⟨c, st, id, slots, hc, hs, rfl⟩
    obtain ⟨-, -, n, -, rfl⟩ := h.registry.entries _ id slots hs
    exact ⟨rfl, c, st, id, hc, hs⟩
  · obtain ⟨n, side⟩ := slot
    rintro ⟨rfl, c, st, id, hc, hs⟩
    exact ⟨c, st, id, _, hc, hs, rfl⟩

/-- Entries of `close` register nothing, so the pairs they fire are the live ones. -/
private theorem settles_iff_live (hs : Sound [] s) (ht : Sound [] t) (hempty : t.connections = ∅)
    (hlog : t.log = s.log ++ new) (hnew : ∀ e ∈ new, e.Closes) (n : Nat) :
    n ∈ new.filterMap Obs.settles ↔ (s.ledger []).Live n := by
  have hinserted : ∀ i, .inserted i ∉ new := fun i hi ↦ hnew _ hi
  have hissued : n ∈ (t.ledger []).issued ↔ n ∈ (s.ledger []).issued := by
    refine ⟨fun ⟨e, he, hn⟩ ↦ ⟨e, ?_, hn⟩, fun ⟨e, he, hn⟩ ↦ ⟨e, ?_, hn⟩⟩
    · cases e with
      | inserted i =>
        rw [hlog] at he
        exact (List.mem_append.mp he).resolve_right (hinserted i)
      | _ => cases hn
    · rw [hlog]
      exact List.mem_append_left _ he
  have hlost : n ∈ (t.ledger []).lost ↔ n ∈ (s.ledger []).lost := by
    refine ⟨fun ⟨e, he, hn⟩ ↦ ⟨e, ?_, hn⟩, fun ⟨e, he, hn⟩ ↦ ⟨e, ?_, hn⟩⟩
    · cases e with
      | inserted i =>
        rw [hlog] at he
        exact (List.mem_append.mp he).resolve_right (hinserted i)
      | _ => exact hn.elim
    · rw [hlog]
      exact List.mem_append_left _ he
  have hout : (t.ledger []).out = (s.ledger []).out ++ new.filterMap Obs.settles := by
    simp [Ledger.out, QuicheServerSocketImpl.ledger, hlog]
  constructor
  · intro hn
    have hmem : n ∈ (t.ledger []).out := hout ▸ List.mem_append_right _ hn
    rcases hs.ledger.accounted n (hissued.mp (ht.ledger.out_issued n hmem)) with hl | ho | hl
    · exact hl
    · have honce := ht.ledger.out_once
      rw [hout, List.nodup_append] at honce
      exact absurd rfl (honce.2.2 n ho n hn)
    · exact absurd hmem (ht.ledger.lost_gone n (hlost.mpr hl)).2
  · intro hlive
    obtain ⟨k, -, hk⟩ := id hlive
    rcases ht.ledger.accounted n (hissued.mpr (hs.ledger.stored_issued k n hk)) with hl | ho | hl
    · obtain ⟨k', ⟨c, st, hc, -⟩, -⟩ := hl
      simp [hempty] at hc
    · refine (List.mem_append.mp (hout ▸ ho)).resolve_left fun hold ↦ ?_
      exact hs.ledger.out_not_stored n hold k hk
    · exact absurd hlive (hs.ledger.lost_gone n (hlost.mp hl)).1

private theorem count_fireOnClose
    (h : ∀ e ∈ new, ∀ m, e.settles = some m → e = .fireOnClose ⟨m, .close⟩ false) (n : Nat) :
    new.count (.fireOnClose ⟨n, .close⟩ false) = (new.filterMap Obs.settles).count n := by
  rw [List.count_filterMap, List.count]
  refine List.countP_congr fun e he ↦ ?_
  rw [beq_iff_eq, beq_iff_eq]
  refine ⟨?_, h e he n⟩
  rintro rfl
  rfl

/-- `close` with mild callbacks closes the server down. -/
theorem closedDown_of_mild (hs : server.Reachable s) {conns : List ConnId}
    {orders : ConnId → List StreamId} {tape : List Script}
    (ht : s.step (.close conns orders tape) = some t)
    (hmild : MildSince s t) : ClosedDown s t := by
  obtain ⟨new, hlog⟩ := log_step ht
  have hruns : ∀ r, .invoked r ∈ new → r.Mild := by
    rw [MildSince, ← hlog, List.drop_left] at hmild
    exact hmild
  have hclosing : Closing s new t := by
    exact (stable_closing hruns).step_close ht ⟨[], (List.append_nil _).symm, by simp⟩
      (fun _ _ ↦ trivial) (fun _ _ _ slots _ _ ↦ ⟨slots.onClose, rfl⟩) (fun _ _ hu ↦ hu)
      fun _ hu ↦ hu
  have hnew : ∀ e ∈ new, e.Closes := by
    obtain ⟨grown, hgrown, hcloses⟩ := hclosing
    rw [← hlog] at hgrown
    rw [List.append_cancel_left hgrown] at *
    exact hcloses (List.prefix_refl _)
  have haudited := audited_of_reachable hs
  have haudited' := audited_step (l := .close conns orders tape) haudited ht
  have hfree := free_of_handle ht
  have hreturned : t.hung = none := by
    refine haudited'.hung_iff.mpr fun r hr ↦ ?_
    rw [← hlog] at hr
    rcases List.mem_append.mp hr with hr | hr
    · exact haudited.hung_iff.mp hfree.1 r hr
    · obtain ⟨slot, hslot⟩ := hnew _ hr
      exact respects_of_mild (hruns r hr) hslot
  have hdeaf : t.Deaf := by
    obtain ⟨-, u, ⟨rfl, hconns, hlistening⟩ | ⟨m, rfl, -⟩⟩ :=
      handle_spec (close_deafens (s := { s with tape }) conns orders) ht
    · exact ⟨hconns, hlistening, (records_close ht).2.1.trans hfree.2⟩
    · cases hreturned
  have hsound := haudited.settled hfree.1
  have hsound' := haudited'.settled hreturned
  have hlive := settles_iff_live hsound hsound' hdeaf.connections hlog.symm hnew
  have hfires : ∀ slot b, .fireOnClose slot b ∈ new → b = false ∧ slot.side = .close :=
    fun slot b hmem ↦ ⟨hnew _ hmem, hsound'.fired slot b (hlog ▸ List.mem_append_right _ hmem)⟩
  refine ⟨hreturned, ⟨new, hlog.symm, fun slot hholds ↦ ?_, fun slot b hmem ↦ ?_⟩, hdeaf⟩
  · obtain ⟨hside, hpair⟩ := (holds_iff hsound slot).mp hholds
    obtain ⟨n, side⟩ := slot
    obtain rfl : side = .close := hside
    rw [count_fireOnClose]
    · have honce := hsound'.ledger.settled_once
      rw [QuicheServerSocketImpl.ledger, ← hlog, List.filterMap_append, List.nodup_append] at honce
      exact List.count_eq_one_of_mem honce.2.1 ((hlive n).mpr hpair)
    · intro e he m hm
      cases e with
      | fireOnClose slot b =>
        obtain ⟨rfl, hclose⟩ := hfires slot b he
        obtain ⟨pair, side⟩ := slot
        cases hm
        cases hclose
        rfl
      | _ => cases hm
  · obtain ⟨hb, hside⟩ := hfires slot b hmem
    refine ⟨hb, (holds_iff hsound slot).mpr ⟨hside, (hlive slot.pair).mp ?_⟩⟩
    exact List.mem_filterMap.mpr ⟨_, hmem, rfl⟩

private theorem deaf_of_records (h : s.Deaf) (hrecords : t.records = s.records)
    (hlistening : t.listening = s.listening) : t.Deaf := by
  obtain ⟨hconns, hacc, -⟩ := Prod.mk.inj hrecords |>.imp_right Prod.mk.inj
  exact ⟨hconns.trans h.connections, hlistening.trans h.listening, hacc.trans h.accepting⟩

private theorem Silent.effect {u : QuicheServerSocketImpl} (h : Silent s t) (he : Effect t u) :
    Silent s u := by
  obtain ⟨hdeaf, later, hlog, hquiet⟩ := h
  cases he with
  | none => exact ⟨hdeaf, later, hlog, hquiet⟩
  | installed o ho slot hslot callback hcb =>
    exact ⟨deaf_of_records hdeaf rfl rfl, later, hlog, hquiet⟩
  | sent o ho data fin m hm tx htx => exact ⟨deaf_of_records hdeaf rfl rfl, later, hlog, hquiet⟩
  | allocated => exact ⟨deaf_of_records hdeaf rfl rfl, later, hlog, hquiet⟩
  | opened o ho handle hh streamId new hnew =>
    refine ⟨deaf_of_records hdeaf rfl rfl, _, (congrArg (· ++ _) hlog).trans
      (List.append_assoc ..), ?_⟩
    simpa using hquiet

/-- A deaf server invokes nothing, whatever handler runs on it. -/
private theorem stable_silent (s : QuicheServerSocketImpl) :
    Stable (fun _ _ ↦ False) (fun _ _ ↦ False) (Silent s) where
  grows _ _ _ _ hA := hA
  callback _ hno _ := hno.elim
  fireOnClose _ _ hno _ := hno.elim
  firedOnClose slot h := by
    obtain ⟨later, hlog, hquiet⟩ := h.log
    refine ⟨deaf_of_records h.deaf rfl rfl, later ++ [.firedOnClose slot], ?_,
      by simpa using hquiet⟩
    simp only [noted, hlog, List.append_assoc]
  announced _ _ _ hno _ := hno.elim
  removed hno _ := hno.elim
  emptied hno _ := (hno 0).elim
  hung _ h := ⟨deaf_of_records h.deaf rfl rfl, h.log⟩

/-- Once closed down, the server is silent. -/
theorem ClosedDown.silent (h : ClosedDown s t) : Silent t t :=
  ⟨h.deaf, [], (List.append_nil _).symm, by simp⟩

/-- A deaf server stays deaf, and silent. -/
theorem Silent.step {u : QuicheServerSocketImpl} (h : Silent s t) {l : Label}
    (hu : t.step l = some u) : Silent s u := by
  have hstable := stable_silent s
  have hretape : ∀ tape, Silent s { t with tape } := fun _ ↦ ⟨deaf_of_records h.deaf rfl rfl, h.log⟩
  have hnone : ∀ (c : ConnId) (st : ConnState), t.connections[c]? ≠ some st := by
    simp [h.deaf.connections]
  cases l with
  | newConn peerAddr => simp [QuicheServerSocketImpl.step, h.deaf.listening] at hu
  | insertConn => simp [QuicheServerSocketImpl.step, h.deaf.accepting] at hu
  | driverEvent c ev tape =>
    exact hstable.step_driverEvent hu (hretape tape) (fun st hc ↦ hnone c st hc)
      (fun st hc ↦ absurd hc (hnone c st)) (fun st hc ↦ absurd hc (hnone c st))
      fun st hc ↦ absurd hc (hnone c st)
  | connClosed c b order tape =>
    refine hstable.step_connClosed hu (fun _ ↦ hretape tape) ?_ (fun st hc ↦ absurd hc (hnone c st))
      fun st hc ↦ absurd hc (hnone c st)
    refine ⟨⟨?_, h.deaf.listening, h.deaf.accepting⟩, h.log⟩
    simp [forgotten, h.deaf.connections]
  | close conns orders tape =>
    refine hstable.handle (close_spec (s := { t with tape }) (hretape tape)
      (fun c st hc ↦ absurd hc (hnone c st)) fun v hv ↦ ?_) hu
    exact ⟨⟨hv.deaf.connections, rfl, hv.deaf.accepting⟩, hv.log⟩
  | call c => exact hstable.step_call hu (fun _ _ hs he ↦ hs.effect he) (hretape [])
  | driverWrites ref tx =>
    cases hu
    exact ⟨deaf_of_records h.deaf rfl rfl, h.log⟩

end

end ExtQuiche.Server
