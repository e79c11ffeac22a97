import ExtQuiche.Server.Reentry

/-!
# Every handler keeps the accounts

Library `Server`. One specification for each program of the dispatch module: from sound
accounts with the right pairs in the hand it returns with sound accounts and without an
offending call, or hangs after one, the accounts still sound. The last one is about runs
of the server.
-/

namespace ExtQuiche.Server
open ExtQuiche.Base ExtQuiche.Base.Locking ExtQuiche.Conn ExtQuiche.Stream
open QuicheServerSocketImpl

/-- The accounts are sound, and no callback has made an offending call. -/
structure Orderly (hand : List Nat) (s : QuicheServerSocketImpl) : Prop where
  sound : Sound hand s
  respectful : Respectful s.log

/-- The accounts are sound with some pairs in the hand, and a callback has made an
offending call. -/
def Stuck (_ : MutexRef) (s : QuicheServerSocketImpl) : Prop :=
  (∃ hand, Sound hand s) ∧ ¬ Respectful s.log

/-- Since a state `s` the log has only grown, no record has changed and all is in order. -/
structure OrderlySince (s : QuicheServerSocketImpl) (hand : List Nat)
    (t : QuicheServerSocketImpl) : Prop where
  orderly : Orderly hand t
  connections : t.connections = s.connections
  log : s.log <+: t.log

section

variable {held : List MutexRef} {hand : List Nat} {s : QuicheServerSocketImpl}

private theorem respectful_noted {log : List Obs} (h : Respectful log) {e : Obs}
    (he : ∀ r, e = .invoked r → r.Respects) : Respectful (log ++ [e]) := by
  intro r hr
  rcases List.mem_append.mp hr with hr | hr
  · exact h r hr
  · exact he r (List.mem_singleton.mp hr).symm

/-- Nothing has happened yet. -/
theorem Orderly.since (h : Orderly hand s) : OrderlySince s hand s :=
  ⟨h, rfl, List.prefix_refl _⟩

private theorem OrderlySince.of_eq {t u : QuicheServerSocketImpl} (h : OrderlySince s hand u)
    (hc : s.connections = t.connections) (hl : t.log <+: s.log) : OrderlySince t hand u :=
  ⟨h.orderly, h.connections.trans hc, hl.trans h.log⟩

/-- A callback of a pair that has not returned: its script is made to the end, or to its
first offending call. -/
theorem Orderly.callIfCallable (h : Orderly hand s) {callback : Option Zval}
    {invocation : Invocation} (hheld : HeldAround s.nextPair invocation held)
    (hr : ∀ n, invocation.pair? = some n → ∀ e ∈ s.log, e.returns ≠ some n) :
    Spec held (· = s) (callIfCallable callback invocation) (fun _ ↦ OrderlySince s hand) Stuck := by
  refine callIfCallable_spec (fun _ ↦ ?_) fun _ ↦ h.since
  refine ((runCalls_spec (I := fun t ↦ Sound hand t ∧
      t.connections = s.connections ∧ (s.entered held invocation).log <+: t.log ∧
      ∀ r, .invoked r ∈ t.log → .invoked r ∈ (s.entered held invocation).log) ?_ _).and
    (calls_respect hheld h.sound.registry.objects s.nextScript.calls)).weaken ?_ ?_ ?_
  · rintro t u ⟨hsound, hconns, hlog, hnew⟩ heffect
    refine ⟨hsound.effect heffect, heffect.connections.trans hconns, hlog.trans heffect.log, ?_⟩
    intro r hr
    rcases heffect.mem_log hr with hr | ⟨i, hi⟩
    · exact hnew r hr
    · cases hi
  · rintro t rfl
    exact ⟨⟨h.sound.entered held hr, rfl, List.prefix_refl _, fun _ hr ↦ hr⟩,
      ⟨[], (List.append_nil _).symm, by simp⟩, Nat.le_refl _⟩
  · rintro - t ⟨⟨hsound, hconns, hlog, hnew⟩, hcalls⟩
    refine ⟨⟨hsound, fun r hr ↦ ?_⟩, hconns, (List.prefix_append _ _).trans hlog⟩
    refine respectful_noted h.respectful ?_ r (hnew r hr)
    rintro r heq
    cases heq
    exact hcalls
  · rintro m t ⟨⟨hsound, -, hlog, -⟩, call, hcall, o, ho, hoff⟩
    refine ⟨⟨hand, hsound⟩, fun hall ↦ ?_⟩
    have hentered : .invoked ⟨invocation, held, s.objects, s.nextScript⟩ ∈ t.log :=
      hlog.subset (List.mem_append_right _ (List.mem_singleton_self _))
    exact hall _ hentered call hcall o ho hoff

/-- `fire_on_close` on the first pair of the hand, with at most slot maps locked. -/
theorem Orderly.fireOnClose {n : Nat} (h : Orderly (n :: hand) s)
    (hmaps : ∀ m ∈ held, ∃ r, m = .slotsMap r) (peerClosed : Bool) :
    Spec held (· = s) (fireOnClose ⟨n, .close⟩ peerClosed) (fun _ ↦ OrderlySince s hand) Stuck := by
  have hfires : Orderly hand (s.noted (.fireOnClose ⟨n, .close⟩ peerClosed)) :=
    ⟨h.sound.fires peerClosed, respectful_noted h.respectful (by simp)⟩
  have hlt : n < s.nextPair := h.sound.lt_of_issued
    (h.sound.ledger.out_issued n (List.mem_append_right _ (List.mem_cons_self ..)))
  refine fireOnClose_spec (fun _ ↦ ?_) fun hno ↦ ?_
  · refine (hfires.callIfCallable (.onClose _ rfl hlt _ _ hmaps) ?_).post fun _ t ht ↦ ?_
    · intro m hm e he
      cases hm
      rcases List.mem_append.mp he with he | he
      · exact h.sound.not_returned_of_hand e he
      · rw [List.mem_singleton.mp he]
        exact nofun
    · have hsettled : n ∈ t.log.filterMap Obs.settles := by
        refine List.mem_filterMap.mpr ⟨.fireOnClose ⟨n, .close⟩ peerClosed, ?_, rfl⟩
        exact ht.log.subset (by simp [noted])
      exact ⟨⟨ht.orderly.sound.returns hsettled,
        respectful_noted ht.orderly.respectful (by simp)⟩, ht.connections,
        ((List.prefix_append _ _).trans ht.log).trans (List.prefix_append _ _)⟩
  · obtain ⟨r, hr⟩ := hmaps _ hno
    cases hr

/-- `fire_on_close` on every pair of the hand, with a slot map locked. -/
theorem Orderly.fireEach {es : List (StreamId × StreamSlots)}
    (hes : ∀ e ∈ es, ∃ n, e.2 = .ofPair n) (h : Orderly (es.map (·.2.onClose.pair)) s)
    (map : MapRef) (peerClosed : Bool) :
    Spec [.slotsMap map] (· = s) (es.forM fun e ↦ Server.fireOnClose e.2.onClose peerClosed)
      (fun _ ↦ OrderlySince s []) Stuck := by
  refine Spec.weaken (Spec.forM (H := Stuck)
    (I := fun rest t ↦ rest <:+ es ∧ OrderlySince s (rest.map (·.2.onClose.pair)) t) ?_ es)
    ?_ (fun _ _ ht ↦ ht.2) fun _ _ ht ↦ ht
  · intro e rest
    refine .of_forall ?_
    rintro t ⟨hsuffix, ht⟩
    obtain ⟨n, hn⟩ := hes e (hsuffix.subset (List.mem_cons_self ..))
    have horderly := ht.orderly
    rw [List.map_cons, hn] at horderly
    rw [hn]
    refine (horderly.fireOnClose (fun m hm ↦ ⟨map, List.mem_singleton.mp hm⟩) peerClosed).post
      fun _ u hu ↦ ?_
    exact ⟨(List.suffix_cons e rest).trans hsuffix, hu.of_eq ht.connections ht.log⟩
  · rintro t rfl
    exact ⟨List.suffix_refl _, h.since⟩

/-- The stream callback, on an object with known numbers. -/
theorem Orderly.callStreamCallback (h : Orderly hand s) {connId : ConnId} {streamId : StreamId}
    {o : StreamObject} (ho : Known s.nextPair s.idCounter s.accepting o) :
    Spec [] (· = s) (callStreamCallback connId streamId o) (fun _ ↦ Orderly hand) Stuck := by
  apply callStreamCallback_spec
  have hobj : Orderly hand (s.withObject o) := ⟨h.sound.withObject ho, h.respectful⟩
  exact (hobj.callIfCallable (.stream ..) fun _ hn ↦ by cases hn).post fun _ _ ht ↦ ht.orderly

private theorem attached_self (hr : s.Registry) {c : ConnId} {st : ConnState}
    (hc : s.connections[c]? = some st) : s.attached c c = true := by
  simp [attached, hc, hr.map_eq hc]

private theorem not_accepting (hr : s.Registry) {c : ConnId} {st : ConnState}
    (hc : s.connections[c]? = some st) (st' : ConnState) : s.accepting ≠ some (c, st') := by
  intro hacc
  have hnone := (hr.accepting c st' hacc).2.1
  rw [hc] at hnone
  cases hnone

/-- The object made for an announced stream has known numbers. -/
private theorem known_of_announces (hr : s.Registry) {c : ConnId} {st : ConnState}
    (hc : s.connections[c]? = some st) {id : StreamId} {o : StreamObject}
    (ho : AnnouncesAs c st id s.nextPair o) :
    Known (s.nextPair + 1) s.idCounter s.accepting o := by
  have hlt : c < s.idCounter := (hr.conns c st hc).1
  have hhandle : st.openHandle.phpStreamCallbacks = st.openHandle.connId ∧
      st.openHandle.connId = c := by
    rw [(hr.conns c st hc).2]
    exact ⟨rfl, rfl⟩
  have hdata : ∀ r, (some ⟨s.nextPair, .data⟩ : Option SlotRef) = some r →
      r.side = .data ∧ r.pair < s.nextPair + 1 := by
    rintro r hr
    cases hr
    exact ⟨rfl, Nat.lt_succ_self _⟩
  have hopen : ∀ handle, some st.openHandle = some handle →
      handle.phpStreamCallbacks = handle.connId ∧ handle.connId < s.idCounter ∧
        ∀ st', s.accepting ≠ some (handle.connId, st') := by
    rintro handle hh
    cases hh
    rw [hhandle.2]
    exact ⟨hhandle.1.trans hhandle.2, hlt, not_accepting hr hc⟩
  cases ho with
  | bidi => exact ⟨hdata, ⟨rfl, Nat.lt_succ_self _⟩, hopen⟩
  | uni => exact ⟨hdata, ⟨rfl, Nat.lt_succ_self _⟩, hopen⟩

/-- An announcement registers its stream and runs the stream callback. -/
theorem Orderly.announce (h : Orderly hand s) {c : ConnId} {st : ConnState}
    (hc : s.connections[c]? = some st) (id : StreamId) {o : StreamObject}
    (ho : AnnouncesAs c st id s.nextPair o) :
    Spec [] (· = s.allocated.inserted .announced c st.phpStreamCallbacks id (.ofPair s.nextPair))
      (Server.callStreamCallback c id o) (fun _ ↦ Orderly hand) Stuck := by
  have hr := h.sound.registry
  rw [hr.map_eq hc]
  have hregistered : Orderly hand
      (s.allocated.inserted .announced c c id (.ofPair s.nextPair)) :=
    ⟨h.sound.registered .announced (hr.conns c st hc).1 (not_accepting hr hc) id,
      respectful_noted h.respectful fun _ ↦ nofun⟩
  exact hregistered.callStreamCallback (known_of_announces hr hc ho)

/-- A chunk is delivered to a pair that is still in its map. -/
theorem Orderly.deliver (h : Orderly hand s) (connId : ConnId) (map : MapRef) (id : StreamId)
    (data : Bytes) (fin : Bool) :
    Spec [] (· = s) (deliver connId map id data fin) (fun _ ↦ OrderlySince s hand) Stuck := by
  refine deliver_spec (fun _ ↦ h.since) fun slots hs ↦ ?_
  obtain ⟨-, -, m, hlt, rfl⟩ := h.sound.registry.entries map id slots hs
  refine h.callIfCallable (.onData _ rfl hlt ..) fun n hn ↦ ?_
  cases hn
  exact h.sound.not_returned_of_stored hs

/-- A fin takes its pair out of the map and fires it. -/
theorem Orderly.finish (h : Orderly [] s) {map : MapRef} (hlive : s.attached map map = true)
    (id : StreamId) :
    Spec [] (· = s) (finish map id) (fun _ ↦ Orderly []) Stuck := by
  have hremoved := h.sound.removed hlive id
  refine finish_spec (fun hs ↦ ?_) fun slots hs ↦ ?_
  · rw [hs] at hremoved
    exact ⟨hremoved, h.respectful⟩
  · obtain ⟨-, -, n, -, rfl⟩ := h.sound.registry.entries map id slots hs
    rw [hs] at hremoved
    have hhand : Orderly [n] (s.removed map id) := ⟨hremoved, h.respectful⟩
    exact (hhand.fireOnClose (fun _ hm ↦ absurd hm List.not_mem_nil) true).post
      fun _ _ ht ↦ ht.orderly

/-- `dispatch_driver_event` keeps the accounts. -/
theorem Orderly.dispatchDriverEvent (h : Orderly [] s) (connId : ConnId) (ev : DriverEvent) :
    Spec [] (· = s) (dispatchDriverEvent connId ev) (fun _ ↦ Orderly []) Stuck := by
  apply dispatchDriverEvent_spec (fun _ ↦ h) (fun st o hc _ ho ↦ h.announce hc _ ho)
  rintro st id data fin hc -
  refine .bind (h.deliver connId _ id data fin) fun _ ↦ .of_forall fun t ht ↦ ?_
  split
  · have hct : t.connections[connId]? = some st := by rw [ht.connections, hc]
    have hr := ht.orderly.sound.registry
    rw [hr.map_eq hct]
    exact ht.orderly.finish (attached_self hr hct) id
  · exact .pure fun u hu ↦ hu ▸ ht.orderly

/-- A record goes, then the pairs of its map are fired. -/
theorem Orderly.fireAll (h : Orderly [] s) {c : ConnId} {st : ConnState}
    (hc : s.connections[c]? = some st) (order : List StreamId) (peerClosed : Bool) :
    Spec [] (· = s.forgotten c) (fireAll st.phpStreamCallbacks order peerClosed)
      (fun _ t ↦ Orderly [] t ∧ t.connections = s.connections.erase c) Stuck := by
  apply fireAll_spec
  have hdrained : Orderly _ ((s.forgotten c).emptied st.phpStreamCallbacks) :=
    ⟨h.sound.drained hc order, h.respectful⟩
  refine (hdrained.fireEach ?_ _ peerClosed).post fun _ t ht ↦ ⟨ht.orderly, ht.connections⟩
  rintro ⟨id, slots⟩ he
  obtain ⟨-, -, n, -, heq⟩ := h.sound.registry.entries _ id slots (mem_drainInOrder.mp he)
  exact ⟨n, heq⟩

/-- The `ConnClosed` arm keeps the accounts. -/
theorem Orderly.connClosed (h : Orderly [] s) (connId : ConnId) (peerInitiated : Bool)
    (order : List StreamId) :
    Spec [] (· = s) (connClosed connId peerInitiated order) (fun _ ↦ Orderly []) Stuck := by
  refine .getData_bind ?_
  rintro t rfl
  split
  · exact .pure fun u hu ↦ hu ▸ h
  · next st hc =>
    refine .bind (.modifyData (Q := fun _ ↦ (· = t.forgotten connId)) ?_) fun _ ↦
      (h.fireAll hc order peerInitiated).post fun _ _ hu ↦ hu.1
    rintro u rfl
    rfl

private theorem Orderly.withRest (h : Orderly hand s) (listening : Bool)
    (slots : SlotRef → Option Zval) (writes : ChanRef → Base.Channel StreamWriter)
    (permits : NotifyRef → Bool) (tape : List Script) (submitted : List Submission)
    (hung : Option MutexRef) :
    Orderly hand { s with listening, slots, writes, permits, tape, submitted, hung } :=
  ⟨h.sound.withRest _ _ _ _ _ _ _, h.respectful⟩

/-- `close` keeps the accounts. -/
theorem Orderly.close (h : Orderly [] s) (conns : List ConnId) (orders : ConnId → List StreamId) :
    Spec [] (· = s) (close conns orders) (fun _ ↦ Orderly []) Stuck := by
  refine .getData_bind ?_
  rintro t rfl
  refine .bind (Q := fun _ ↦ Orderly []) ?_ fun _ ↦ .modifyData fun u hu ↦
    hu.withRest _ _ _ _ _ _ _
  -- what is left to drain are the records still present
  refine Spec.weaken (Spec.forM (H := Stuck) (I := fun rest u ↦ Orderly [] u ∧
    (rest.map Prod.fst).Nodup ∧ ∀ e ∈ rest, u.connections[e.1]? = some e.2) ?_
    (drainInOrder t.connections conns)) ?_ (fun _ _ hu ↦ hu.1) fun _ _ hu ↦ hu
  · rintro ⟨c, st⟩ rest
    refine .of_forall ?_
    rintro u ⟨hu, hnodup, hrest⟩
    rw [List.map_cons, List.nodup_cons] at hnodup
    have hc := hrest (c, st) (List.mem_cons_self ..)
    refine .bind (.modifyData (Q := fun _ ↦ (· = u.forgotten c)) ?_) fun _ ↦
      (hu.fireAll hc (orders c) false).post fun _ v hv ↦ ⟨hv.1, hnodup.2, ?_⟩
    · rintro v rfl
      rfl
    · rintro ⟨c', st'⟩ he
      have hne : c' ≠ c := by
        rintro rfl
        exact hnodup.1 (List.mem_map.mpr ⟨_, he, rfl⟩)
      rw [hv.2, Std.ExtTreeMap.getElem?_erase]
      simpa [hne.symm] using hrest (c', st') (List.mem_cons_of_mem _ he)
  · rintro u rfl
    refine ⟨h, nodup_drainInOrder _ _, ?_⟩
    rintro ⟨c, st⟩ he
    exact mem_drainInOrder.mp he

end

/-- Between two steps the hand is empty and no callback has offended; the thread hangs
after an offending call, perhaps with pairs in the hand. -/
structure Audited (s : QuicheServerSocketImpl) : Prop where
  sound : ∃ hand, Sound hand s
  settled : s.hung = none → Sound [] s
  hung_iff : s.hung = none ↔ Respectful s.log

private theorem Audited.of_orderly {s : QuicheServerSocketImpl} (h : Orderly [] s)
    (hfree : s.hung = none) : Audited s :=
  ⟨⟨[], h.sound⟩, fun _ ↦ h.sound, fun _ ↦ h.respectful, fun _ ↦ hfree⟩

private theorem audited_handle {s t : QuicheServerSocketImpl} {tape : List Script}
    {prog : PhpM PUnit} (h : Audited s) (ht : s.handle tape prog = some t)
    (hprog : ∀ s, Orderly [] s → Spec [] (· = s) prog (fun _ ↦ Orderly []) Stuck) :
    Audited t := by
  by_cases hfree : s.Free
  · have hs : Orderly [] { s with tape } :=
      ⟨(h.settled hfree.1).withRest _ _ _ _ _ _ _, h.hung_iff.mp hfree.1⟩
    obtain ⟨-, u, ⟨rfl, hu⟩ | ⟨m, rfl, ⟨hand, hu⟩, hoff⟩⟩ := handle_spec (hprog _ hs) ht
    · exact .of_orderly (hu.withRest _ _ _ _ _ _ _) rfl
    · exact ⟨⟨hand, hu.withRest _ _ _ _ _ _ _⟩, nofun, nofun, fun hall ↦ absurd hall hoff⟩
  · rw [handle, if_neg hfree] at ht
    cases ht

/-- Every step of the server keeps the accounts. -/
theorem audited_step {s t : QuicheServerSocketImpl} {l : Label} (h : Audited s)
    (ht : server.step s l = some t) : Audited t := by
  obtain ⟨hand, hs⟩ := h.sound
  cases l with
  | newConn peerAddr =>
    simp only [server, QuicheServerSocketImpl.step] at ht
    split at ht
    · cases ht
      exact ⟨⟨hand, hs.newConn peerAddr⟩, fun hh ↦ (h.settled hh).newConn peerAddr, h.hung_iff⟩
    · cases ht
  | insertConn =>
    obtain ⟨⟨c, st⟩, hacc, rfl⟩ := Option.map_eq_some_iff.mp ht
    exact ⟨⟨hand, hs.insertConn hacc⟩, fun hh ↦ (h.settled hh).insertConn hacc, h.hung_iff⟩
  | driverEvent connId ev tape => exact audited_handle h ht fun _ hs ↦ hs.dispatchDriverEvent _ _
  | connClosed connId peerInitiated order tape =>
    exact audited_handle h ht fun _ hs ↦ hs.connClosed _ _ _
  | close conns orders tape => exact audited_handle h ht fun _ hs ↦ hs.close _ _
  | call c =>
    refine audited_handle h ht fun s hs ↦ (runCall_spec c).weaken (fun _ h ↦ h) ?_ ?_
    · refine fun _ t ht ↦ ⟨hs.sound.effect ht.1, fun r hr ↦ ?_⟩
      rcases ht.1.mem_log hr with hr | ⟨i, hi⟩
      · exact hs.respectful r hr
      · cases hi
    · exact fun m t ht ↦ absurd ht.2.2 List.not_mem_nil
  | driverWrites ref tx =>
    cases ht
    exact ⟨⟨hand, hs.withRest _ _ _ _ _ _ _⟩, fun hh ↦ (h.settled hh).withRest _ _ _ _ _ _ _,
      h.hung_iff⟩

private theorem orderly_init (callback : Option Zval) : Orderly [] (.bind callback) := by
  have hledger : (QuicheServerSocketImpl.bind callback).ledger [] =
      ⟨∅, fun _ ↦ none, ((QuicheServerSocketImpl.bind callback).ledger []).live, [], [], ∅⟩ := by
    refine Ledger.ext ?_ ?_ rfl rfl rfl ?_
    · ext n
      simp [QuicheServerSocketImpl.ledger, QuicheServerSocketImpl.bind]
    · funext k
      simp [QuicheServerSocketImpl.ledger, QuicheServerSocketImpl.bind]
    · ext n
      simp [QuicheServerSocketImpl.ledger, QuicheServerSocketImpl.bind]
  refine ⟨⟨⟨rfl, ?_, ?_, ?_, ?_, ?_⟩, hledger ▸ Ledger.wf_empty _, ?_, ?_, List.Pairwise.nil⟩, ?_⟩
    <;> simp [QuicheServerSocketImpl.bind, Respectful]

/-- The accounts are sound in every reachable state. -/
theorem audited_of_reachable {s : QuicheServerSocketImpl} (hs : server.Reachable s) :
    Audited s := by
  refine hs.invariant ?_ fun _ _ _ _ h _ ht ↦ audited_step h ht
  rintro _ ⟨callback, rfl⟩
  exact .of_orderly (orderly_init callback) rfl

end ExtQuiche.Server
