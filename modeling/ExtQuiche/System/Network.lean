import ExtQuiche.Base.History
import ExtQuiche.Base.Pieces
import ExtQuiche.Driver.Receiving
import ExtQuiche.System.Delivery

/-!
# The system with its peers

Library `System`. The system together with the receive side of each connection's transport,
which is a parameter: what peers send arrives there, and the drivers get its answers. The read
path of each driver is then a run of `Driver.Receiving`, and what a peer has sent is handed to
PHP, waits on the event channel, or is unread in the transport.
-/

namespace ExtQuiche.System
open ExtQuiche.Base ExtQuiche.Conn ExtQuiche.Driver ExtQuiche.Server

/-- The system and the receive sides of all transports. -/
structure Network (τ : Type) where
  world : World
  transport : ConnId → τ

/-- A step of the system, or a peer at work. -/
inductive NetworkLabel where
  | system (l : Label)
  | peer (c : ConnId) (op : PeerOp)

namespace Network

variable {τ : Type} (T : ReceiveSide τ)

/-- The transports after they gave the answers of a step of the system. -/
def answer (n : Network τ) : Label → Option (ConnId → τ)
  | .driver c (.read op) =>
    (n.world.drivers c).bind fun d ↦
      (T.answered (n.transport c) d.point op).map fun t ↦ Function.update n.transport c t
  | _ => some n.transport

/-- One step of the system or of a peer. -/
def step (n : Network τ) : NetworkLabel → Option (Network τ)
  | .system l =>
    (n.answer T l).bind fun transport ↦ (System.world.step n.world l).map fun world ↦
      ⟨world, transport⟩
  | .peer c op =>
    (T.peer (n.transport c) op).map fun t ↦
      { n with transport := Function.update n.transport c t }

/-- Nothing has arrived anywhere. -/
def Init (n : Network τ) : Prop := n.world.Init ∧ n.transport = fun _ ↦ T.start

end Network

/-- Runs of the system with its peers. -/
def network {τ : Type} (T : ReceiveSide τ) : Machine (Network τ) NetworkLabel :=
  ⟨Network.Init T, Network.step T⟩

section

variable {τ : Type} {T : ReceiveSide τ} {n n' : Network τ} {c : ConnId} {id : StreamId}
  {ok : Receiving τ → ReceivingLabel → Prop}

/-- The read path of a connection. -/
def readPathOf (n : Network τ) (c : ConnId) (d : StreamQuicDriver) : Receiving τ :=
  ⟨d.reading, n.world.events, n.transport c⟩

/-- What a step is to the read path of a connection. -/
def Network.seenBy (n' : Network τ) (c : ConnId) : NetworkLabel → ReceivingLabel
  | .system (.driver c' (.read op)) => if c' = c then .driver op else .others n'.world.events
  | .system _ => .others n'.world.events
  | .peer c' op => if c' = c then .peer op else .others n'.world.events

/-- The calls of `process_reads` of the connection meet the condition on its read path; nothing
is asked of the other connections. -/
def EachCall (c : ConnId) (ok : Receiving τ → ReceivingLabel → Prop) (n : Network τ) :
    NetworkLabel → Prop
  | .system (.driver c' (.read op)) =>
    c' = c → ∀ d ∈ n.world.drivers c, ok (readPathOf n c d) (.driver op)
  | _ => True

instance (c : ConnId) (ok : Receiving τ → ReceivingLabel → Prop) [∀ s l, Decidable (ok s l)]
    (n : Network τ) : ∀ l, Decidable (EachCall c ok n l)
  | .system (.driver c' (.read op)) =>
    inferInstanceAs (Decidable
      (c' = c → ∀ d ∈ n.world.drivers c, ok (readPathOf n c d) (.driver op)))
  | .system (.driver _ (.write _)) | .system (.driver _ (.onConnClose _))
  | .system (.driver _ .drop)
  | .system .enterTick | .system (.pollEvents _) | .system (.pollCloses _ _) | .system (.accept _)
  | .system .insertConn | .system .again | .system .timer | .system (.call _)
  | .system (.close _ _ _) | .peer _ _ => .isTrue trivial

/-- The condition asks nothing of the other parties. -/
def OfCalls (ok : Receiving τ → ReceivingLabel → Prop) : Prop :=
  ∀ s l, (∀ op, l ≠ .driver op) → ok s l

private theorem system_step {l : Label} (h : (network T).step n (.system l) = some n') :
    n.answer T l = some n'.transport ∧ world.step n.world l = some n'.world := by
  obtain ⟨transport, htransport, h⟩ := Option.bind_eq_some_iff.mp h
  obtain ⟨w, hw, rfl⟩ := Option.map_eq_some_iff.mp h
  exact ⟨htransport, hw⟩

private theorem peer_step {c' : ConnId} {op : PeerOp}
    (h : (network T).step n (.peer c' op) = some n') :
    ∃ t, T.peer (n.transport c') op = some t ∧
      n' = { n with transport := Function.update n.transport c' t } := by
  obtain ⟨t, ht, rfl⟩ := Option.map_eq_some_iff.mp h
  exact ⟨t, ht, rfl⟩

/-- Without its peers a run is a run of the system. -/
private theorem world_reachable {ok : Network τ → NetworkLabel → Prop}
    (h : (network T).ReachableWhile ok n) : world.Reachable n.world := by
  refine h.invariant (I := fun n ↦ world.Reachable n.world) ?_ ?_
  · rintro n ⟨h0, -⟩
    exact .init h0
  intro n l n' _ hi _ ht
  cases l with
  | system l => exact hi.step l trivial (system_step ht).2
  | peer c op =>
    obtain ⟨t, -, rfl⟩ := peer_step ht
    exact hi

/-- Only a call of `process_reads` asks something of the transport. -/
private theorem transport_step {l : Label} (h : n.answer T l = some n'.transport) :
    (∃ c d op t, l = .driver c (.read op) ∧ n.world.drivers c = some d ∧
      T.answered (n.transport c) d.point op = some t ∧
      n'.transport = Function.update n.transport c t) ∨
    (∀ c op, l ≠ .driver c (.read op)) ∧ n'.transport = n.transport := by
  unfold Network.answer at h
  split at h
  · next c op =>
    obtain ⟨d, hd, h⟩ := Option.bind_eq_some_iff.mp h
    obtain ⟨t, ht, heq⟩ := Option.map_eq_some_iff.mp h
    exact .inl ⟨c, d, op, t, rfl, hd, ht, heq.symm⟩
  · next hno => exact .inr ⟨hno, (Option.some.inj h).symm⟩

private theorem receiving_eq (s : Receiving τ) (l : ReceivingLabel) :
    (receiving T).step s l = s.step T l := rfl

/-- To every other step the read path sees the event channel change at most. -/
private theorem seenBy_system {l : Label} (hno : ∀ c op, l ≠ .driver c (.read op))
    (n' : Network τ) (c : ConnId) : n'.seenBy c (.system l) = .others n'.world.events := by
  cases l with
  | driver c' op =>
    cases op with
    | read op => exact absurd rfl (hno c' op)
    | _ => rfl
  | _ => rfl

/-- A step without a call of `process_reads` leaves every driver as that call sees it. -/
private theorem reading_step {w w' : World} {l : Label} (hw : w.Linked) (h : Happens w l w')
    (hno : ∀ c op, l ≠ .driver c (.read op)) {d : StreamQuicDriver} (hd : w.drivers c = some d) :
    ∃ d', w'.drivers c = some d' ∧ d'.reading = d.reading := by
  have hturn : ∀ {e e' : StreamQuicDriver}, w.drivers e.connId = some e → e'.reading = e.reading →
      ∃ d', Function.update w.drivers e.connId (some e') c = some d' ∧ d'.reading = d.reading := by
    intro e e' he hread
    by_cases hc : c = e.connId
    · subst hc
      rw [hd] at he
      cases he
      exact ⟨e', Function.update_self .., hread⟩
    · exact ⟨d, (Function.update_of_ne hc ..).trans hd, rfl⟩
  cases h with
  | read c' e op r he hr => exact absurd rfl (hno c' op)
  | accepted peerAddr ht hfree =>
    exact ⟨d, (Function.update_of_ne (hw.drivers c d hd).1.ne ..).trans hd, rfl⟩
  | wrote c' e op r he hr =>
    obtain rfl := (hw.drivers c' e he).2
    exact hturn he hr.reading_eq
  | ended c' e ended he hp =>
    obtain rfl := (hw.drivers c' e he).2
    exact hturn he (by simp [StreamQuicDriver.reading, Point.reading, hp])
  | _ => exact ⟨d, hd, rfl⟩

/-- Each step of the system is one of every read path, or nothing to it. -/
private theorem readPath_system {l : Label} (hw : n.world.Linked)
    (h : (network T).step n (.system l) = some n') {d : StreamQuicDriver}
    (hd : n.world.drivers c = some d) :
    ∃ d', n'.world.drivers c = some d' ∧
      (receiving T).step (readPathOf n c d) (n'.seenBy c (.system l)) =
        some (readPathOf n' c d') := by
  obtain ⟨htr, hstep⟩ := system_step h
  obtain ⟨w', transport'⟩ := n'
  rcases transport_step htr with ⟨c', e, op, t, rfl, he, ht, rfl⟩ | ⟨hno, rfl⟩
  · cases step_happens hstep with
    | moved l p hm => rcases hm with hm | hm | hm <;> cases hm
    | read c' e' op r he' hr =>
      rw [he] at he'
      cases he'
      obtain rfl := (hw.drivers c' e he).2
      by_cases hc : e.connId = c
      · subst hc
        rw [hd] at he
        cases he
        obtain ⟨hpoint, hread⟩ := hr.readStep_reading
        refine ⟨r.driver, Function.update_self .., ?_⟩
        rw [Network.seenBy, if_pos rfl, receiving_eq]
        simp only [Receiving.step, readPathOf, hpoint, ht, Option.bind_some, hread,
          Option.map_some, Function.update_self]
      · refine ⟨d, (Function.update_of_ne (Ne.symm hc) ..).trans hd, ?_⟩
        rw [Network.seenBy, if_neg hc, receiving_eq]
        simp only [Receiving.step, readPathOf, Function.update_of_ne (Ne.symm hc)]
  · obtain ⟨d', hd', hread⟩ := reading_step hw (step_happens hstep) hno hd
    refine ⟨d', hd', ?_⟩
    rw [seenBy_system hno, receiving_eq]
    simp only [Receiving.step, readPathOf, hread]

/-- So is each step of a peer. -/
private theorem readPath_step (hw : n.world.Linked) {l : NetworkLabel}
    (h : (network T).step n l = some n') {d : StreamQuicDriver}
    (hd : n.world.drivers c = some d) :
    ∃ d', n'.world.drivers c = some d' ∧
      (receiving T).step (readPathOf n c d) (n'.seenBy c l) = some (readPathOf n' c d') := by
  cases l with
  | system l => exact readPath_system hw h hd
  | peer c' op =>
    obtain ⟨t, ht, rfl⟩ := peer_step h
    refine ⟨d, hd, ?_⟩
    by_cases hc : c' = c
    · subst hc
      rw [Network.seenBy, if_pos rfl, receiving_eq]
      simp only [Receiving.step, readPathOf, ht, Option.map_some, Function.update_self]
    · rw [Network.seenBy, if_neg hc, receiving_eq]
      simp only [Receiving.step, readPathOf, Function.update_of_ne (Ne.symm hc)]

/-- Only the peer has been at work on the transport. -/
private def Untouched (T : ReceiveSide τ) (t : τ) : Prop :=
  ∃ ops : List PeerOp, ops.foldlM T.peer T.start = some t

/-- The read path of a connection is that of a run of its own, from its first packet on. -/
private structure Seen (T : ReceiveSide τ) (ok : Receiving τ → ReceivingLabel → Prop)
    (n : Network τ) (c : ConnId) : Prop where
  driver : ∀ d, n.world.drivers c = some d → (receiving T).ReachableWhile ok (readPathOf n c d)
  fresh : n.world.drivers c = none → Untouched T (n.transport c)

private theorem seenBy_ok (hcalls : OfCalls ok) {l : NetworkLabel} (hok : EachCall c ok n l)
    {d : StreamQuicDriver} (hd : n.world.drivers c = some d) (n' : Network τ) :
    ok (readPathOf n c d) (n'.seenBy c l) := by
  unfold Network.seenBy
  split
  · next c' op =>
    split
    · next hc => exact hok hc d hd
    · exact hcalls _ _ nofun
  · exact hcalls _ _ nofun
  · split <;> exact hcalls _ _ nofun

/-- Without a driver, only the peer changes the connection's transport. -/
private theorem untouched_step (hi : Untouched T (n.transport c)) {l : NetworkLabel}
    (h : (network T).step n l = some n') (hno : n.world.drivers c = none) :
    Untouched T (n'.transport c) := by
  cases l with
  | system l =>
    rcases transport_step (system_step h).1 with ⟨c', d, op, t, -, hd, -, heq⟩ | ⟨-, heq⟩
    · have hc : c ≠ c' := by
        rintro rfl
        rw [hno] at hd
        cases hd
      rw [heq, Function.update_of_ne hc]
      exact hi
    · rw [heq]
      exact hi
  | peer c' op =>
    obtain ⟨t, ht, rfl⟩ := peer_step h
    dsimp only
    by_cases hc : c = c'
    · subst hc
      obtain ⟨ops, hops⟩ := hi
      refine ⟨ops ++ [op], ?_⟩
      rw [Function.update_self, List.foldlM_append, hops]
      simpa using ht
    · rw [Function.update_of_ne hc]
      exact hi

/-- A step keeps the drivers there are, and a driver that it creates is new. -/
private theorem drivers_step (hw : n.world.Linked) {l : NetworkLabel}
    (h : (network T).step n l = some n') :
    (n'.world.drivers c = none → n.world.drivers c = none) ∧
      ∀ d, n.world.drivers c = none → n'.world.drivers c = some d → ∃ chan, d = .build c chan := by
  cases l with
  | peer c' op =>
    obtain ⟨t, -, rfl⟩ := peer_step h
    exact ⟨fun hno ↦ hno, fun d hno hd ↦ by rw [hno] at hd; cases hd⟩
  | system l =>
    have hmove := (step_happens (system_step h).2).drivers hw
    refine ⟨fun hno ↦ ?_, fun d hno hd ↦ ?_⟩
    · rw [Option.eq_none_iff_forall_ne_some]
      intro d hd
      obtain ⟨d', hd'⟩ := hmove.hasDriver ⟨d, hd⟩
      rw [hno] at hd'
      cases hd'
    · cases hmove with
      | kept heq =>
        rw [heq, hno] at hd
        cases hd
      | new c' chan hc hlt hserves heq =>
        rw [heq, Function.update_apply] at hd
        split at hd
        · next hc' =>
          cases hd
          exact ⟨chan, by rw [hc']⟩
        · rw [hno] at hd
          cases hd
      | turned c' e e' he hopen hconn hclosed heq =>
        rw [heq, Function.update_apply] at hd
        split at hd
        · next hc' =>
          subst hc'
          rw [hno] at he
          cases he
        · rw [hno] at hd
          cases hd

private theorem seen_step (hcalls : OfCalls ok) (hw : n.world.Linked) (hi : Seen T ok n c)
    {l : NetworkLabel} (hok : EachCall c ok n l) (h : (network T).step n l = some n') :
    Seen T ok n' c := by
  obtain ⟨hold, hnew⟩ := drivers_step (c := c) hw h
  refine ⟨fun d' hd' ↦ ?_, fun hno ↦ untouched_step (hi.fresh (hold hno)) h (hold hno)⟩
  cases hd : n.world.drivers c with
  | none =>
    obtain ⟨chan, rfl⟩ := hnew d' hd hd'
    exact .init ⟨⟨c, chan, rfl⟩, untouched_step (hi.fresh hd) h hd⟩
  | some d =>
    obtain ⟨d'', hd'', hstep⟩ := readPath_step hw h hd
    rw [hd'] at hd''
    cases hd''
    exact .step _ (hi.driver d hd) (seenBy_ok hcalls hok hd n') hstep

private theorem seen_of_reachable (hcalls : OfCalls ok)
    (h : (network T).ReachableWhile (EachCall c ok) n) : Seen T ok n c := by
  refine h.invariant (I := fun n ↦ Seen T ok n c) ?_ fun n l n' hr hi hok ht ↦
    seen_step hcalls (linked_of_reachable (world_reachable hr)) hi hok ht
  rintro ⟨w, transport⟩ ⟨⟨callback, -, rfl⟩, rfl⟩
  exact ⟨fun d hd ↦ (by cases hd), fun _ ↦ ⟨[], rfl⟩⟩

/-- Whatever the transports answer, the read path of every connection of the system is a run of
the read loop of one connection: with any number of drivers, the server and their peers between
its steps, and with any condition that the calls of its own `process_reads` meet in the run.
`src/quiche/driver.rs:73–129`, `src/quiche/socket.rs:144–237`. -/
theorem readPath_refined (hcalls : OfCalls ok) (h : (network T).ReachableWhile (EachCall c ok) n)
    {d : StreamQuicDriver} (hd : n.world.drivers c = some d) :
    (receiving T).ReachableWhile ok (readPathOf n c d) :=
  (seen_of_reachable hcalls h).driver d hd

private theorem ofCalls_harmlessRefusal : OfCalls (HarmlessRefusal T) := by
  intro s l hl
  cases l with
  | driver op => exact absurd rfl (hl op)
  | _ => trivial

/-- Where the transport does not forget streams and the reservations of a connection are refused
only where the stream in hand is readable or has nothing unread, nothing of it is stranded:
outside `process_reads`, whatever is unread on the connection is in the readable set of its
transport, and the next call comes to it. `src/quiche/driver.rs:73–129`. -/
theorem unread_readable (hT : T.Signals)
    (h : (network T).ReachableWhile (EachCall c (HarmlessRefusal T)) n)
    {d : StreamQuicDriver} (hd : n.world.drivers c = some d) (hidle : d.reading.point = .idle) :
    ∀ id, (T.unread (n.transport c) id).Pending → id ∈ T.readable (n.transport c) := by
  intro id hp
  by_contra hno
  have hhand := inHand_of_reachable hT ((seen_of_reachable ofCalls_harmlessRefusal h).driver d hd)
    id ⟨hp, hno⟩
  rw [readPathOf, hidle] at hhand
  cases hhand

/-- What the peers have sent on each stream: the bytes, and whether the end has come. -/
def peerSent : Account (Network τ) NetworkLabel (ConnId → StreamId → Bytes × Bool) where
  start _ _ := ([], false)
  add a _ l _ :=
    match l with
    | .peer c (.arrive id bytes fin) =>
      Function.update a c (Function.update (a c) id ((a c id).1 ++ bytes, (a c id).2 || fin))
    | _ => a

/-- The peer does not reset the stream. -/
def NotReset (c : ConnId) (id : StreamId) (_ : Network τ × (ConnId → StreamId → Bytes × Bool)) :
    NetworkLabel → Prop
  | .peer c' (.reset id') => c' = c → id' ≠ id
  | _ => True

instance (c : ConnId) (id : StreamId) (p : Network τ × (ConnId → StreamId → Bytes × Bool)) :
    ∀ l, Decidable (NotReset c id p l)
  | .peer _ (.reset _) => inferInstanceAs (Decidable (_ → _))
  | .system _ | .peer _ (.arrive _ _ _) | .peer _ .other => .isTrue trivial

/-- What a peer has sent on a stream was read, or is unread. -/
private structure Sums (T : ReceiveSide τ) (n : Network τ) (sent : Bytes × Bool) (c : ConnId)
    (id : StreamId) : Prop where
  bytes : symbols (n.world.received c id) ++ (T.unread (n.transport c) id).bytes = sent.1
  fin : ((n.world.received c id).any (·.2) || (T.unread (n.transport c) id).fin) = sent.2

private theorem sums_congr {sent : Bytes × Bool} (hi : Sums T n sent c id)
    (hreceived : n'.world.received c id = n.world.received c id)
    (hunread : T.unread (n'.transport c) id = T.unread (n.transport c) id) : Sums T n' sent c id :=
  ⟨by rw [hreceived, hunread, hi.bytes], by rw [hreceived, hunread, hi.fin]⟩

/-- A call of `process_reads` keeps the sum of its connection's stream. -/
private theorem sums_read (hT : T.Ordered) {d : StreamQuicDriver} {events : EventChannel}
    {op : ReadOp} {r : ReadResult} (hr : Reads d events op r) {t t' : τ}
    (ht : T.answered t d.point op = some t') {received : StreamId → List (Bytes × Bool)}
    {sent : Bytes × Bool} (hbytes : symbols (received id) ++ (T.unread t id).bytes = sent.1)
    (hfin : ((received id).any (·.2) || (T.unread t id).fin) = sent.2) :
    symbols (d.recorded received op id) ++ (T.unread t' id).bytes = sent.1 ∧
      ((d.recorded received op id).any (·.2) || (T.unread t' id).fin) = sent.2 := by
  cases hr with
  | received other data fin hp =>
    rw [hp] at ht
    simp only [StreamQuicDriver.recorded, hp]
    by_cases ho : id = other
    · subst ho
      obtain ⟨hbytes', hfin'⟩ := hT.recv_ok _ _ _ _ _ ht
      rw [hbytes'] at hbytes
      rw [hfin'] at hfin
      simp only [Function.update_self]
      exact ⟨by simpa [symbols] using hbytes, by simpa [Bool.or_assoc] using hfin⟩
    · rw [hT.recv_other _ _ _ _ id ht ho]
      simp only [Function.update_of_ne ho]
      exact ⟨hbytes, hfin⟩
  | stopped other e hp =>
    rw [hp] at ht
    have hunread : T.unread t' id = T.unread t id := by
      by_cases ho : id = other
      · subst ho
        exact hT.recv_error _ _ _ _ ht
      · exact hT.recv_other _ _ _ _ id ht ho
    rw [hunread]
    exact ⟨hbytes, hfin⟩
  | finished hp | visit other hp =>
    rw [hT.next _ _ _ ht]
    exact ⟨hbytes, hfin⟩
  | call hp | announced other hp | reserved other hp | refused other hp =>
    cases ht
    exact ⟨hbytes, hfin⟩

private theorem sums_system (hT : T.Ordered) (hw : n.world.Linked) {sent : Bytes × Bool}
    (hi : Sums T n sent c id) {l : Label} (h : (network T).step n (.system l) = some n') :
    Sums T n' sent c id := by
  obtain ⟨htr, hstep⟩ := system_step h
  obtain ⟨w', transport'⟩ := n'
  rcases transport_step htr with ⟨c', e, op, t, rfl, he, ht, rfl⟩ | ⟨hno, rfl⟩
  · cases step_happens hstep with
    | moved l p hm => rcases hm with hm | hm | hm <;> cases hm
    | read c' e' op r he' hr =>
      rw [he] at he'
      cases he'
      obtain rfl := (hw.drivers c' e he).2
      by_cases hc : c = e.connId
      · subst hc
        obtain ⟨hbytes, hfin⟩ := sums_read hT hr ht hi.bytes hi.fin
        refine ⟨?_, ?_⟩
        · simpa only [World.recorded, Function.update_self] using hbytes
        · simpa only [World.recorded, Function.update_self] using hfin
      · refine sums_congr hi ?_ ?_
        · simp only [World.recorded, Function.update_of_ne hc]
        · simp only [Function.update_of_ne hc]
  · refine sums_congr hi ?_ rfl
    cases step_happens hstep with
    | read c' e op r he hr => exact absurd rfl (hno c' op)
    | _ => rfl

private theorem sums_step (hT : T.Ordered) (hw : n.world.Linked)
    {a : ConnId → StreamId → Bytes × Bool} (hi : Sums T n (a c id) c id) {l : NetworkLabel}
    (hok : NotReset c id (n, a) l) (h : (network T).step n l = some n') :
    Sums T n' (peerSent.add a n l n' c id) c id := by
  cases l with
  | system l => exact sums_system hT hw hi h
  | peer c' op =>
    obtain ⟨t, ht, rfl⟩ := peer_step h
    by_cases hc : c = c'
    case neg =>
      have hsame : peerSent.add a n (.peer c' op) ⟨n.world, Function.update n.transport c' t⟩ c =
          a c := by
        cases op with
        | arrive id' bytes fin => exact Function.update_of_ne hc ..
        | reset id' => rfl
        | other => rfl
      rw [hsame]
      exact sums_congr hi rfl (by simp only [Function.update_of_ne hc])
    subst hc
    cases op with
    | reset id' =>
      refine sums_congr hi rfl ?_
      dsimp only
      rw [Function.update_self]
      exact hT.peer_other _ _ _ _ ht fun heq ↦ hok rfl (Option.some.inj heq)
    | other =>
      refine sums_congr hi rfl ?_
      dsimp only
      rw [Function.update_self]
      exact hT.peer_other _ _ _ _ ht nofun
    | arrive id' bytes fin =>
      by_cases hid : id = id'
      · subst hid
        have hunread := hT.arrive _ _ _ _ _ ht
        simp only [peerSent, Function.update_self]
        constructor
        · simp only [Function.update_self, hunread]
          rw [← List.append_assoc, hi.bytes]
        · simp only [Function.update_self, hunread]
          rw [← Bool.or_assoc, hi.fin]
      · simp only [peerSent, Function.update_self, Function.update_of_ne hid]
        refine sums_congr hi rfl ?_
        dsimp only
        rw [Function.update_self]
        exact hT.peer_other _ _ _ _ ht fun heq ↦ hid (Option.some.inj heq).symm

/-- From the peer to PHP, in every run of any number of connections: what has arrived in order on
a stream that PHP hooks and that the peer does not reset is what `on_data` was handed, what waits
on the event channel and what is unread in the transport, in order and each byte once; the end of
the stream is at one of the three places where the peer has sent it, and nowhere before.
`src/quiche/driver.rs:73–129`, `src/quiche/socket.rs:250–341`, `src/stream.rs:9–17`. -/
theorem peer_delivered (hT : T.Ordered) {a : ConnId → StreamId → Bytes × Bool}
    (h : ((network T).withAccount peerSent).ReachableWhile (NotReset c id) (n, a))
    (hclient : clientInitiated id = true) (hserves : n.world.server.Serves c)
    (hs : n.world.Streaming c id) :
    symbols (delivered n.world.server.log c id) ++ symbols (n.world.queued c id) ++
        (T.unread (n.transport c) id).bytes = (a c id).1 ∧
      ((delivered n.world.server.log c id ++ n.world.queued c id).any (·.2) ||
        (T.unread (n.transport c) id).fin) = (a c id).2 := by
  have hsums : Sums T n (a c id) c id := by
    refine h.account_invariant (I := fun n a ↦ Sums T n (a c id) c id) ?_
      fun n a l n' hr hi hok ht ↦
        sums_step hT (linked_of_reachable (world_reachable hr.forget)) hi hok ht
    rintro ⟨w, transport⟩ ⟨⟨callback, -, rfl⟩, rfl⟩
    constructor
    · change [] ++ (T.unread T.start id).bytes = []
      rw [hT.start]
      rfl
    · change (false || (T.unread T.start id).fin) = false
      rw [hT.start]
      rfl
  have hexact := delivered_queued (world_reachable h.forget) hclient hserves hs
  rw [← symbols_append, hexact]
  exact ⟨hsums.bytes, hsums.fin⟩

end

/-- The system after `bind`, with nothing arrived at the transports of `Driver.Receiving`. -/
def quietNetwork : Network Transport := ⟨.start closure, fun _ ↦ Transport.side.start⟩

private theorem init_quietNetwork : (network Transport.side).init quietNetwork :=
  ⟨⟨closure, rfl, rfl⟩, rfl⟩

/-- The peer sends `"a"`, `"b"` and `"c"` with its end on stream 0; `"a"` is handled, `"b"` has
been read. -/
def sendsThree : List NetworkLabel :=
  (arrivals 1).map .system ++ .peer 0 (.arrive 0 [97] false) ::
    [Label.driver 0 (.read .call), .driver 0 (.read (.readableNext (some 0))),
      .driver 0 (.read .tryReserve), .driver 0 (.read .tryReserve),
      .driver 0 (.read (.streamRecv (.ok ([97], false))))].map .system ++
    .peer 0 (.arrive 0 [98] false) ::
    [Label.driver 0 (.read .tryReserve), .driver 0 (.read (.streamRecv (.ok ([98], false)))),
      .pollEvents [⟨[.setOnData 0 closure], none⟩], .pollEvents []].map .system ++
    [.peer 0 (.arrive 0 [99] true)]

/-- One byte is with PHP, one on the channel, one with the end in the transport. -/
theorem sendsThree_delivered :
    ∃ n a, ((network Transport.side).withAccount peerSent).run
        (quietNetwork, fun _ _ ↦ ([], false)) sendsThree = some (n, a) ∧
      n.world.queued 0 0 = [([98], false)] ∧
      symbols (delivered n.world.server.log 0 0) ++ symbols (n.world.queued 0 0) ++
        (Transport.side.unread (n.transport 0) 0).bytes = (a 0 0).1 ∧
      ((delivered n.world.server.log 0 0 ++ n.world.queued 0 0).any (·.2) ||
        (Transport.side.unread (n.transport 0) 0).fin) = (a 0 0).2 := by
  have hrun : (((network Transport.side).withAccount peerSent).run
      (quietNetwork, fun _ _ ↦ ([], false)) sendsThree).map (fun p ↦ (p.1.world.queued 0 0,
        decide (p.1.world.server.connections[0]? ≠ none ∧
          (∀ e ∈ p.1.world.server.log, e.Hooks 0 0) ∧ (∀ e ∈ p.1.world.server.log, e.Spares 0 0) ∧
          ∀ ev ∈ (p.1.world.handledOn 0 0).dropLast, ev.isFin = false))) =
      some ([([98], false)], true) := by decide +kernel
  have hok : ((network Transport.side).withAccount peerSent).Along (NotReset 0 0)
      (quietNetwork, fun _ _ ↦ ([], false)) sendsThree := by decide +kernel
  obtain ⟨⟨n, a⟩, hn, heq⟩ := Option.map_eq_some_iff.mp hrun
  simp only [Prod.mk.injEq, decide_eq_true_eq] at heq
  obtain ⟨hqueued, hrecord, hhooks, hspares, hends⟩ := heq
  have hinit : ((network Transport.side).withAccount peerSent).init
      (quietNetwork, fun _ _ ↦ ([], false)) := ⟨init_quietNetwork, rfl⟩
  have hserves : n.world.server.Serves 0 := .inl (Option.ne_none_iff_exists'.mp hrecord)
  have hsum := peer_delivered Transport.side_ordered (.run (.init hinit) hok hn) (by decide) hserves
    ⟨hhooks, hspares, hends⟩
  exact ⟨n, a, hn, hqueued, hsum⟩

/-- The driver announces stream 0 and reads all there is on it. -/
def readsOne : List Label :=
  arrivals 1 ++
    [.driver 0 (.read .call), .driver 0 (.read (.readableNext (some 0))),
      .driver 0 (.read .tryReserve), .driver 0 (.read .tryReserve),
      .driver 0 (.read (.streamRecv (.ok ([97], false)))), .driver 0 (.read .tryReserve),
      .driver 0 (.read (.streamRecv (.error .done))), .driver 0 (.read (.readableNext none))]

/-- The peer sends more when `process_reads` has returned. -/
def sendsAgain : List NetworkLabel :=
  .peer 0 (.arrive 0 [97] false) :: readsOne.map .system ++ [.peer 0 (.arrive 0 [98] true)]

private theorem sendsAgain_reached :
    ∃ n d, (network Transport.side).run quietNetwork sendsAgain = some n ∧
      n.world.drivers 0 = some d ∧ d.reading.point = .idle ∧
      (Transport.side.unread (n.transport 0) 0).Pending ∧
      (network Transport.side).ReachableWhile (EachCall 0 (HarmlessRefusal Transport.side)) n := by
  have hrun : ((network Transport.side).run quietNetwork sendsAgain).map (fun n ↦
      ((n.world.drivers 0).map (·.reading.point),
        decide (Transport.side.unread (n.transport 0) 0).Pending)) =
      some (some .idle, true) := by decide +kernel
  have hok : (network Transport.side).Along (EachCall 0 (HarmlessRefusal Transport.side))
      quietNetwork sendsAgain := by decide +kernel
  obtain ⟨n, hn, heq⟩ := Option.map_eq_some_iff.mp hrun
  simp only [Prod.mk.injEq, decide_eq_true_eq] at heq
  obtain ⟨d, hd, hpoint⟩ := Option.map_eq_some_iff.mp heq.1
  exact ⟨n, d, hn, hd, hpoint, heq.2, .run (.init init_quietNetwork) hok hn⟩

/-- Its read path is a run of the read loop. -/
theorem sendsAgain_refined :
    ∃ n d, (network Transport.side).run quietNetwork sendsAgain = some n ∧
      n.world.drivers 0 = some d ∧
      (receiving Transport.side).ReachableWhile (HarmlessRefusal Transport.side)
        (readPathOf n 0 d) := by
  obtain ⟨n, d, hn, hd, -, -, hreach⟩ := sendsAgain_reached
  exact ⟨n, d, hn, hd, readPath_refined ofCalls_harmlessRefusal hreach hd⟩

/-- What the peer has sent since is readable. -/
theorem sendsAgain_readable :
    ∃ n, (network Transport.side).run quietNetwork sendsAgain = some n ∧
      (Transport.side.unread (n.transport 0) 0).Pending ∧
      0 ∈ Transport.side.readable (n.transport 0) := by
  obtain ⟨n, d, hn, hd, hidle, hpend, hreach⟩ := sendsAgain_reached
  exact ⟨n, hn, hpend, unread_readable Transport.side_signals hreach hd hidle 0 hpend⟩

end ExtQuiche.System
