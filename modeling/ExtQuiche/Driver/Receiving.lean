import ExtQuiche.Driver.Readiness

/-!
# Reading from any transport

Library `Driver`. `process_reads`, `src/quiche/driver.rs:73–129`, against a transport that is a
parameter. What the read loop relies on are two contracts of the transport, each a record of
named laws: that it does not forget a stream with something unread, and that it hands out what
has arrived in order. A last section gives a transport that meets both.
-/

namespace ExtQuiche.Driver
open ExtQuiche.Base ExtQuiche.Conn

/-- The two calls of the read loop: the transport after an answer, `none` where it cannot give
that answer. -/
structure Answers (τ : Type) where
  readableNext : τ → Option StreamId → Option τ
  streamRecv : τ → StreamId → Except QuicheError (Bytes × Bool) → Option τ

/-- The transport after its answer to a call made from `point`. -/
def Answers.answered {τ : Type} (T : Answers τ) (t : τ) (point : Point) : ReadOp → Option τ
  | .call => some t
  | .tryReserve => some t
  | .readableNext answer => T.readableNext t answer
  | .streamRecv answer =>
    match point with
    | .recv id => T.streamRecv t id answer
    | _ => none

/-- A call of the driver is an answer of the transport and a step of `process_reads`. -/
theorem Answers.reads_of_call {τ σ : Type} {T : Answers τ} {t : τ} {d : StreamQuicDriver}
    {events : EventChannel} {op : ReadOp} {f : τ → ReadResult → σ} {s : σ}
    (h : ((T.answered t d.point op).bind fun tr ↦ (readStep d events op).map (f tr)) = some s) :
    ∃ tr r, T.answered t d.point op = some tr ∧ Reads d events op r ∧ s = f tr r := by
  obtain ⟨tr, htr, hmap⟩ := Option.bind_eq_some_iff.mp h
  obtain ⟨r, hr, rfl⟩ := Option.map_eq_some_iff.mp hmap
  exact ⟨tr, r, htr, readStep_reads hr, rfl⟩

/-- What happens at the receive side between the calls of the read loop: bytes or the end of a
stream become available in order, the peer resets a stream, or something else, such as a timer,
a send or a packet without stream data. -/
inductive PeerOp where
  | arrive (id : StreamId) (bytes : Bytes) (fin : Bool)
  | reset (id : StreamId)
  | other
  deriving DecidableEq

/-- The stream that the peer is at work on. -/
def PeerOp.streamId? : PeerOp → Option StreamId
  | .arrive id _ _ => some id
  | .reset id => some id
  | .other => none

/-- The receive side of a connection's transport: its states, its answers, and what it holds. -/
structure ReceiveSide (τ : Type) extends Answers τ where
  start : τ
  peer : τ → PeerOp → Option τ
  readable : τ → Finset StreamId
  unread : τ → StreamId → Unread

namespace ReceiveSide

variable {τ : Type} (T : ReceiveSide τ)

/-- Something on the stream is unread, and the stream is not in the readable set. -/
def Forgets (t : τ) (id : StreamId) : Prop := (T.unread t id).Pending ∧ id ∉ T.readable t

instance (t : τ) (id : StreamId) : Decidable (T.Forgets t id) :=
  inferInstanceAs (Decidable (_ ∧ _))

/-- The transport does not forget a stream. Only the id that `stream_readable_next` returns
leaves the readable set while something is unread; after a `stream_recv` on it that fails,
nothing is unread or the stream is readable; and what a peer sends makes its stream readable
where nothing was unread. A successful `stream_recv` may put the id back or not. -/
structure Signals : Prop where
  start : ∀ id, ¬ T.Forgets T.start id
  next : ∀ t answer t' id, T.readableNext t answer = some t' → T.Forgets t' id →
    T.Forgets t id ∨ answer = some id
  recv : ∀ t id answer t' other, T.streamRecv t id answer = some t' → T.Forgets t' other →
    other ≠ id ∧ T.Forgets t other ∨ other = id ∧ ∃ chunk, answer = .ok chunk
  peer : ∀ t op t' id, T.peer t op = some t' → T.Forgets t' id → T.Forgets t id

/-- The transport hands out what has arrived on a stream in order: a successful `stream_recv`
takes the first unread bytes, and the fin no earlier than with the last of them, an error takes
nothing, and only what a peer sends on a stream adds to it. A reset does as it likes with the
stream that it resets. -/
structure Ordered : Prop where
  start : ∀ id, T.unread T.start id = ⟨[], false⟩
  next : ∀ t answer t', T.readableNext t answer = some t' → T.unread t' = T.unread t
  recv_ok : ∀ t id data fin t', T.streamRecv t id (.ok (data, fin)) = some t' →
    (T.unread t id).bytes = data ++ (T.unread t' id).bytes ∧
      (T.unread t id).fin = (fin || (T.unread t' id).fin)
  recv_error : ∀ t id e t', T.streamRecv t id (.error e) = some t' →
    T.unread t' id = T.unread t id
  recv_other : ∀ t id answer t' other, T.streamRecv t id answer = some t' → other ≠ id →
    T.unread t' other = T.unread t other
  arrive : ∀ t id bytes fin t', T.peer t (.arrive id bytes fin) = some t' →
    T.unread t' id = ⟨(T.unread t id).bytes ++ bytes, (T.unread t id).fin || fin⟩
  peer_other : ∀ t op t' other, T.peer t op = some t' → op.streamId? ≠ some other →
    T.unread t' other = T.unread t other

end ReceiveSide

/-- One driver, the shared event channel and the driver's transport. -/
structure Receiving (τ : Type) where
  driver : StreamQuicDriver
  events : EventChannel
  transport : τ

/-- A call of the driver, a change of the shared channel by the other parties, or the peer at
work. -/
inductive ReceivingLabel where
  | driver (op : ReadOp)
  | others (events : EventChannel)
  | peer (op : PeerOp)

/-- One step. -/
def Receiving.step {τ : Type} (T : ReceiveSide τ) (s : Receiving τ) :
    ReceivingLabel → Option (Receiving τ)
  | .driver op =>
    (T.answered s.transport s.driver.point op).bind fun transport ↦
      (readStep s.driver s.events op).map fun r ↦ ⟨r.driver, r.events, transport⟩
  | .others events => some { s with events }
  | .peer op => (T.peer s.transport op).map fun transport ↦ { s with transport }

/-- A new driver, whose peer may have been at work already. -/
def Receiving.Init {τ : Type} (T : ReceiveSide τ) (s : Receiving τ) : Prop :=
  (∃ connId chan, s.driver = .build connId chan) ∧
    ∃ ops : List PeerOp, ops.foldlM T.peer T.start = some s.transport

/-- Runs of one driver against its transport. -/
def receiving {τ : Type} (T : ReceiveSide τ) : Machine (Receiving τ) ReceivingLabel :=
  ⟨Receiving.Init T, Receiving.step T⟩

section

variable {τ : Type} {T : ReceiveSide τ} {s t : Receiving τ}

/-- A reservation is refused only where the transport will come back to the stream in hand, or
nothing on it is unread. -/
def HarmlessRefusal (T : ReceiveSide τ) (s : Receiving τ) : ReceivingLabel → Prop
  | .driver .tryReserve => ¬ s.events.HasRoom → ∀ id ∈ s.driver.point.inHand,
      ¬ T.Forgets s.transport id
  | _ => True

instance (T : ReceiveSide τ) (s : Receiving τ) : ∀ l, Decidable (HarmlessRefusal T s l)
  | .driver .tryReserve =>
    inferInstanceAs (Decidable (¬ s.events.HasRoom → ∀ id ∈ s.driver.point.inHand,
      ¬ T.Forgets s.transport id))
  | .driver (.streamRecv _) | .driver .call | .driver (.readableNext _) | .others _ | .peer _ =>
    .isTrue trivial

/-- What the transport has forgotten is in the driver's hand. -/
def InHand (T : ReceiveSide τ) (s : Receiving τ) : Prop :=
  ∀ id, T.Forgets s.transport id → s.driver.point.inHand = some id

/-- The peer makes the transport forget nothing. -/
theorem forgets_of_peers (hT : T.Signals) {ops : List PeerOp} {tr : τ}
    (h : ops.foldlM T.peer T.start = some tr) (id : StreamId) : ¬ T.Forgets tr id := by
  have hall : ∀ (ops : List PeerOp) (u : τ), ¬ T.Forgets u id →
      ops.foldlM T.peer u = some tr → ¬ T.Forgets tr id := by
    intro ops
    induction ops with
    | nil =>
      intro u hu h
      cases h
      exact hu
    | cons op ops ih =>
      intro u hu h
      rw [List.foldlM_cons] at h
      obtain ⟨v, hv, hrest⟩ := Option.bind_eq_some_iff.mp h
      exact ih v (fun hf ↦ hu (hT.peer u op v id hv hf)) hrest
  exact hall ops T.start (hT.start id) h

private theorem inHand_driver (hT : T.Signals) (hi : InHand T s) {op : ReadOp}
    (hok : HarmlessRefusal T s (.driver op)) (h : (receiving T).step s (.driver op) = some t) :
    InHand T t := by
  obtain ⟨tr, r, htr, hreads, rfl⟩ := Answers.reads_of_call h
  intro id hf
  cases hreads with
  | call hp =>
    cases htr
    simpa [Point.inHand, hp] using hi id hf
  | finished hp =>
    have hold := (hT.next _ _ _ id htr hf).resolve_right (by simp)
    simpa [Point.inHand, hp] using hi id hold
  | visit other hp =>
    rcases hT.next _ _ _ id htr hf with hold | heq
    · simpa [Point.inHand, hp] using hi id hold
    · rw [← heq]
      exact visit_inHand s.driver other
  | announced other hp hroom =>
    cases htr
    simpa [Point.inHand, hp] using hi id hf
  | reserved other hp hroom =>
    cases htr
    simpa [Point.inHand, hp] using hi id hf
  | refused other hp hroom =>
    cases htr
    exact absurd hf (hok hroom id (hi id hf))
  | received other data fin hp =>
    rw [hp] at htr
    rcases hT.recv _ _ _ _ id htr hf with ⟨hne, hold⟩ | ⟨rfl, -⟩
    · have hhand := hi id hold
      rw [hp] at hhand
      exact absurd (Option.some.inj hhand).symm hne
    · rfl
  | stopped other e hp =>
    rw [hp] at htr
    rcases hT.recv _ _ _ _ id htr hf with ⟨hne, hold⟩ | ⟨-, chunk, hno⟩
    · have hhand := hi id hold
      rw [hp] at hhand
      exact absurd (Option.some.inj hhand).symm hne
    · cases hno

/-- Between the calls of `process_reads` nothing is forgotten, as long as refusals are harmless. -/
theorem inHand_of_reachable (hT : T.Signals)
    (h : (receiving T).ReachableWhile (HarmlessRefusal T) s) : InHand T s := by
  refine h.invariant (I := InHand T) ?_ ?_
  · rintro s ⟨-, ops, hops⟩ id hf
    exact absurd hf (forgets_of_peers hT hops id)
  · intro s l t _ hi hok ht
    cases l with
    | driver op => exact inHand_driver hT hi hok ht
    | others events =>
      cases ht
      exact hi
    | peer op =>
      obtain ⟨tr, htr, rfl⟩ := Option.map_eq_some_iff.mp ht
      exact fun id hf ↦ hi id (hT.peer _ _ _ id htr hf)

end

namespace Transport

/-- A stream is readable after a read as long as something on it is unread. -/
def marked (t : Transport) (id : StreamId) : Transport :=
  { t with readable :=
      if (t.unread id).Pending then insert id t.readable else t.readable.erase id }

/-- `stream_recv`, after which a stream that is not read to its end is readable. -/
def recvPart (t : Transport) (id : StreamId) (answer : Except QuicheError (Bytes × Bool)) :
    Option Transport :=
  (t.answer (.recv id) (.streamRecv answer)).map (·.marked id)

/-- The peer at work; a stream that it resets becomes readable, to be answered with an error. -/
def peerStep (t : Transport) : PeerOp → Option Transport
  | .arrive id bytes fin => some (t.arrive id bytes fin)
  | .reset id => some { t.reset id with readable := insert id t.readable }
  | .other => some t

/-- A transport that keeps a stream readable until it is read to its end or its reset is known. -/
def side : ReceiveSide Transport where
  readableNext t answer := t.answer .readableNext (.readableNext answer)
  streamRecv := recvPart
  start := ⟨∅, fun _ ↦ ⟨[], false⟩⟩
  peer := peerStep
  readable := readable
  unread := unread

private theorem marked_subset (t : Transport) (id : StreamId) :
    (t.marked id).readable ⊆ insert id t.readable := by
  unfold marked
  split
  · exact Finset.Subset.refl _
  · exact (Finset.erase_subset _ _).trans (Finset.subset_insert _ _)

private theorem mem_marked {t : Transport} {id other : StreamId} (ho : other ≠ id)
    (h : other ∈ t.readable) : other ∈ (t.marked id).readable := by
  unfold marked
  split
  · exact Finset.mem_insert_of_mem h
  · exact Finset.mem_erase.mpr ⟨ho, h⟩

/-- A successful read takes what it returns, and may put its stream back. -/
theorem recvPart_ok {t t' : Transport} {id : StreamId} {data : Bytes} {fin : Bool}
    (h : t.recvPart id (.ok (data, fin)) = some t') :
    Delivers (t.unread id) data fin ∧ t'.readable ⊆ insert id t.readable ∧
      (∀ other ∈ t.readable, other ≠ id → other ∈ t'.readable) ∧
      t'.unread = Function.update t.unread id
        ⟨(t.unread id).bytes.drop data.length, (t.unread id).fin && !fin⟩ := by
  obtain ⟨u, hu, rfl⟩ := Option.map_eq_some_iff.mp h
  simp only [answer] at hu
  split at hu
  · next hdel =>
    cases hu
    exact ⟨hdel, marked_subset _ id, fun _ hm ho ↦ mem_marked ho hm, rfl⟩
  · cases hu

/-- A failed read finds nothing and takes nothing. -/
theorem recvPart_error {t t' : Transport} {id : StreamId} {e : QuicheError}
    (h : t.recvPart id (.error e) = some t') :
    ¬ (t.unread id).Pending ∧ t'.unread = t.unread ∧ t'.readable = t.readable.erase id := by
  obtain ⟨u, hu, rfl⟩ := Option.map_eq_some_iff.mp h
  simp only [answer] at hu
  split at hu
  · cases hu
  · next hno =>
    cases hu
    exact ⟨hno, rfl, if_neg hno⟩

private theorem next_cases {t t' : Transport} {answer : Option StreamId}
    (h : side.readableNext t answer = some t') :
    t' = { t with readable := answer.elim t.readable t.readable.erase } := by
  cases answer with
  | none =>
    simp only [side, Transport.answer] at h
    split at h <;> cases h
    rfl
  | some id =>
    simp only [side, Transport.answer] at h
    split at h <;> cases h
    rfl

/-- It does not forget a stream. -/
theorem side_signals : side.Signals where
  start id hf := by simp [ReceiveSide.Forgets, side, Unread.Pending] at hf
  next t answer t' id h hf := by
    obtain rfl := next_cases h
    obtain ⟨hp, hno⟩ := hf
    cases answer with
    | none => exact .inl ⟨hp, hno⟩
    | some other =>
      by_cases ho : id = other
      · exact .inr (congrArg some ho.symm)
      · exact .inl ⟨hp, fun hm ↦ hno (Finset.mem_erase.mpr ⟨ho, hm⟩)⟩
  recv t id answer t' other h hf := by
    obtain ⟨hp, hno⟩ := hf
    cases answer with
    | ok chunk =>
      obtain ⟨-, -, hkept, hunread⟩ := recvPart_ok h
      by_cases ho : other = id
      · exact .inr ⟨ho, chunk, rfl⟩
      · refine .inl ⟨ho, ?_, fun hm ↦ hno (hkept other hm ho)⟩
        simpa [side, hunread, ho] using hp
    | error e =>
      obtain ⟨hnone, hunread, hread⟩ := recvPart_error (e := e) h
      simp only [side, hunread, hread] at hp hno
      have ho : other ≠ id := by
        rintro rfl
        exact hnone hp
      exact .inl ⟨ho, hp, fun hm ↦ hno (Finset.mem_erase.mpr ⟨ho, hm⟩)⟩
  peer t op t' id h hf := by
    obtain ⟨hp, hno⟩ := hf
    cases op with
    | arrive other bytes fin =>
      cases h
      by_cases ho : id = other
      · subst ho
        by_cases hold : (t.unread id).Pending
        · exact ⟨hold, by simpa [side, arrive, hold] using hno⟩
        · -- what arrives on an empty stream makes it readable
          have hmem : id ∈ (t.arrive id bytes fin).readable := by
            simp only [side, arrive, Function.update_self] at hp
            simp [arrive, hold, hp]
          exact absurd hmem hno
      · have hsub : t.readable ⊆ (t.arrive other bytes fin).readable := by
          simp only [arrive]
          split
          · exact Finset.subset_insert _ _
          · exact Finset.Subset.refl _
        exact ⟨by simpa [side, arrive, ho] using hp, fun hm ↦ hno (hsub hm)⟩
    | reset other =>
      cases h
      by_cases ho : id = other
      · subst ho
        exact absurd (Finset.mem_insert_self _ _) hno
      · exact ⟨by simpa [side, reset, ho] using hp, fun hm ↦ hno (Finset.mem_insert_of_mem hm)⟩
    | other =>
      cases h
      exact ⟨hp, hno⟩

/-- It hands out what has arrived in order. -/
theorem side_ordered : side.Ordered where
  start _ := rfl
  next t answer t' h := by
    obtain rfl := next_cases h
    rfl
  recv_ok t id data fin t' h := by
    obtain ⟨⟨⟨rest, hrest⟩, -, hend, -⟩, -, -, hunread⟩ := recvPart_ok h
    simp only [side, hunread, Function.update_self]
    refine ⟨by rw [← hrest, List.drop_left], ?_⟩
    cases fin with
    | false => simp
    | true => simp [(hend rfl).1]
  recv_error t id e t' h := by
    obtain ⟨-, hunread, -⟩ := recvPart_error (e := e) h
    exact congrFun hunread id
  recv_other t id answer t' other h ho := by
    cases answer with
    | ok chunk =>
      obtain ⟨-, -, -, hunread⟩ := recvPart_ok h
      simp [side, hunread, ho]
    | error e =>
      obtain ⟨-, hunread, -⟩ := recvPart_error (e := e) h
      exact congrFun hunread other
  arrive t id bytes fin t' h := by
    cases h
    exact Function.update_self ..
  peer_other t op t' other h ho := by
    cases op with
    | arrive id bytes fin =>
      cases h
      exact Function.update_of_ne (fun heq ↦ ho (congrArg some heq.symm)) ..
    | reset id =>
      cases h
      exact Function.update_of_ne (fun heq ↦ ho (congrArg some heq.symm)) ..
    | other =>
      cases h
      rfl

end Transport

end ExtQuiche.Driver
