import ExtQuiche.Base.Progress
import ExtQuiche.Driver.Conservation

/-!
# One write pass, stream by stream

Library `Driver`. A call of `process_writes`, `src/quiche/driver.rs:131–173`, against a
transport whose answer on a stream depends on the earlier sends on that stream only. The
pass visits all queues inside one `retain`; what it does to a stream is compared with a
flush of that stream's queue alone, which knows no other stream and no map.
-/

namespace ExtQuiche.Driver
open ExtQuiche.Base ExtQuiche.Conn

/-- A transport whose streams are independent of each other. -/
structure StreamwiseTransport where
  answer : StreamId → List (Piece UInt8) → Piece UInt8 → Except QuicheError Nat
  possible : ∀ id earlier p, Possible p (answer id earlier p)

/-- One stream in a pass: all sends on it so far, what the transport took of them, the
pieces that wait, and the last send of the pass with its answer. -/
@[ext] structure Lane where
  sends : List (Piece UInt8)
  accepted : List (Piece UInt8)
  queue : List (Piece UInt8)
  last : Option (Piece UInt8 × Except QuicheError Nat)

namespace StreamwiseTransport

variable (T : StreamwiseTransport) (id : StreamId)

/-- A queue is flushed alone: whole pieces and pieces with a hard error leave it, and it
stops at the first piece that is refused or taken in part. -/
def flushAlone (sends accepted : List (Piece UInt8))
    (last : Option (Piece UInt8 × Except QuicheError Nat)) : List (Piece UInt8) → Lane
  | [] => ⟨sends, accepted, [], last⟩
  | p :: rest =>
    match T.answer id sends p with
    | .ok n =>
      if n = p.1.length then
        flushAlone (sends ++ [p]) (accepted ++ [p]) (some (p, .ok n)) rest
      else
        ⟨sends ++ [p], accepted ++ taken p (.ok n), (p.1.drop n, p.2) :: rest, some (p, .ok n)⟩
    | .error .done => ⟨sends ++ [p], accepted, p :: rest, some (p, .error .done)⟩
    | .error e => flushAlone (sends ++ [p]) accepted (some (p, .error e)) rest

/-- The flush of a stream goes on from where it stands. -/
def flushed (lane : Lane) : Lane := T.flushAlone id lane.sends lane.accepted lane.last lane.queue

end StreamwiseTransport

/-- A driver inside `process_writes`, with the transport's account by stream. -/
structure Pass where
  driver : StreamQuicDriver
  tx : Channel StreamWriter
  sends : StreamId → List (Piece UInt8)
  accepted : StreamId → List (Piece UInt8)
  last : StreamId → Option (Piece UInt8 × Except QuicheError Nat)

/-- A call inside `process_writes`; the transport gives its answer to a send. -/
inductive PassLabel where
  | tryRecv
  | retain (order : List StreamId)
  | streamSend
  | queueEmpty
  | finish

namespace Pass

/-- A call that is no send. -/
def local? (s : Pass) (op : WriteOp) : Option Pass :=
  (writeStep s.driver s.tx op).map fun r ↦ { s with driver := r.driver, tx := r.tx }

/-- The head of a stream's queue is sent, and the transport answers. -/
def send (T : StreamwiseTransport) (s : Pass) (id : StreamId) (p : Piece UInt8) : Option Pass :=
  let answer := T.answer id (s.sends id) p
  (writeStep s.driver s.tx (.streamSend answer)).map fun r ↦
    { driver := r.driver
      tx := r.tx
      sends := Function.update s.sends id (s.sends id ++ [p])
      accepted := Function.update s.accepted id (s.accepted id ++ taken p answer)
      last := Function.update s.last id (some (p, answer)) }

/-- One step of the pass. -/
def step (T : StreamwiseTransport) (s : Pass) : PassLabel → Option Pass
  | .tryRecv => s.local? .tryRecv
  | .retain order => s.local? (.retain order)
  | .streamSend => s.driver.sending.bind fun (id, p) ↦ s.send T id p
  | .queueEmpty => s.local? .queueEmpty
  | .finish => s.local? .finish

/-- `process_writes` has been called and has sent nothing yet. -/
def Called (s : Pass) : Prop := s.driver.point = .drainWrites ∧ ∀ id, s.last id = none

/-- `process_writes` has returned. -/
def Returned (s : Pass) : Prop := s.driver.point = .idle

/-- What the pass has made of a stream so far. -/
def lane (s : Pass) (id : StreamId) : Lane :=
  ⟨s.sends id, s.accepted id, queueOf s.driver.pendingWrites id, s.last id⟩

/-- A stream with its own queue: the old entries, then the chunks in the channel. -/
def own (s : Pass) (id : StreamId) : Lane :=
  { s.lane id with queue := queueOf s.driver.pendingWrites id ++ chunksOf id s.tx.queue }

end Pass

/-- Calls of `process_writes`, one at a time, from any state of the driver. -/
def pass (T : StreamwiseTransport) : Machine Pass PassLabel := ⟨Pass.Called, Pass.step T⟩

/-- What the last send left at the head: its piece after `Done`, the rest of it where it was
taken in part. -/
def refused : Option (Piece UInt8 × Except QuicheError Nat) → Option (Piece UInt8)
  | some (p, .ok n) => if n = p.1.length then none else some (p.1.drop n, p.2)
  | some (p, .error .done) => some p
  | some (_, .error _) => none
  | none => none

/-- What `process_writes` leaves of a stream: the result of flushing its own queue alone, and
an entry exactly where the last send was refused, whose head is what was not taken. -/
structure FlushedAlone (T : StreamwiseTransport) (s t : Pass) (id : StreamId) : Prop where
  result : t.lane id = T.flushed id (s.own id)
  entry : t.driver.pendingWrites[id]?.isSome = true ↔ refused (t.last id) ≠ none
  head : ∀ queue, t.driver.pendingWrites[id]? = some queue → queue.head? = refused (t.last id)

section

variable {T : StreamwiseTransport} {id : StreamId}

/-- A flush takes one send at a time. -/
theorem flushed_send (sends accepted : List (Piece UInt8))
    (last : Option (Piece UInt8 × Except QuicheError Nat)) (p : Piece UInt8)
    (rest : List (Piece UInt8)) {answer : Except QuicheError Nat}
    (ha : T.answer id sends p = answer) :
    T.flushed id ⟨sends, accepted, p :: rest, last⟩ =
      if (afterSend p.1 p.2 rest answer).2 then
        T.flushed id ⟨sends ++ [p], accepted ++ taken p answer, (afterSend p.1 p.2 rest answer).1,
          some (p, answer)⟩
      else ⟨sends ++ [p], accepted ++ taken p answer, (afterSend p.1 p.2 rest answer).1,
        some (p, answer)⟩ := by
  simp only [StreamwiseTransport.flushed, StreamwiseTransport.flushAlone, ha]
  cases answer with
  | ok n =>
    by_cases hn : n = p.1.length
    · simp [afterSend, taken, hn]
    · simp [afterSend, hn]
  | error e => cases e <;> simp [afterSend, taken]

/-- A flush that ends with a queue has been refused its head. -/
theorem flushed_head {sends accepted queue : List (Piece UInt8)}
    {last : Option (Piece UInt8 × Except QuicheError Nat)} (hlast : refused last = none) :
    (T.flushAlone id sends accepted last queue).queue.head? =
      refused (T.flushAlone id sends accepted last queue).last := by
  induction queue generalizing sends accepted last with
  | nil => exact hlast.symm
  | cons p rest ih =>
    unfold StreamwiseTransport.flushAlone
    split
    · next n hn =>
      split
      · next hlen => exact ih (by simp [refused, hlen])
      · next hlen => simp [refused, hlen]
    · rfl
    · next e hne he => exact ih (by cases e <;> simp_all [refused])

end

/-- Inside `retain` each stream has been flushed alone, or will be from where it stands. -/
structure Flushing (T : StreamwiseTransport) (s t : Pass) (todo : List StreamId) : Prop where
  nodup : todo.Nodup
  visiting : ∀ id ∈ todo, T.flushed id (t.lane id) = T.flushed id (s.own id)
  visited : ∀ id ∉ todo, t.lane id = T.flushed id (s.own id) ∧
    t.driver.pendingWrites[id]? ≠ some []

/-- How far a pass that was called in `s` has come in `t`. -/
def Passing (T : StreamwiseTransport) (s t : Pass) : Prop :=
  match t.driver.point with
  | .drainWrites => ∀ id, t.own id = s.own id
  | .retain => ∀ id, t.lane id = s.own id
  | .flush todo => Flushing T s t todo
  | .idle => Flushing T s t []
  | _ => False

section

variable {T : StreamwiseTransport} {s t u : Pass}

private theorem passing_tryRecv (hi : Passing T s t) (h : t.local? .tryRecv = some u) :
    Passing T s u := by
  obtain ⟨r, hr, rfl⟩ := Option.map_eq_some_iff.mp h
  unfold Passing at hi
  cases writeStep_writes hr with
  | drained chunk rest hp hq =>
    rw [hp] at hi
    have hown : ∀ id, Pass.own { t with
        driver := t.driver.enqueue chunk, tx := { t.tx with queue := rest } } id = s.own id := by
      intro id
      rw [← hi id, Pass.own, Pass.own, enqueue_waiting, hq]
      rfl
    unfold Passing
    simpa [StreamQuicDriver.enqueue, hp] using hown
  | drainedAll hp hq =>
    rw [hp] at hi
    intro id
    rw [← hi id, Pass.own, hq]
    simp [Pass.lane, chunksOf]

private theorem passing_retain {order : List StreamId} (hi : Passing T s t)
    (h : t.local? (.retain order) = some u) : Passing T s u := by
  obtain ⟨r, hr, rfl⟩ := Option.map_eq_some_iff.mp h
  unfold Passing at hi
  cases writeStep_writes hr with
  | retain _ hp horder =>
    rw [hp] at hi
    refine ⟨horder.nodup_iff.mpr Std.ExtTreeMap.nodup_keys, fun id _ ↦ ?_, fun id hid ↦ ?_⟩
    · rw [← hi id]
      rfl
    · -- a stream without an entry has nothing to flush
      rw [horder.mem_iff, Std.ExtTreeMap.mem_keys] at hid
      have hnone : t.driver.pendingWrites[id]? = none := Std.ExtTreeMap.getElem?_eq_none hid
      have hempty : queueOf t.driver.pendingWrites id = [] := by simp [queueOf, hnone]
      rw [← hi id, hnone]
      refine ⟨?_, fun hno ↦ by cases hno⟩
      simp only [Pass.lane, hempty]
      rfl

private theorem passing_queueEmpty (hi : Passing T s t) (h : t.local? .queueEmpty = some u) :
    Passing T s u := by
  obtain ⟨r, hr, rfl⟩ := Option.map_eq_some_iff.mp h
  unfold Passing at hi
  cases writeStep_writes hr with
  | emptied id todo hp hq =>
    rw [hp] at hi
    have hlane : ∀ other, Pass.lane { t with driver := { t.driver with
        pendingWrites := t.driver.pendingWrites.erase id, point := .flush todo } } other =
          t.lane other := by
      intro other
      simp only [Pass.lane, queueOf_erase]
      split
      · next heq => rw [heq, hq]
      · rfl
    have hnodup := List.nodup_cons.mp hi.nodup
    refine ⟨hnodup.2, fun other ho ↦ ?_, fun other ho ↦ ?_⟩
    · rw [hlane]
      exact hi.visiting other (List.mem_cons_of_mem _ ho)
    · rw [hlane]
      by_cases heq : other = id
      · subst heq
        refine ⟨?_, by simp⟩
        rw [← hi.visiting other (List.mem_cons_self ..)]
        simp only [Pass.lane, hq]
        rfl
      · refine (hi.visited other (by simp [heq, ho])).imp_right fun hne ↦ ?_
        simpa [Std.ExtTreeMap.getElem?_erase, Ne.symm heq] using hne

private theorem passing_finish (hi : Passing T s t) (h : t.local? .finish = some u) :
    Passing T s u := by
  obtain ⟨r, hr, rfl⟩ := Option.map_eq_some_iff.mp h
  unfold Passing at hi
  cases writeStep_writes hr with
  | finished hp =>
    rw [hp] at hi
    exact ⟨hi.nodup, hi.visiting, hi.visited⟩

private theorem afterSend_refused {bytes : Bytes} {fin : Bool} {rest : List (Bytes × Bool)}
    {answer : Except QuicheError Nat} (h : (afterSend bytes fin rest answer).2 = false) :
    (afterSend bytes fin rest answer).1 ≠ [] := by
  cases answer with
  | ok n =>
    by_cases hn : n = bytes.length
    · simp [afterSend, hn] at h
    · simp [afterSend, hn]
  | error e => cases e <;> simp_all [afterSend]

private theorem passing_send (hi : Passing T s t) (h : t.step T .streamSend = some u) :
    Passing T s u := by
  obtain ⟨⟨id, p⟩, hsending, hsend⟩ := Option.bind_eq_some_iff.mp h
  obtain ⟨r, hr, rfl⟩ := Option.map_eq_some_iff.mp hsend
  unfold Passing at hi
  cases writeStep_writes hr with
  | sent id' todo bytes fin rest answer hp hq =>
    simp only [StreamQuicDriver.sending, hp, hq, List.head?_cons, Option.map_some,
      Option.some.injEq, Prod.mk.injEq] at hsending
    obtain ⟨rfl, rfl⟩ := hsending
    rw [hp] at hi
    generalize ha : T.answer id' (t.sends id') (bytes, fin) = answer
    have hflushed := flushed_send (t.sends id') (t.accepted id') (t.last id') (bytes, fin) rest ha
    have hlane : t.lane id' = ⟨t.sends id', t.accepted id', (bytes, fin) :: rest, t.last id'⟩ := by
      rw [Pass.lane, hq]
    rw [← hlane, hi.visiting id' (List.mem_cons_self ..)] at hflushed
    have hnodup := List.nodup_cons.mp hi.nodup
    -- only the stream of the send has moved
    have hself : ∀ point, Pass.lane ⟨{ t.driver with
        pendingWrites := t.driver.pendingWrites.insert id' (afterSend bytes fin rest answer).1
        point }, t.tx, Function.update t.sends id' (t.sends id' ++ [(bytes, fin)]),
        Function.update t.accepted id' (t.accepted id' ++ taken (bytes, fin) answer),
        Function.update t.last id' (some ((bytes, fin), answer))⟩ id' =
          ⟨t.sends id' ++ [(bytes, fin)], t.accepted id' ++ taken (bytes, fin) answer,
            (afterSend bytes fin rest answer).1, some ((bytes, fin), answer)⟩ := by
      simp [Pass.lane]
    have hother : ∀ point other, other ≠ id' → Pass.lane ⟨{ t.driver with
        pendingWrites := t.driver.pendingWrites.insert id' (afterSend bytes fin rest answer).1
        point }, t.tx, Function.update t.sends id' (t.sends id' ++ [(bytes, fin)]),
        Function.update t.accepted id' (t.accepted id' ++ taken (bytes, fin) answer),
        Function.update t.last id' (some ((bytes, fin), answer))⟩ other = t.lane other := by
      intro point other hne
      simp [Pass.lane, hne]
    unfold Passing
    dsimp only
    by_cases hgo : (afterSend bytes fin rest answer).2 = true
    · rw [if_pos hgo] at hflushed
      rw [hgo]
      refine ⟨hi.nodup, fun other ho ↦ ?_, fun other ho ↦ ?_⟩
      · by_cases heq : other = id'
        · subst heq
          rw [hself, hflushed]
        · rw [hother _ other heq]
          exact hi.visiting other ho
      · have hne : other ≠ id' := fun heq ↦ ho (heq ▸ List.mem_cons_self ..)
        rw [hother _ other hne]
        refine (hi.visited other ho).imp_right fun hentry ↦ ?_
        simpa [Std.ExtTreeMap.getElem?_insert, hne.symm] using hentry
    · rw [if_neg hgo] at hflushed
      rw [Bool.not_eq_true] at hgo
      rw [hgo]
      refine ⟨hnodup.2, fun other ho ↦ ?_, fun other ho ↦ ?_⟩
      · have hne : other ≠ id' := fun heq ↦ hnodup.1 (heq ▸ ho)
        rw [hother _ other hne]
        exact hi.visiting other (List.mem_cons_of_mem _ ho)
      · by_cases heq : other = id'
        · subst heq
          rw [hself]
          exact ⟨hflushed.symm, by simpa using afterSend_refused hgo⟩
        · rw [hother _ other heq]
          refine (hi.visited other (by simp [heq, ho])).imp_right fun hentry ↦ ?_
          simpa [Std.ExtTreeMap.getElem?_insert, Ne.symm heq] using hentry

/-- A step of the pass brings no stream off the flush of its own queue. -/
theorem passing_step {l : PassLabel} (hi : Passing T s t) (h : (pass T).step t l = some u) :
    Passing T s u := by
  cases l with
  | tryRecv => exact passing_tryRecv hi h
  | retain order => exact passing_retain hi h
  | streamSend => exact passing_send hi h
  | queueEmpty => exact passing_queueEmpty hi h
  | finish => exact passing_finish hi h

/-- What a pass leaves of a stream when it returns. -/
theorem flushedAlone_of_run (hs : s.Called) {ls : List PassLabel} (h : (pass T).run s ls = some t)
    (ht : t.Returned) (id : StreamId) : FlushedAlone T s t id := by
  have hi : Passing T s t := by
    refine Machine.run_invariant (I := Passing T s) (fun _ _ _ hi hu ↦ passing_step hi hu) ?_ h
    unfold Passing
    rw [hs.1]
    exact fun _ ↦ rfl
  unfold Passing at hi
  rw [ht] at hi
  obtain ⟨hlane, hentry⟩ := hi.visited id List.not_mem_nil
  have hhead : (queueOf t.driver.pendingWrites id).head? = refused (t.last id) := by
    have hlast : refused (s.last id) = none := by rw [hs.2 id]; rfl
    have hh : (T.flushAlone id (s.sends id) (s.accepted id) (s.last id)
        (s.own id).queue).queue.head? = refused _ := flushed_head hlast
    exact (congrArg (·.queue.head?) hlane).trans
      (hh.trans (congrArg (fun lane ↦ refused lane.last) hlane).symm)
  refine ⟨hlane, ?_, fun queue hq ↦ ?_⟩
  · rw [← hhead]
    unfold queueOf
    cases hq : t.driver.pendingWrites[id]? with
    | none => simp
    | some queue =>
      cases queue with
      | nil => exact absurd hq hentry
      | cons p rest => simp
  · rw [← hhead]
    simp [queueOf, hq]

private theorem pass_writes {l : PassLabel} (h : (pass T).step t l = some u) :
    ∃ op r, Writes t.driver t.tx op r ∧ u.driver = r.driver ∧ u.tx = r.tx := by
  have hlocal : ∀ op, t.local? op = some u →
      ∃ op r, Writes t.driver t.tx op r ∧ u.driver = r.driver ∧ u.tx = r.tx := by
    intro op hop
    obtain ⟨r, hr, rfl⟩ := Option.map_eq_some_iff.mp hop
    exact ⟨op, r, writeStep_writes hr, rfl, rfl⟩
  cases l with
  | tryRecv => exact hlocal _ h
  | retain order => exact hlocal _ h
  | queueEmpty => exact hlocal _ h
  | finish => exact hlocal _ h
  | streamSend =>
    obtain ⟨⟨id, p⟩, -, hsend⟩ := Option.bind_eq_some_iff.mp h
    obtain ⟨r, hr, rfl⟩ := Option.map_eq_some_iff.mp hsend
    exact ⟨_, r, writeStep_writes hr, rfl, rfl⟩

/-- The pass is bound to return. -/
def Returns (T : StreamwiseTransport) (t : Pass) : Prop :=
  (pass T).Inevitable (fun _ ↦ True) Pass.Returned t

private theorem afterSend_goesOn {bytes : Bytes} {fin : Bool} {rest : List (Bytes × Bool)}
    {answer : Except QuicheError Nat} (h : (afterSend bytes fin rest answer).2 = true) :
    (afterSend bytes fin rest answer).1 = rest := by
  cases answer with
  | ok n =>
    by_cases hn : n = bytes.length
    · simp [afterSend, hn]
    · simp [afterSend, hn] at h
  | error e => cases e <;> simp_all [afterSend]

private theorem writes_visit {d : StreamQuicDriver} {tx : Channel StreamWriter} {op : WriteOp}
    {r : WriteResult} (h : Writes d tx op r) {id : StreamId} {todo : List StreamId}
    (hp : d.point = .flush (id :: todo)) :
    (queueOf d.pendingWrites id = [] ∧ r.driver.point = .flush todo) ∨
      ∃ bytes fin rest answer, queueOf d.pendingWrites id = (bytes, fin) :: rest ∧
        queueOf r.driver.pendingWrites id = (afterSend bytes fin rest answer).1 ∧
        r.driver.point =
          if (afterSend bytes fin rest answer).2 then .flush (id :: todo) else .flush todo := by
  cases h with
  | emptied id' todo' hp' hq =>
    rw [hp] at hp'
    cases hp'
    exact .inl ⟨hq, rfl⟩
  | sent id' todo' bytes fin rest answer hp' hq =>
    rw [hp] at hp'
    cases hp'
    exact .inr ⟨bytes, fin, rest, answer, hq, by simp, rfl⟩
  | _ => simp_all

/-- The visit of one entry ends, with its queue as the measure. -/
private theorem returns_visit {id : StreamId} {todo : List StreamId}
    (hnext : ∀ u : Pass, u.driver.point = .flush todo → Returns T u) (queue : List (Bytes × Bool))
    (hp : t.driver.point = .flush (id :: todo)) (hq : queueOf t.driver.pendingWrites id = queue) :
    Returns T t := by
  induction queue generalizing t with
  | nil =>
    refine .next ⟨.queueEmpty, _, by simp [pass, Pass.step, Pass.local?, writeStep, hp, hq]; rfl⟩
      fun l u hu ↦ ?_
    obtain ⟨op, r, hw, hd, -⟩ := pass_writes hu
    rcases writes_visit hw hp with ⟨-, hpoint⟩ | ⟨bytes, fin, rest, answer, hq', -⟩
    · exact hnext u (by rw [hd, hpoint])
    · rw [hq] at hq'
      cases hq'
  | cons p rest ih =>
    refine .next ⟨.streamSend, _, by
      simp [pass, Pass.step, Pass.send, StreamQuicDriver.sending, writeStep, hp, hq]; rfl⟩
      fun l u hu ↦ ?_
    obtain ⟨op, r, hw, hd, -⟩ := pass_writes hu
    rcases writes_visit hw hp with ⟨hq', -⟩ | ⟨bytes, fin, rest', answer, hq', hrest, hpoint⟩
    · rw [hq] at hq'
      cases hq'
    · rw [hq] at hq'
      cases hq'
      by_cases hgo : (afterSend bytes fin rest answer).2 = true
      · apply ih (by rw [hd, hpoint, if_pos hgo])
        rw [hd, hrest, afterSend_goesOn hgo]
      · exact hnext u (by rw [hd, hpoint, if_neg hgo])

/-- The entries are visited one after the other. -/
private theorem returns_flush (todo : List StreamId) (hp : t.driver.point = .flush todo) :
    Returns T t := by
  induction todo generalizing t with
  | nil =>
    refine .next ⟨.finish, _, by simp [pass, Pass.step, Pass.local?, writeStep, hp]; rfl⟩
      fun l u hu ↦ .now ?_
    obtain ⟨op, r, hw, hd, -⟩ := pass_writes hu
    unfold Pass.Returned
    rw [hd]
    cases hw with
    | finished hp' => rfl
    | _ => simp_all
  | cons id todo ih => exact returns_visit (fun u hu ↦ ih hu) _ hp rfl

/-- The drain ends, with the channel as the measure, and every order is then visited. -/
private theorem returns_drain (queue : List StreamWriter) (hp : t.driver.point = .drainWrites)
    (hq : t.tx.queue = queue) : Returns T t := by
  induction queue generalizing t with
  | nil =>
    have hnone : t.tx.tryRecv = none := Channel.tryRecv_eq_none.mpr hq
    refine .next ⟨.tryRecv, _, by simp [pass, Pass.step, Pass.local?, writeStep, hp, hnone]; rfl⟩
      fun l u hu ↦ ?_
    obtain ⟨op, r, hw, hd, -⟩ := pass_writes hu
    have hpoint : u.driver.point = .retain := by
      rw [hd]
      cases hw with
      | drainedAll hp' hq' => rfl
      | _ => simp_all
    refine .next ⟨.retain u.driver.pendingWrites.keys, _, by
      simp [pass, Pass.step, Pass.local?, writeStep, hpoint]; rfl⟩ fun l' v hv ↦ ?_
    obtain ⟨op', r', hw', hd', -⟩ := pass_writes hv
    cases hw' with
    | retain order hp' horder => exact returns_flush order (by rw [hd'])
    | _ => simp_all
  | cons chunk rest ih =>
    have hsome : t.tx.tryRecv = some (chunk, { t.tx with queue := rest }) :=
      Channel.tryRecv_eq_some.mpr ⟨rest, hq, rfl⟩
    refine .next ⟨.tryRecv, _, by simp [pass, Pass.step, Pass.local?, writeStep, hp, hsome]; rfl⟩
      fun l u hu ↦ ?_
    obtain ⟨op, r, hw, hd, htx⟩ := pass_writes hu
    cases hw with
    | drained chunk' rest' hp' hq' =>
      rw [hq] at hq'
      cases hq'
      exact ih (by rw [hd]; exact hp') (by rw [htx])
    | _ => simp_all

/-- A call of `process_writes` returns, and for every stream it leaves what flushing the
stream's own queue alone leaves, whatever the order of the map and whatever the other
streams do. `src/quiche/driver.rs:131–173`. -/
theorem processWrites_flushesAlone (T : StreamwiseTransport) (hs : s.Called) :
    (pass T).Inevitable (fun _ ↦ True) Pass.Returned s ∧
      ∀ ls t, (pass T).run s ls = some t → t.Returned → ∀ id, FlushedAlone T s t id :=
  ⟨returns_drain _ hs.1 rfl, fun _ _ h ht id ↦ flushedAlone_of_run hs h ht id⟩

end

/-- Stream 0 is blocked, stream 4 takes one byte of its first piece, the rest takes all. -/
def blockedTransport : StreamwiseTransport where
  answer id earlier p :=
    if id = 0 then .error .done
    else if id = 4 ∧ earlier = [] ∧ 1 ≤ p.1.length then .ok 1
    else .ok p.1.length
  possible id earlier p := by
    split
    · trivial
    · split
      · next h => exact h.2.2
      · exact Nat.le_refl _

/-- Chunks for streams 0, 4 and 8 in the channel of a fresh driver. -/
def threeChunks : Pass where
  driver := { StreamQuicDriver.build 0 0 with point := .drainWrites }
  tx := ⟨WRITE_CHANNEL_CAPACITY, [(0, some [97], false), (4, some [98, 99], true),
    (8, some [100], true)], 0, true⟩
  sends _ := []
  accepted _ := []
  last _ := none

/-- The pass over the three chunks returns with each stream flushed alone. -/
theorem threeChunks_flushedAlone :
    (pass blockedTransport).Inevitable (fun _ ↦ True) Pass.Returned threeChunks ∧
      ∀ ls t, (pass blockedTransport).run threeChunks ls = some t → t.Returned →
        ∀ id, FlushedAlone blockedTransport threeChunks t id :=
  processWrites_flushesAlone blockedTransport ⟨rfl, fun _ ↦ rfl⟩

end ExtQuiche.Driver
