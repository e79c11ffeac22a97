import ExtQuiche.Base.History
import ExtQuiche.Base.Progress
import ExtQuiche.Driver.Wakeup

/-!
# The worker comes to every write

Library `Driver`. Chunks leave the write channel in the order in which they were written,
`src/quiche/driver.rs:134–142`. The worker comes to each of them by steps of its own, however
many more are written in the meantime and whatever pass it is still busy with. It can fall
asleep on a chunk only while a writer stands between `try_send` and `notify_one`, and once it
is woken it does not fall asleep on the chunk again.
-/

namespace ExtQuiche.Driver
open ExtQuiche.Base ExtQuiche.Conn ExtQuiche.Stream

/-- The worker of the connection takes a step. -/
def WakeupLabel.Works : WakeupLabel → Prop
  | .established => True
  | .waitForData => True
  | .notified => True
  | .driver _ => True
  | .onConnClose => True
  | .write _ _ _ => False
  | .close _ => False
  | .notifyOne _ => False
  | .woken => False

instance : DecidablePred WakeupLabel.Works
  | .established | .waitForData | .notified | .driver _ | .onConnClose => .isTrue trivial
  | .write _ _ _ | .close _ | .notifyOne _ | .woken => .isFalse id

/-- A writer offers a chunk to the channel. -/
def WakeupLabel.Offers (l : WakeupLabel) : Prop :=
  (∃ o data fin, l = .write o data fin) ∨ ∃ o, l = .close o

/-- How many chunks have been taken from the channel. -/
def takenChunks : Account Wakeup WakeupLabel Nat where
  start := 0
  add n s l _ :=
    match l with
    | .driver .tryRecv => if s.tx.queue = [] then n else n + 1
    | _ => n

/-- Runs of the writers and the worker that count the chunks. -/
abbrev counted : Machine (Wakeup × Nat) WakeupLabel := wakeup.withAccount takenChunks

/-- The chunk that was written in `k`-th place has been taken, or the driver is gone. -/
def TakenOrGone (k : Nat) (p : Wakeup × Nat) : Prop := k < p.2 ∨ p.1.worker = .stopped

/-- The worker sleeps, and a writer has still to notify; whatever ends the sleep, the worker then
comes to the chunk. -/
def AwaitsWriter (k : Nat) (p : Wakeup × Nat) : Prop :=
  p.1.Parked ∧ p.1.notifying ≠ [] ∧
    ∀ l q, counted.step p l = some q → ¬ q.1.Parked →
      counted.Inevitable WakeupLabel.Works (TakenOrGone k) q

/-- What a step can do. -/
inductive Moves (s : Wakeup) : WakeupLabel → Wakeup → Prop where
  | refused (l : WakeupLabel) (hl : l.Offers) : Moves s l s
  | offered (l : WakeupLabel) (m : Outbound) (tx : Channel StreamWriter) (hl : l.Offers)
      (hq : tx.queue = s.tx.queue ++ [m.chunk]) :
      Moves s l { s with tx, notifying := s.notifying ++ [m] }
  | notifyOne (i : Nat) :
      Moves s (.notifyOne i) { s with notifying := s.notifying.eraseIdx i }.notifyOne
  | established (hw : s.worker = .handshake) :
      Moves s .established { s with worker := .running false }
  | waitForData (hw : s.worker = .running false) (hp : s.driver.point = .idle) :
      Moves s .waitForData s.waitForData
  | notified (hw : s.worker = .waiting true) : Moves s .notified { s with worker := .running true }
  | woken (b : Bool) (hw : s.worker = .waiting b) :
      Moves s .woken { s with worker := .running true, permit := s.permit || b }
  | driver (op : WriteOp) (due : Bool) (r : WriteResult) (hw : s.worker = .running due)
      (hr : Writes s.driver s.tx op r) :
      Moves s (.driver op) { s with
        driver := r.driver
        tx := r.tx
        worker := .running (op.owes due) }
  | ended (due : Bool) (hw : s.worker = .running due) (hp : s.driver.point = .idle) :
      Moves s .onConnClose { s with
        driver := { s.driver with point := .closed }
        tx := s.tx.disconnect
        worker := .stopped }

/-- Queue entries a pass has still to visit, and the sends it can make there. -/
def toVisit (pending : Std.ExtTreeMap StreamId (List (Bytes × Bool))) : List StreamId → Nat
  | [] => 0
  | id :: todo => (queueOf pending id).length + 1 + toVisit pending todo

namespace Wakeup

/-- Steps of the worker until it drains the channel next or falls asleep. -/
def toDrain (s : Wakeup) : Nat :=
  match s.worker, s.driver.point with
  | .running _, .drainWrites => 0
  | .running true, _ => 1
  | .running false, .retain => toVisit s.driver.pendingWrites s.driver.pendingWrites.keys + 4
  | .running false, .flush todo => toVisit s.driver.pendingWrites todo + 3
  | .running false, _ => 2
  | .waiting true, _ => 2
  | .waiting false, _ => 0
  | .handshake, _ => 3
  | .stopped, _ => 0

/-- Where the driver stands, as far as the worker is concerned. -/
def Placed (s : Wakeup) : Prop :=
  match s.worker with
  | .running false => s.driver.point.writing = s.driver.point
  | .stopped => True
  | _ => s.driver.point = .idle

end Wakeup

section

variable {s t : Wakeup} {l : WakeupLabel}

private theorem trySend_moves {m : Outbound} (h : s.trySend m = some t)
    (hl : l.Offers) : Moves s l t := by
  unfold Wakeup.trySend at h
  split at h
  · split at h
    · next tx htx =>
      cases h
      refine .offered l m tx hl ?_
      rw [(Channel.trySend_eq_ok.mp (Outbound.trySend_eq_ok.mp htx)).2]
    · cases h
      exact .refused l hl
  · cases h

/-- The step function does nothing else. -/
theorem moves_step (h : s.step l = some t) : Moves s l t := by
  cases l with
  | write o data fin =>
    obtain ⟨m, -, hm⟩ := Option.bind_eq_some_iff.mp h
    exact trySend_moves hm (.inl ⟨o, data, fin, rfl⟩)
  | close o =>
    obtain ⟨m, -, hm⟩ := Option.bind_eq_some_iff.mp h
    exact trySend_moves hm (.inr ⟨o, rfl⟩)
  | notifyOne i =>
    obtain ⟨m, -, rfl⟩ := Option.map_eq_some_iff.mp h
    exact .notifyOne i
  | established =>
    simp only [Wakeup.step] at h
    split at h
    · next hw => cases h; exact .established hw
    · cases h
  | waitForData =>
    simp only [Wakeup.step] at h
    split at h
    · next hw hp => cases h; exact .waitForData hw hp
    · cases h
  | notified =>
    simp only [Wakeup.step] at h
    split at h
    · next hw => cases h; exact .notified hw
    · cases h
  | woken =>
    simp only [Wakeup.step] at h
    split at h
    · next b hw => cases h; exact .woken b hw
    · cases h
  | driver op =>
    simp only [Wakeup.step] at h
    split at h
    · next due hw =>
      obtain ⟨r, hr, rfl⟩ := Option.map_eq_some_iff.mp h
      exact .driver op due r hw (writeStep_writes hr)
    · cases h
  | onConnClose =>
    simp only [Wakeup.step] at h
    split at h
    · next due hw hp => cases h; exact .ended due hw hp
    · cases h

/-- A call of the pass leads to a place of the pass. -/
private theorem writes_placed {d : StreamQuicDriver} {tx : Channel StreamWriter} {op : WriteOp}
    {r : WriteResult} (h : Writes d tx op r) : r.driver.point.writing = r.driver.point := by
  cases h with
  | call hp => rfl
  | drained chunk rest hp hq => simp [StreamQuicDriver.enqueue, hp, Point.writing]
  | drainedAll hp hq => rfl
  | retain order hp horder => rfl
  | sent id todo bytes fin rest answer hp hq =>
    dsimp only
    split <;> rfl
  | emptied id todo hp hq => rfl
  | finished hp => rfl

private theorem placed_step (hi : s.Placed) (h : Moves s l t) : t.Placed := by
  cases h with
  | refused => exact hi
  | offered => exact hi
  | notifyOne i =>
    unfold Wakeup.notifyOne
    split
    · next hw =>
      have hw : s.worker = .waiting false := hw
      rw [Wakeup.Placed, hw] at hi
      exact hi
    · exact hi
  | established hw =>
    rw [Wakeup.Placed, hw] at hi
    simp [Wakeup.Placed, show s.driver.point = .idle from hi, Point.writing]
  | waitForData hw hp =>
    unfold Wakeup.waitForData
    split <;> exact hp
  | notified hw =>
    rw [Wakeup.Placed, hw] at hi
    exact hi
  | woken b hw =>
    rw [Wakeup.Placed, hw] at hi
    exact hi
  | driver op due r hw hr =>
    cases due with
    | true =>
      rw [Wakeup.Placed, hw] at hi
      have hidle : s.driver.point = .idle := hi
      cases hr with
      | call hp => rfl
      | _ => simp_all
    | false =>
      have howes : op.owes false = false := by cases op <;> rfl
      simp only [Wakeup.Placed, howes]
      exact writes_placed hr
  | ended => trivial

/-- A sleeping worker has left no permit behind. -/
private theorem unpermitted_step (hi : s.Parked → s.permit = false) (h : Moves s l t)
    (ht : t.Parked) : t.permit = false := by
  unfold Wakeup.Parked at hi ht
  cases h with
  | refused => exact hi ht
  | offered => exact hi ht
  | notifyOne i =>
    unfold Wakeup.notifyOne at ht
    split at ht
    · cases ht
    · next hno => exact absurd ht hno
  | waitForData hw hp =>
    unfold Wakeup.waitForData at ht ⊢
    split at ht
    · cases ht
    · next hno => simp [hno]
  | _ => cases ht

/-- What is known of a worker besides what attends to the channel. -/
private structure Sane (s : Wakeup) : Prop where
  attended : s.Attended
  placed : s.Placed
  unpermitted : s.Parked → s.permit = false

private theorem sane_of_reachable (h : wakeup.Reachable s) : Sane s := by
  refine h.invariant (I := Sane) ?_ fun s l t _ hi _ ht ↦ ?_
  · rintro _ ⟨connId, chan, rfl⟩
    exact ⟨.inl rfl, rfl, fun _ ↦ rfl⟩
  · exact ⟨attended_step hi.attended ht, placed_step hi.placed (moves_step ht),
      unpermitted_step hi.unpermitted (moves_step ht)⟩

/-- The order of the visits does not matter. -/
private theorem toVisit_perm (pending : Std.ExtTreeMap StreamId (List (Bytes × Bool)))
    {todo todo' : List StreamId} (h : todo.Perm todo') :
    toVisit pending todo = toVisit pending todo' := by
  induction h with
  | nil => rfl
  | cons id _ ih => simp only [toVisit, ih]
  | swap id id' todo =>
    simp only [toVisit]
    omega
  | trans _ _ ih ih' => exact ih.trans ih'

/-- Shorter queues leave less to visit. -/
private theorem toVisit_le {pending pending' : Std.ExtTreeMap StreamId (List (Bytes × Bool))}
    (h : ∀ id, (queueOf pending' id).length ≤ (queueOf pending id).length)
    (todo : List StreamId) : toVisit pending' todo ≤ toVisit pending todo := by
  induction todo with
  | nil => exact Nat.le_refl _
  | cons id todo ih => exact Nat.add_le_add (Nat.succ_le_succ (h id)) ih

/-- A send shortens the queue where its entry is visited further. -/
private theorem afterSend_length (bytes : Bytes) (fin : Bool) (rest : List (Bytes × Bool))
    (answer : Except QuicheError Nat) :
    (afterSend bytes fin rest answer).1.length + (afterSend bytes fin rest answer).2.toNat =
      rest.length + 1 := by
  cases answer with
  | ok n =>
    unfold afterSend
    dsimp only
    split <;> rfl
  | error e => cases e <;> rfl

/-- The worker can always go on with the pass. -/
private theorem exists_writes (d : StreamQuicDriver) (tx : Channel StreamWriter)
    (hd : d.point.writing = d.point) : ∃ op r, Writes d tx op r := by
  cases hp : d.point with
  | idle => exact ⟨_, _, .call hp⟩
  | drainWrites =>
    cases hq : tx.queue with
    | nil => exact ⟨_, _, .drainedAll hp hq⟩
    | cons chunk rest => exact ⟨_, _, .drained chunk rest hp hq⟩
  | retain => exact ⟨_, _, .retain _ hp (.refl _)⟩
  | flush todo =>
    cases todo with
    | nil => exact ⟨_, _, .finished hp⟩
    | cons id todo =>
      cases hq : queueOf d.pendingWrites id with
      | nil => exact ⟨_, _, .emptied id todo hp hq⟩
      | cons p rest => exact ⟨_, _, .sent id todo p.1 p.2 rest (.error .done) hp hq⟩
  | _ =>
    rw [hp] at hd
    cases hd

private theorem not_works_of_offers (h : l.Offers) : ¬ l.Works := by
  rcases h with ⟨o, data, fin, rfl⟩ | ⟨o, rfl⟩ <;> exact id

private theorem takenChunks_offers (n : Nat) (s t : Wakeup) (h : l.Offers) :
    takenChunks.add n s l t = n := by
  rcases h with ⟨o, data, fin, rfl⟩ | ⟨o, rfl⟩ <;> rfl

/-- No chunk that has been written is passed over. -/
private theorem counts_step (n : Nat) (h : Moves s l t) :
    t.worker = .stopped ∨
      n + s.tx.queue.length ≤ takenChunks.add n s l t + t.tx.queue.length := by
  cases h with
  | refused _ hl =>
    rw [takenChunks_offers n s s hl]
    exact .inr (Nat.le_refl _)
  | offered _ m tx hl hq =>
    have hlen : s.tx.queue.length ≤ tx.queue.length := by simp [hq]
    rw [takenChunks_offers n s _ hl]
    exact .inr (Nat.add_le_add_left hlen n)
  | notifyOne i =>
    unfold Wakeup.notifyOne
    split <;> exact .inr (Nat.le_refl _)
  | waitForData hw hp =>
    unfold Wakeup.waitForData
    split <;> exact .inr (Nat.le_refl _)
  | driver op due r hw hr =>
    cases hr with
    | drained chunk rest hp hq =>
      right
      simp only [takenChunks, hq, List.length_cons, reduceCtorEq, if_false]
      omega
    | drainedAll hp hq => simp [takenChunks, hq]
    | _ => exact .inr (Nat.le_refl _)
  | ended => exact .inl rfl
  | _ => exact .inr (Nat.le_refl _)

/-- Inside a pass none is due. -/
private theorem not_due {due : Bool} (hi : s.Placed) (hw : s.worker = .running due)
    (hp : s.driver.point ≠ .idle) : due = false := by
  cases due with
  | false => rfl
  | true =>
    rw [Wakeup.Placed, hw] at hi
    exact absurd hi hp

/-- A step of the worker takes a chunk or brings it nearer to the drain. -/
private theorem works_step (n : Nat) (hi : Sane s) (hq : s.tx.queue ≠ []) (hl : l.Works)
    (h : Moves s l t) :
    takenChunks.add n s l t = n + 1 ∧ t.toDrain ≤ s.toDrain ∨
      takenChunks.add n s l t = n ∧ t.toDrain < s.toDrain := by
  cases h with
  | refused _ hno => exact absurd hl (not_works_of_offers hno)
  | offered _ m tx hno => exact absurd hl (not_works_of_offers hno)
  | notifyOne => exact False.elim hl
  | woken => exact False.elim hl
  | established hw =>
    have hplaced := hi.placed
    rw [Wakeup.Placed, hw] at hplaced
    right
    simp [takenChunks, Wakeup.toDrain, hw, show s.driver.point = .idle from hplaced]
  | waitForData hw hp =>
    right
    unfold Wakeup.waitForData
    split <;> simp [takenChunks, Wakeup.toDrain, hw, hp]
  | notified hw =>
    have hplaced := hi.placed
    rw [Wakeup.Placed, hw] at hplaced
    right
    simp [takenChunks, Wakeup.toDrain, hw, show s.driver.point = .idle from hplaced]
  | driver op due r hw hr =>
    cases hr with
    | call hp =>
      right
      cases due <;> simp [takenChunks, Wakeup.toDrain, hw, hp]
    | drained chunk rest hp hq' =>
      left
      simp [takenChunks, Wakeup.toDrain, hq', StreamQuicDriver.enqueue, hp]
    | drainedAll hp hq' => exact absurd hq' hq
    | retain order hp horder =>
      obtain rfl := not_due hi.placed hw (by simp [hp])
      right
      have hsum : toVisit s.driver.pendingWrites order =
          toVisit s.driver.pendingWrites s.driver.pendingWrites.keys :=
        toVisit_perm _ horder
      simp [takenChunks, Wakeup.toDrain, WriteOp.owes, hw, hp, hsum]
    | sent id todo bytes fin rest answer hp hq' =>
      obtain rfl := not_due hi.placed hw (by simp [hp])
      right
      have hlen := afterSend_length bytes fin rest answer
      have hle : ∀ other, (queueOf (s.driver.pendingWrites.insert id
          (afterSend bytes fin rest answer).1) other).length ≤
            (queueOf s.driver.pendingWrites other).length := by
        intro other
        rw [queueOf_insert]
        split
        · next heq =>
          rw [heq, hq', List.length_cons]
          omega
        · exact Nat.le_refl _
      have htodo := toVisit_le hle todo
      refine ⟨rfl, ?_⟩
      cases hgo : (afterSend bytes fin rest answer).2 with
      | true =>
        rw [hgo, Bool.toNat_true] at hlen
        simp only [Wakeup.toDrain, WriteOp.owes, hw, hp, if_true, toVisit, queueOf_insert,
          hq', List.length_cons]
        omega
      | false =>
        simp only [Wakeup.toDrain, WriteOp.owes, hw, hp, Bool.false_eq_true, if_false, toVisit]
        omega
    | emptied id todo hp hq' =>
      obtain rfl := not_due hi.placed hw (by simp [hp])
      right
      have htodo : toVisit (s.driver.pendingWrites.erase id) todo ≤
          toVisit s.driver.pendingWrites todo := by
        refine toVisit_le (fun other ↦ ?_) todo
        rw [queueOf_erase]
        split
        · exact Nat.zero_le _
        · exact Nat.le_refl _
      refine ⟨rfl, ?_⟩
      simp only [Wakeup.toDrain, WriteOp.owes, hw, hp, toVisit]
      omega
    | finished hp =>
      obtain rfl := not_due hi.placed hw (by simp [hp])
      right
      simp [takenChunks, Wakeup.toDrain, WriteOp.owes, hw, hp]
  | ended due hw hp =>
    right
    cases due <;> simp [takenChunks, Wakeup.toDrain, hw, hp]

/-- The writers and the network neither keep the worker from the drain nor stop it. -/
private theorem others_work (n : Nat) (hi : Sane s) (hparked : ¬ s.Parked) (hl : ¬ l.Works)
    (h : Moves s l t) :
    takenChunks.add n s l t = n ∧ t.toDrain ≤ s.toDrain ∧ ¬ t.Parked ∧
      (t.worker = .stopped → s.worker = .stopped) := by
  cases h with
  | refused _ hl => exact ⟨takenChunks_offers n s s hl, Nat.le_refl _, hparked, id⟩
  | offered _ m tx hl => exact ⟨takenChunks_offers n s _ hl, Nat.le_refl _, hparked, id⟩
  | notifyOne i =>
    unfold Wakeup.notifyOne
    split
    · next hw => exact absurd hw hparked
    · exact ⟨rfl, Nat.le_refl _, hparked, id⟩
  | woken b hw =>
    cases b with
    | false => exact absurd hw hparked
    | true =>
      have hplaced := hi.placed
      rw [Wakeup.Placed, hw] at hplaced
      refine ⟨rfl, ?_, by simp [Wakeup.Parked], by simp⟩
      simp [Wakeup.toDrain, hw, show s.driver.point = .idle from hplaced]
  | _ => exact absurd trivial hl

/-- What ends the sleep of the worker sends it to the drain. -/
private theorem draining_of_woken (hparked : s.Parked) (h : Moves s l t) (ht : ¬ t.Parked) :
    t.Draining := by
  unfold Wakeup.Parked at hparked
  cases h with
  | refused => exact absurd hparked ht
  | offered => exact absurd hparked ht
  | notifyOne i =>
    left
    simp [Wakeup.notifyOne, hparked]
  | woken b hw => exact .inr (.inl rfl)
  | established hw => exact absurd (hw.symm.trans hparked) (by simp)
  | waitForData hw => exact absurd (hw.symm.trans hparked) (by simp)
  | notified hw => exact absurd (hw.symm.trans hparked) (by simp)
  | driver op due r hw => exact absurd (hw.symm.trans hparked) (by simp)
  | ended due hw => exact absurd (hw.symm.trans hparked) (by simp)

private theorem not_parked_of_draining (hd : s.Draining) : ¬ s.Parked := by
  intro hparked
  unfold Wakeup.Parked at hparked
  rcases hd with hw | hw | ⟨⟨due, hw⟩, -⟩ <;> exact absurd (hw.symm.trans hparked) (by simp)

/-- On its way to the drain, and inside it, the worker does not fall asleep on a chunk. -/
private theorem draining_step (hi : Sane s) (hq : s.tx.queue ≠ []) (hd : s.Draining)
    (h : Moves s l t) : t.worker = .stopped ∨ t.Draining := by
  cases h with
  | refused => exact .inr hd
  | offered => exact .inr hd
  | notifyOne i =>
    right
    unfold Wakeup.notifyOne
    split
    · exact .inl rfl
    · exact hd
  | established hw =>
    rcases hd with hno | hno | ⟨⟨due, hno⟩, -⟩ <;> exact absurd (hw.symm.trans hno) (by simp)
  | waitForData hw hp =>
    rcases hd with hno | hno | ⟨-, hno⟩
    · exact absurd (hw.symm.trans hno) (by simp)
    · exact absurd (hw.symm.trans hno) (by simp)
    · exact absurd (hp.symm.trans hno) (by simp)
  | notified hw => exact .inr (.inr (.inl rfl))
  | woken b hw => exact .inr (.inr (.inl rfl))
  | driver op due r hw hr =>
    right
    cases hr with
    | call hp => exact .inr (.inr ⟨⟨false, rfl⟩, rfl⟩)
    | drained chunk rest hp hq' => exact .inr (.inr ⟨⟨due, rfl⟩, hp⟩)
    | drainedAll hp hq' => exact absurd hq' hq
    | retain order hp | sent id todo bytes fin rest answer hp | emptied id todo hp | finished hp =>
      -- a pass past its drain is one that the worker does not owe
      obtain rfl := not_due hi.placed hw (by simp [hp])
      rcases hd with hno | hno | ⟨-, hno⟩
      · exact absurd (hw.symm.trans hno) (by simp)
      · exact absurd (hw.symm.trans hno) (by simp)
      · exact absurd (hp.symm.trans hno) (by simp)
  | ended => exact .inl rfl

end

/-- Steps of the worker to the chunk that was written in `k`-th place. -/
def stepsTo (k : Nat) (p : Wakeup × Nat) : Nat := k + 1 - p.2 + p.1.toDrain

section

variable {p q : Wakeup × Nat} {l : WakeupLabel} {k : Nat}

/-- The chunk has been written and not yet taken. -/
private structure Ahead (k : Nat) (p : Wakeup × Nat) : Prop where
  reach : wakeup.Reachable p.1
  due : p.2 ≤ k
  waiting : k < p.2 + p.1.tx.queue.length
  serving : p.1.worker ≠ .stopped

private theorem Ahead.queue (h : Ahead k p) : p.1.tx.queue ≠ [] := by
  intro hno
  have hwaiting := h.waiting
  rw [hno, List.length_nil] at hwaiting
  exact absurd h.due (Nat.not_le_of_lt hwaiting)

/-- A chunk that has been written stays ahead until it is taken. -/
private theorem ahead_step (h : Ahead k p) (ht : counted.step p l = some q) :
    TakenOrGone k q ∨ Ahead k q := by
  obtain ⟨hstep, hadd⟩ := Machine.withAccount_step.mp ht
  by_cases hgone : q.1.worker = .stopped
  · exact .inl (.inr hgone)
  by_cases htaken : k < q.2
  · exact .inl (.inl htaken)
  have hcount := (counts_step p.2 (moves_step hstep)).resolve_left hgone
  rw [hadd] at hcount
  exact .inr ⟨h.reach.step l trivial hstep, Nat.le_of_not_lt htaken,
    Nat.lt_of_lt_of_le h.waiting hcount, hgone⟩

/-- Its own steps bring the worker nearer to the chunk. -/
private theorem works_stepsTo (h : Ahead k p) (hl : l.Works) (ht : counted.step p l = some q) :
    stepsTo k q < stepsTo k p := by
  obtain ⟨hstep, hadd⟩ := Machine.withAccount_step.mp ht
  have hdue := h.due
  unfold stepsTo
  rcases works_step p.2 (sane_of_reachable h.reach) h.queue hl (moves_step hstep) with
    ⟨hcount, hrank⟩ | ⟨hcount, hrank⟩
  · rw [hadd] at hcount
    omega
  · rw [hadd] at hcount
    omega

private theorem others_stepsTo (h : Ahead k p) (hparked : ¬ p.1.Parked) (hl : ¬ l.Works)
    (ht : counted.step p l = some q) : Ahead k q ∧ stepsTo k q ≤ stepsTo k p ∧ ¬ q.1.Parked := by
  obtain ⟨hstep, hadd⟩ := Machine.withAccount_step.mp ht
  obtain ⟨hcount, hrank, hnext, hstopped⟩ :=
    others_work p.2 (sane_of_reachable h.reach) hparked hl (moves_step hstep)
  rw [hadd] at hcount
  refine ⟨(ahead_step h ht).resolve_left ?_, by unfold stepsTo; omega, hnext⟩
  rintro (htaken | hgone)
  · exact absurd (hcount ▸ htaken) (Nat.not_lt_of_le h.due)
  · exact h.serving (hstopped hgone)

/-- Unless it sleeps, the worker can take a step. -/
private theorem works_can (h : Ahead k p) (hparked : ¬ p.1.Parked) :
    ∃ l q, l.Works ∧ counted.step p l = some q := by
  have hplaced := (sane_of_reachable h.reach).placed
  have hgo : ∀ l, l.Works → (p.1.step l).isSome → ∃ l q, l.Works ∧ counted.step p l = some q := by
    intro l hl hsome
    obtain ⟨t, ht⟩ := Option.isSome_iff_exists.mp hsome
    exact ⟨l, (t, takenChunks.add p.2 p.1 l t), hl, Machine.withAccount_step.mpr ⟨ht, rfl⟩⟩
  cases hw : p.1.worker with
  | handshake => exact hgo .established trivial (by simp [Wakeup.step, hw])
  | running due =>
    have hpass : p.1.driver.point.writing = p.1.driver.point := by
      rw [Wakeup.Placed, hw] at hplaced
      cases due with
      | false => exact hplaced
      | true =>
        rw [show p.1.driver.point = .idle from hplaced]
        rfl
    obtain ⟨op, r, hr⟩ := exists_writes p.1.driver p.1.tx hpass
    exact hgo (.driver op) trivial (by simp [Wakeup.step, hw, hr.writeStep_eq])
  | waiting notified =>
    cases notified with
    | true => exact hgo .notified trivial (by simp [Wakeup.step, hw])
    | false => exact absurd hw hparked
  | stopped => exact absurd hw h.serving

/-- A worker on its way to the drain comes to the chunk. -/
private theorem draining_descends (k : Nat) :
    counted.Descends WakeupLabel.Works (TakenOrGone k) (fun p ↦ Ahead k p ∧ p.1.Draining)
      (stepsTo k) where
  can _ hi := works_can hi.1 (not_parked_of_draining hi.2)
  own _ _ _ hi hl ht := by
    refine ⟨?_, works_stepsTo hi.1 hl ht⟩
    have hmoves := moves_step (Machine.withAccount_step.mp ht).1
    rcases ahead_step hi.1 ht with htaken | hahead
    · exact .inl htaken
    · refine .inr ⟨hahead, Or.resolve_left ?_ hahead.serving⟩
      exact draining_step (sane_of_reachable hi.1.reach) hi.1.queue hi.2 hmoves
  env _ _ _ hi hl ht := by
    have hmoves := moves_step (Machine.withAccount_step.mp ht).1
    obtain ⟨hahead, hle, -⟩ := others_stepsTo hi.1 (not_parked_of_draining hi.2) hl ht
    refine ⟨⟨hahead, Or.resolve_left ?_ hahead.serving⟩, hle⟩
    exact draining_step (sane_of_reachable hi.1.reach) hi.1.queue hi.2 hmoves

/-- A worker that sleeps on a chunk waits for a writer. -/
private theorem awaitsWriter_of_parked (h : Ahead k p) (hparked : p.1.Parked) :
    AwaitsWriter k p := by
  have hsane := sane_of_reachable h.reach
  refine ⟨hparked, ?_, fun l q ht hq ↦ ?_⟩
  · rcases hsane.attended with hempty | hnotifying | hpermit | hd | hgone
    · exact absurd hempty h.queue
    · exact hnotifying
    · exact absurd ((hsane.unpermitted hparked).symm.trans hpermit) (by simp)
    · exact absurd hparked (not_parked_of_draining hd)
    · exact absurd hgone h.serving
  · rcases ahead_step h ht with htaken | hahead
    · exact .now htaken
    · have hmoves := moves_step (Machine.withAccount_step.mp ht).1
      exact (draining_descends k).inevitable ⟨hahead, draining_of_woken hparked hmoves hq⟩

private theorem awake_descends (k : Nat) :
    counted.Descends WakeupLabel.Works (fun p ↦ TakenOrGone k p ∨ AwaitsWriter k p)
      (fun p ↦ Ahead k p ∧ ¬ p.1.Parked) (stepsTo k) where
  can _ hi := works_can hi.1 hi.2
  own _ _ q hi hl ht := by
    refine ⟨?_, works_stepsTo hi.1 hl ht⟩
    rcases ahead_step hi.1 ht with htaken | hahead
    · exact .inl (.inl htaken)
    by_cases hparked : q.1.Parked
    · exact .inl (.inr (awaitsWriter_of_parked hahead hparked))
    · exact .inr ⟨hahead, hparked⟩
  env _ _ _ hi hl ht := by
    obtain ⟨hahead, hle, hparked⟩ := others_stepsTo hi.1 hi.2 hl ht
    exact ⟨⟨hahead, hparked⟩, hle⟩

/-- As long as the connection lasts, the worker comes to every chunk that has been written:
whatever is written in the meantime, it takes the chunk after at most one step for each chunk up
to this one and those of the pass it is busy with, or falls asleep between a writer's `try_send`
and `notify_one`; once woken, it takes the chunk without falling asleep again. Only the end of the
connection, which stops the worker, comes before it. `src/stream.rs:67–83`,
`src/quiche/driver.rs:68–71,131–173`. -/
theorem written_taken {s : Wakeup} {n : Nat} (h : counted.Reachable (s, n))
    (hk : k < n + s.tx.queue.length) :
    counted.Inevitable WakeupLabel.Works (fun p ↦ TakenOrGone k p ∨ AwaitsWriter k p) (s, n) ∧
      ∀ ls q, counted.run (s, n) ls = some q →
        counted.Along (fun p _ ↦ ¬ (TakenOrGone k p ∨ AwaitsWriter k p)) (s, n) ls →
        ls.countP (WakeupLabel.Works ·) ≤ k + 1 - n + s.toDrain := by
  have hinside : (TakenOrGone k (s, n) ∨ AwaitsWriter k (s, n)) ∨
      Ahead k (s, n) ∧ ¬ s.Parked := by
    by_cases hgone : TakenOrGone k (s, n)
    · exact .inl (.inl hgone)
    obtain ⟨htaken, hserving⟩ := not_or.mp hgone
    have hahead : Ahead k (s, n) := ⟨h.forget, Nat.le_of_not_lt htaken, hk, hserving⟩
    by_cases hparked : s.Parked
    · exact .inl (.inr (awaitsWriter_of_parked hahead hparked))
    · exact .inr ⟨hahead, hparked⟩
  refine ⟨?_, fun ls q hrun hway ↦ ?_⟩
  · rcases hinside with hnow | hahead
    · exact .now hnow
    · exact (awake_descends k).inevitable hahead
  · have hsteps := (awake_descends k).countP_le ((awake_descends k).along hinside hway) hrun
    exact Nat.le_trans (Nat.le_add_right _ _) hsteps

end

/-- A fresh connection. -/
def freshWakeup : Wakeup := ⟨.build 0 0, .new WRITE_CHANNEL_CAPACITY, false, .handshake, []⟩

/-- While the worker is in a pass over one chunk, a second one is written. -/
def writtenMidPass : List WakeupLabel :=
  [.established, .write bidiObject [97] false, .notifyOne 0, .driver .call, .driver .tryRecv,
    .driver .tryRecv, .write bidiObject [98] true]

/-- The worker comes to the second chunk too. -/
theorem writtenMidPass_taken :
    ∃ s, counted.run (freshWakeup, 0) writtenMidPass = some (s, 1) ∧
      counted.Inevitable WakeupLabel.Works (fun p ↦ TakenOrGone 1 p ∨ AwaitsWriter 1 p) (s, 1) ∧
      ∀ ls q, counted.run (s, 1) ls = some q →
        counted.Along (fun p _ ↦ ¬ (TakenOrGone 1 p ∨ AwaitsWriter 1 p)) (s, 1) ls →
        ls.countP (WakeupLabel.Works ·) ≤ 1 + 1 - 1 + s.toDrain := by
  have h : (counted.run (freshWakeup, 0) writtenMidPass).map (fun p ↦
      (p.2, p.1.tx.queue.length)) = some (1, 1) := by
    decide +kernel
  obtain ⟨⟨s, n⟩, hrun, heq⟩ := Option.map_eq_some_iff.mp h
  obtain ⟨rfl, hlen⟩ := Prod.mk.inj heq
  have hlen : s.tx.queue.length = 1 := hlen
  have hreach : counted.Reachable (s, 1) :=
    Machine.Reachable.run (.init ⟨⟨0, 0, rfl⟩, rfl⟩) hrun
  exact ⟨s, hrun, written_taken hreach (by omega)⟩

end ExtQuiche.Driver
