import ExtQuiche.Base.Progress
import ExtQuiche.Driver.Receiving
import Mathlib.Algebra.BigOperators.Group.Finset.Piecewise
import Mathlib.Data.FinEnum

/-!
# The read loop returns

Library `Driver`. `process_reads`, `src/quiche/driver.rs:73–129`, against any transport
that no packet reaches during the call, while the server and the other drivers do as they
like with the event channel. Capacity is no measure here, as the channel may be drained
at any time; what descends is the readable set together with what is left to read.
-/

namespace ExtQuiche.Driver
open ExtQuiche.Base ExtQuiche.Conn

/-- A transport between two packets. It holds finitely many readable streams and unread
bytes and fins; an id that `stream_readable_next` returns leaves the readable set, and a
successful `stream_recv` takes bytes or a fin, and may put the id back. -/
structure QuietTransport (τ : Type) extends Answers τ where
  readable : τ → Finset StreamId
  unread : τ → Nat
  next_some : ∀ t id t', readableNext t (some id) = some t' →
    id ∈ readable t ∧ readable t' = (readable t).erase id ∧ unread t' ≤ unread t
  next_none : ∀ t t', readableNext t none = some t' →
    readable t = ∅ ∧ readable t' = ∅ ∧ unread t' ≤ unread t
  recv_ok : ∀ t id data fin t', streamRecv t id (.ok (data, fin)) = some t' →
    (data ≠ [] ∨ fin = true) ∧ readable t' ⊆ insert id (readable t) ∧
      unread t' + data.length + fin.toNat ≤ unread t
  recv_error : ∀ t id e t', streamRecv t id (.error e) = some t' →
    readable t' ⊆ readable t ∧ unread t' ≤ unread t
  answers_next : ∀ t, ∃ answer t', readableNext t answer = some t'
  answers_recv : ∀ t id, ∃ answer t', streamRecv t id answer = some t'

/-- One driver, the shared event channel and the driver's transport. -/
structure Quiet (τ : Type) where
  driver : StreamQuicDriver
  events : EventChannel
  transport : τ

/-- A call of the driver, or a change of the shared channel by the other parties. -/
inductive QuietLabel where
  | driver (op : ReadOp)
  | others (events : EventChannel)

/-- The driver's own steps. -/
def QuietLabel.Own : QuietLabel → Prop
  | .driver _ => True
  | .others _ => False

instance : DecidablePred QuietLabel.Own
  | .driver _ => .isTrue trivial
  | .others _ => .isFalse id

/-- One step. -/
def Quiet.step {τ : Type} (T : QuietTransport τ) (s : Quiet τ) : QuietLabel → Option (Quiet τ)
  | .driver op =>
    (T.answered s.transport s.driver.point op).bind fun transport ↦
      (readStep s.driver s.events op).map fun r ↦ ⟨r.driver, r.events, transport⟩
  | .others events => some { s with events }

/-- Runs of one driver, from any state, while its transport receives no packet. -/
def quiet {τ : Type} (T : QuietTransport τ) : Machine (Quiet τ) QuietLabel :=
  ⟨fun _ ↦ True, Quiet.step T⟩

/-- A call of `process_reads` is under way. -/
def Point.InReads : Point → Prop
  | .readableNext => True
  | .announce _ => True
  | .reserve _ => True
  | .recv _ => True
  | _ => False

/-- Calls that the driver can make at most before it asks for the next stream. -/
def Point.ahead : Point → Nat
  | .readableNext => 1
  | .recv _ => 2
  | .reserve _ => 3
  | .announce _ => 4
  | _ => 0

namespace Quiet

variable {τ : Type} (T : QuietTransport τ)

/-- A call of `process_reads` is under way. -/
def Reading (s : Quiet τ) : Prop := s.driver.point.InReads

/-- `process_reads` has returned. -/
def Returned (s : Quiet τ) : Prop := s.driver.point = .idle

/-- A bound on the calls left before `process_reads` returns: four for every readable
stream, six for everything there is to read, which pay for a stream that is put back, and
those of the iteration under way. -/
def fuel (s : Quiet τ) : Nat :=
  4 * (T.readable s.transport).card + 6 * T.unread s.transport + s.driver.point.ahead

end Quiet

section

variable {τ : Type} {T : QuietTransport τ} {s t : Quiet τ}

/-- Every call of the driver brings the bound down, and leaves it inside the call or
returned. -/
theorem fuel_own {op : ReadOp} (hs : s.Reading) (h : (quiet T).step s (.driver op) = some t) :
    (t.Returned ∨ t.Reading) ∧ t.fuel T < s.fuel T := by
  obtain ⟨tr, r, hanswer, hreads, rfl⟩ := Answers.reads_of_call h
  unfold Quiet.Reading at hs
  unfold Quiet.fuel
  cases hreads with
  | call hp =>
    rw [hp] at hs
    exact absurd hs id
  | finished hp =>
    obtain ⟨hempty, hempty', hle⟩ := T.next_none _ tr hanswer
    refine ⟨.inl rfl, ?_⟩
    simp only [hp, hempty, hempty', Point.ahead]
    omega
  | visit id hp =>
    obtain ⟨hmem, herase, hle⟩ := T.next_some _ id tr hanswer
    have hcard := Finset.card_erase_add_one hmem
    obtain ⟨p, hv, hpoint⟩ := s.driver.visit_eq id
    rw [hv, hp]
    dsimp only
    rw [herase]
    rcases hpoint with rfl | rfl
    · refine ⟨.inr trivial, ?_⟩
      simp only [Point.ahead]
      omega
    · refine ⟨.inr trivial, ?_⟩
      simp only [Point.ahead]
      omega
  | announced id hp hroom =>
    cases hanswer
    exact ⟨.inr trivial, by simp [hp, Point.ahead]⟩
  | reserved id hp hroom =>
    cases hanswer
    exact ⟨.inr trivial, by simp [hp, Point.ahead]⟩
  | refused id hp hroom =>
    cases hanswer
    refine ⟨.inl rfl, ?_⟩
    rcases hp with hp | hp <;> simp [hp, Point.ahead]
  | received id data fin hp =>
    rw [hp] at hanswer
    obtain ⟨htaken, hsub, hle⟩ := T.recv_ok _ id data fin tr hanswer
    have hcard := (Finset.card_le_card hsub).trans (Finset.card_insert_le _ _)
    have hpos : 0 < data.length + fin.toNat := by
      rcases htaken with hdata | rfl
      · exact Nat.add_pos_left (List.length_pos_iff.mpr hdata) _
      · exact Nat.succ_pos _
    refine ⟨.inr trivial, ?_⟩
    simp only [hp, StreamQuicDriver.received, Point.ahead]
    omega
  | stopped id e hp =>
    rw [hp] at hanswer
    obtain ⟨hsub, hle⟩ := T.recv_error _ id e tr hanswer
    have hcard := Finset.card_le_card hsub
    refine ⟨.inr trivial, ?_⟩
    simp only [hp, Point.ahead]
    omega

/-- Inside `process_reads` the driver can always make its next call. -/
theorem quiet_can (hs : s.Reading) : ∃ l u, l.Own ∧ (quiet T).step s l = some u := by
  suffices hcall : ∃ op tr r, T.answered s.transport s.driver.point op = some tr ∧
      readStep s.driver s.events op = some r by
    obtain ⟨op, tr, r, htr, hr⟩ := hcall
    refine ⟨.driver op, ⟨r.driver, r.events, tr⟩, trivial, ?_⟩
    simp [quiet, Quiet.step, htr, hr]
  unfold Quiet.Reading at hs
  cases hp : s.driver.point with
  | readableNext =>
    obtain ⟨answer, tr, htr⟩ := T.answers_next s.transport
    cases answer with
    | none => exact ⟨.readableNext none, tr, _, htr, by simp [readStep, hp]; rfl⟩
    | some id => exact ⟨.readableNext (some id), tr, _, htr, by simp [readStep, hp]; rfl⟩
  | announce id =>
    cases he : s.events.tryReserve with
    | ok events => exact ⟨.tryReserve, _, _, rfl, by simp [readStep, hp, he]; rfl⟩
    | error e => exact ⟨.tryReserve, _, _, rfl, by simp [readStep, hp, he]; rfl⟩
  | reserve id =>
    cases he : s.events.tryReserve with
    | ok events => exact ⟨.tryReserve, _, _, rfl, by simp [readStep, hp, he]; rfl⟩
    | error e => exact ⟨.tryReserve, _, _, rfl, by simp [readStep, hp, he]; rfl⟩
  | recv id =>
    obtain ⟨answer, tr, htr⟩ := T.answers_recv s.transport id
    cases answer with
    | ok chunk => exact ⟨.streamRecv (.ok chunk), tr, _, htr, by simp [readStep, hp]; rfl⟩
    | error e =>
      exact ⟨.streamRecv (.error e), tr, ⟨{ s.driver with point := .readableNext },
        s.events.release, none⟩, htr, by cases e <;> simp [readStep, hp]⟩
  | _ =>
    rw [hp] at hs
    exact absurd hs id

/-- The bound descends. -/
theorem quiet_descends : (quiet T).Descends QuietLabel.Own Quiet.Returned Quiet.Reading
    (Quiet.fuel T) where
  can s hs := quiet_can hs
  own s l t hs hl ht := by
    cases l with
    | driver op => exact fuel_own hs ht
    | others events => exact absurd hl id
  env s l t hs hl ht := by
    cases l with
    | driver op => exact absurd trivial hl
    | others events =>
      cases ht
      exact ⟨hs, Nat.le_refl _⟩

/-- On its way through one call of `process_reads` the driver makes at most as many calls
as the bound says. -/
theorem processReads_calls_le {ls : List QuietLabel}
    (hway : (quiet T).Along (fun u _ ↦ u.Reading) s ls) (hrun : (quiet T).run s ls = some t) :
    ls.countP (QuietLabel.Own ·) + t.fuel T ≤ s.fuel T :=
  quiet_descends.countP_le hway hrun

/-- `process_reads` returns: once called, the driver is never stuck and comes back to the
worker after finitely many calls, whatever happens to the event channel between them.
`src/quiche/driver.rs:73–129`. -/
theorem processReads_returns (T : QuietTransport τ) {s : Quiet τ} (hs : s.Reading) :
    (quiet T).Inevitable QuietLabel.Own Quiet.Returned s :=
  quiet_descends.inevitable hs

end

/-- Bytes and fin left to read. -/
def Unread.size (u : Unread) : Nat := u.bytes.length + u.fin.toNat

namespace Transport

/-- Bytes and fins left to read on all streams. -/
def backlog (t : Transport) : Nat := ∑ id : StreamId, (t.unread id).size

private theorem backlog_update (t : Transport) (id : StreamId) (u : Unread)
    (readable : Finset StreamId) :
    backlog ⟨readable, Function.update t.unread id u⟩ + (t.unread id).size =
      t.backlog + u.size := by
  have hsize : (fun other ↦ (Function.update t.unread id u other).size) =
      Function.update (fun other ↦ (t.unread other).size) id u.size :=
    funext fun other ↦ Function.apply_update (fun _ ↦ Unread.size) t.unread id u other
  unfold backlog
  rw [hsize, Finset.sum_update_of_mem (Finset.mem_univ id),
    Finset.sum_eq_add_sum_sdiff_singleton_of_mem (Finset.mem_univ id)
      fun other ↦ (t.unread other).size]
  omega

/-- What a read delivers is no longer left to read. -/
private theorem size_delivers {u : Unread} {data : Bytes} {fin : Bool} (h : Delivers u data fin) :
    Unread.size ⟨u.bytes.drop data.length, u.fin && !fin⟩ + data.length + fin.toNat = u.size := by
  obtain ⟨hpart, -, hfin, -⟩ := h
  have hle := hpart.length_le
  simp only [Unread.size, List.length_drop]
  cases fin with
  | false =>
    simp only [Bool.not_false, Bool.and_true, Bool.toNat_false]
    omega
  | true =>
    rw [(hfin rfl).1]
    simp only [Bool.not_true, Bool.and_false, Bool.toNat_false, Bool.toNat_true]
    omega

private theorem exists_delivers {u : Unread} (h : u.Pending) :
    ∃ data fin, Delivers u data fin := by
  by_cases hlong : u.bytes.length ≤ STREAM_BUFFER_SIZE
  · exact ⟨u.bytes, u.fin, List.prefix_refl _, hlong, fun hfin ↦ ⟨hfin, rfl⟩, h⟩
  · refine ⟨u.bytes.take STREAM_BUFFER_SIZE, false, List.take_prefix _ _, List.length_take_le _ _,
      nofun, .inl fun hnil ↦ hlong ?_⟩
    rw [List.take_eq_nil_iff] at hnil
    rw [hnil.resolve_left (by decide)]
    exact Nat.zero_le _

private theorem quiet_next_some (t : Transport) (id : StreamId) (t' : Transport)
    (h : t.answer .readableNext (.readableNext (some id)) = some t') :
    id ∈ t.readable ∧ t'.readable = t.readable.erase id ∧ t'.backlog ≤ t.backlog := by
  simp only [answer] at h
  split at h
  · next hmem =>
    cases h
    exact ⟨hmem, rfl, Nat.le_refl _⟩
  · cases h

private theorem quiet_next_none (t t' : Transport)
    (h : t.answer .readableNext (.readableNext none) = some t') :
    t.readable = ∅ ∧ t'.readable = ∅ ∧ t'.backlog ≤ t.backlog := by
  simp only [answer] at h
  split at h
  · next hempty =>
    cases h
    exact ⟨hempty, hempty, Nat.le_refl _⟩
  · cases h

private theorem quiet_recv_ok (t : Transport) (id : StreamId) (data : Bytes) (fin : Bool)
    (t' : Transport) (h : t.recvPart id (.ok (data, fin)) = some t') :
    (data ≠ [] ∨ fin = true) ∧ t'.readable ⊆ insert id t.readable ∧
      t'.backlog + data.length + fin.toNat ≤ t.backlog := by
  obtain ⟨hdel, hsub, -, hunread⟩ := recvPart_ok h
  have hsum := backlog_update t id
    ⟨(t.unread id).bytes.drop data.length, (t.unread id).fin && !fin⟩ t'.readable
  rw [← hunread] at hsum
  have hsize := size_delivers hdel
  refine ⟨hdel.2.2.2, hsub, ?_⟩
  have heq : backlog ⟨t'.readable, t'.unread⟩ = t'.backlog := rfl
  omega

private theorem quiet_recv_error (t : Transport) (id : StreamId) (e : QuicheError) (t' : Transport)
    (h : t.recvPart id (.error e) = some t') :
    t'.readable ⊆ t.readable ∧ t'.backlog ≤ t.backlog := by
  obtain ⟨-, hunread, hread⟩ := recvPart_error (e := e) h
  refine ⟨hread ▸ Finset.erase_subset _ _, ?_⟩
  rw [backlog, hunread, backlog]

private theorem quiet_answers_next (t : Transport) :
    ∃ answer t', t.answer .readableNext (.readableNext answer) = some t' := by
  rcases t.readable.eq_empty_or_nonempty with hempty | ⟨id, hid⟩
  · exact ⟨none, t, if_pos hempty⟩
  · exact ⟨some id, _, if_pos hid⟩

private theorem quiet_answers_recv (t : Transport) (id : StreamId) :
    ∃ answer t', t.recvPart id answer = some t' := by
  by_cases hp : (t.unread id).Pending
  · obtain ⟨data, fin, hdel⟩ := exists_delivers hp
    exact ⟨.ok (data, fin), _, Option.map_eq_some_iff.mpr ⟨_, if_pos hdel, rfl⟩⟩
  · exact ⟨.error .done, _, Option.map_eq_some_iff.mpr ⟨_, if_neg hp, rfl⟩⟩

/-- A transport while the peer is silent; a stream stays readable until it is read to its
end. -/
def quiet : QuietTransport Transport where
  readableNext t answer := t.answer .readableNext (.readableNext answer)
  streamRecv := recvPart
  readable := readable
  unread := backlog
  next_some := quiet_next_some
  next_none := quiet_next_none
  recv_ok := quiet_recv_ok
  recv_error := quiet_recv_error
  answers_next := quiet_answers_next
  answers_recv := quiet_answers_recv

end Transport

/-- A call that finds `"a"` on stream 0 returns. -/
theorem oneUnread_returns : (quiet Transport.quiet).Inevitable QuietLabel.Own Quiet.Returned
    ⟨{ StreamQuicDriver.build 0 0 with point := .readableNext },
      .new SERVER_EVENT_CHANNEL_CAPACITY, oneUnread⟩ :=
  processReads_returns Transport.quiet trivial

end ExtQuiche.Driver
