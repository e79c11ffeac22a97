import ExtQuiche.Driver.Close
import ExtQuiche.Driver.Writes

/-!
# What a driver sends

Library `Driver`. The events of one driver against the results of its `stream_recv`
calls, `src/quiche/driver.rs:73–129`: every successful result is sent as one data event,
in order, and a stream of the peer is announced before its first data event.
-/

namespace ExtQuiche.Driver
open ExtQuiche.Base ExtQuiche.Conn

/-- Payloads and fin flags of a stream among events, oldest first. -/
def chunksIn (id : StreamId) (events : List DriverEvent) : List (Bytes × Bool) :=
  events.filterMap fun e ↦ if e.streamId = id then e.chunk? else none

/-- Results of `stream_recv` by stream, after a call. -/
def StreamQuicDriver.recorded (d : StreamQuicDriver) (received : StreamId → List (Bytes × Bool)) :
    ReadOp → StreamId → List (Bytes × Bool)
  | .streamRecv (.ok chunk) =>
    match d.point with
    | .recv id => Function.update received id (received id ++ [chunk])
    | _ => received
  | _ => received

/-- Every data event of a stream of the peer comes after the stream's announcement. -/
def AnnouncedFirst (sent : List DriverEvent) : Prop :=
  ∀ before e, before ++ [e] <+: sent → e.chunk?.isSome = true →
    clientInitiated e.streamId = true → announcement e.streamId ∈ before

/-- The events sent so far say what was received, and where the driver will go on. -/
structure Faithful (d : StreamQuicDriver) (sent : List DriverEvent)
    (received : StreamId → List (Bytes × Bool)) : Prop where
  chunks : ∀ id, chunksIn id sent = received id
  first : AnnouncedFirst sent
  announces : ∀ e ∈ sent, e.announces = true →
    e = announcement e.streamId ∧ clientInitiated e.streamId = true
  seen : ∀ id ∈ d.seenStreams, announcement id ∈ sent
  announcing : ∀ id, d.point = .announce id → clientInitiated id = true
  draining : ∀ id, d.point = .reserve id ∨ d.point = .recv id → clientInitiated id = true →
    announcement id ∈ sent

section

variable {d : StreamQuicDriver} {sent : List DriverEvent} {received : StreamId → List (Bytes × Bool)}

/-- A fresh driver has sent nothing. -/
theorem faithful_build (connId : ConnId) (chan : ChanRef) :
    Faithful (.build connId chan) [] fun _ ↦ [] := by
  constructor <;> simp [chunksIn, AnnouncedFirst, StreamQuicDriver.build]

/-- A move to a point that neither announces nor drains a stream. -/
theorem Faithful.moved (h : Faithful d sent received) {d' : StreamQuicDriver}
    (hseen : d'.seenStreams = d.seenStreams)
    (hpoint : ∀ id, d'.point ≠ .announce id ∧ d'.point ≠ .reserve id ∧ d'.point ≠ .recv id) :
    Faithful d' sent received where
  chunks := h.chunks
  first := h.first
  announces := h.announces
  seen := hseen ▸ h.seen
  announcing id hp := absurd hp (hpoint id).1
  draining id hp := by
    rcases hp with hp | hp
    · exact absurd hp (hpoint id).2.1
    · exact absurd hp (hpoint id).2.2

private theorem faithful_point (h : Faithful d sent received) {p : Point}
    (hp : ∀ id, p ≠ .announce id ∧ p ≠ .reserve id ∧ p ≠ .recv id) :
    Faithful { d with point := p } (sent ++ (none : Option DriverEvent).toList) received := by
  rw [Option.toList_none, List.append_nil]
  exact h.moved rfl hp

/-- An unseen stream of the peer is to be announced, any other one to be drained. -/
private theorem faithful_visit (h : Faithful d sent received) (id : StreamId) :
    Faithful (d.visit id) sent received := by
  unfold StreamQuicDriver.visit
  split
  · next hnew =>
    rw [Bool.and_eq_true] at hnew
    refine ⟨h.chunks, h.first, h.announces, h.seen, ?_, ?_⟩
    · rintro id' hp
      cases hp
      exact hnew.1
    · rintro id' (hp | hp) <;> cases hp
  · next hold =>
    refine ⟨h.chunks, h.first, h.announces, h.seen, ?_, ?_⟩
    · rintro id' hp
      cases hp
    · rintro id' (hp | hp) hclient
      · cases hp
        simp only [hclient, Bool.true_and, Bool.not_eq_true, Bool.not_eq_false',
          decide_eq_true_eq] at hold
        exact h.seen id hold
      · cases hp

private theorem announcedFirst_snoc (h : AnnouncedFirst sent) {e : DriverEvent}
    (he : e.chunk?.isSome = true → clientInitiated e.streamId = true →
      announcement e.streamId ∈ sent) : AnnouncedFirst (sent ++ [e]) := by
  intro before f hprefix
  rcases List.prefix_concat_iff.mp hprefix with heq | hprefix
  · obtain ⟨rfl, hf⟩ := List.append_inj' heq rfl
    cases hf
    exact he
  · exact h before f hprefix

/-- Chunks of one more event. -/
theorem chunksIn_snoc (id : StreamId) (sent : List DriverEvent) (e : DriverEvent) :
    chunksIn id (sent ++ [e]) =
      chunksIn id sent ++ (if e.streamId = id then e.chunk? else none).toList := by
  rw [chunksIn, List.filterMap_append]
  rfl

/-- The announcement of a stream of the peer. -/
private theorem faithful_announced (h : Faithful d sent received) {id : StreamId}
    (hp : d.point = .announce id) :
    Faithful { d with seenStreams := insert id d.seenStreams, point := .reserve id }
      (sent ++ [announcement id]) received where
  chunks id' := by simp [chunksIn_snoc, h.chunks]
  first := announcedFirst_snoc h.first fun hno ↦ by simp at hno
  announces e he ha := by
    rcases List.mem_append.mp he with he | he
    · exact h.announces e he ha
    · rw [List.mem_singleton.mp he, streamId_announcement]
      exact ⟨rfl, h.announcing id hp⟩
  seen id' hid := by
    rcases Finset.mem_insert.mp hid with rfl | hid
    · exact List.mem_append_right _ (List.mem_singleton_self _)
    · exact List.mem_append_left _ (h.seen id' hid)
  announcing _ hno := by cases hno
  draining id' hp' _ := by
    rcases hp' with hp' | hp'
    · cases hp'
      exact List.mem_append_right _ (List.mem_singleton_self _)
    · cases hp'

/-- A successful `stream_recv` is sent as it is. -/
private theorem faithful_received (h : Faithful d sent received) {id : StreamId}
    (hp : d.point = .recv id) (data : Bytes) (fin : Bool) :
    Faithful (d.received id fin) (sent ++ [.data id data fin])
      (Function.update received id (received id ++ [(data, fin)])) where
  chunks id' := by
    rw [chunksIn_snoc, h.chunks]
    rcases eq_or_ne id' id with rfl | hne
    · simp [DriverEvent.streamId, DriverEvent.chunk?]
    · simp [DriverEvent.streamId, hne, hne.symm]
  first := announcedFirst_snoc h.first fun _ ↦ h.draining id (.inr hp)
  announces e he ha := by
    rcases List.mem_append.mp he with he | he
    · exact h.announces e he ha
    · rw [List.mem_singleton.mp he] at ha
      cases ha
  seen id' hid := by
    refine List.mem_append_left _ (h.seen id' ?_)
    dsimp only [StreamQuicDriver.received] at hid
    split at hid
    · exact Finset.mem_of_mem_erase hid
    · exact hid
  announcing _ hno := by cases hno
  draining id' hp' hclient := by
    rcases hp' with hp' | hp'
    · cases hp'
      exact List.mem_append_left _ (h.draining id (.inr hp) hclient)
    · cases hp'

/-- A call of `process_reads` keeps the account. -/
theorem Faithful.reads {events : EventChannel} {op : ReadOp} {r : ReadResult}
    (h : Faithful d sent received) (hr : Reads d events op r) :
    Faithful r.driver (sent ++ r.sent.toList) (d.recorded received op) := by
  cases hr with
  | call hp => exact faithful_point h (by simp)
  | finished hp => exact faithful_point h (by simp)
  | visit id hp => simpa [StreamQuicDriver.recorded] using faithful_visit h id
  | announced id hp hroom => exact faithful_announced h hp
  | reserved id hp hroom =>
    simp only [Option.toList_none, List.append_nil, StreamQuicDriver.recorded]
    refine ⟨h.chunks, h.first, h.announces, h.seen, fun _ hno ↦ (by cases hno), ?_⟩
    rintro id' (hp' | hp') hclient
    · cases hp'
    · cases hp'
      exact h.draining id (.inl hp) hclient
  | refused id hp hroom => exact faithful_point h (by simp)
  | received id data fin hp =>
    simp only [Option.toList_some, StreamQuicDriver.recorded, hp]
    exact faithful_received h hp data fin
  | stopped id e hp => exact faithful_point h (by simp)

/-- A call of `process_writes` keeps the account. -/
theorem Faithful.writes {tx : Channel StreamWriter} {op : WriteOp} {r : WriteResult}
    (h : Faithful d sent received) (hr : Writes d tx op r) : Faithful r.driver sent received := by
  cases hr with
  | sent id todo bytes fin rest answer hp hq =>
    refine h.moved rfl fun id' ↦ ?_
    dsimp only
    split <;> simp
  | drained chunk rest hp hq => exact h.moved rfl (by simp [StreamQuicDriver.enqueue, hp])
  | _ => exact h.moved rfl (by simp)

end

end ExtQuiche.Driver
