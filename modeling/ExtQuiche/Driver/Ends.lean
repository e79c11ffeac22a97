import ExtQuiche.Driver.Sends

/-!
# Announcements and fins of one stream

Library `Driver`. `seen_streams` against the fins that `stream_recv` has returned,
`src/quiche/driver.rs:73–129`: an announced stream is in the set until its fin is read, and
its announcement is the first event of the stream, unless a stream whose fin has been read
is announced again.
-/

namespace ExtQuiche.Driver
open ExtQuiche.Base ExtQuiche.Conn

/-- A fin of the stream has been read. -/
def FinRead (received : StreamId → List (Bytes × Bool)) (id : StreamId) : Prop :=
  (received id).any (·.2) = true

instance (received : StreamId → List (Bytes × Bool)) (id : StreamId) :
    Decidable (FinRead received id) := inferInstanceAs (Decidable (_ = true))

/-- The driver is not about to announce a stream, with room on the channel, whose fin it has
read. -/
def Announces (id : StreamId) (d : StreamQuicDriver) (events : EventChannel)
    (received : StreamId → List (Bytes × Bool)) : ReadOp → Prop
  | .tryReserve => d.point = .announce id → events.HasRoom → ¬ FinRead received id
  | _ => True

/-- The stream is in the set from its announcement to its fin, and its announcement is the
first event of it. -/
structure Ordered (id : StreamId) (d : StreamQuicDriver) (sent : List DriverEvent)
    (received : StreamId → List (Bytes × Bool)) : Prop where
  seen : id ∈ d.seenStreams → ¬ FinRead received id
  announced : announcement id ∈ sent → id ∈ d.seenStreams ∨ FinRead received id
  unseen : d.point = .announce id → id ∉ d.seenStreams
  first : ∀ before, before ++ [announcement id] <+: sent → ∀ e ∈ before, e.streamId ≠ id

section

variable {id : StreamId} {d : StreamQuicDriver} {sent : List DriverEvent}
  {received : StreamId → List (Bytes × Bool)}

/-- A fin among the results of a stream is a fin among its events. -/
theorem Faithful.finRead_iff (h : Faithful d sent received) :
    FinRead received id ↔ ∃ e ∈ sent, e.streamId = id ∧ e.isFin = true := by
  rw [FinRead, ← h.chunks, List.any_eq_true]
  constructor
  · rintro ⟨chunk, hchunk, hfin⟩
    obtain ⟨e, he, heq⟩ := List.mem_filterMap.mp hchunk
    split at heq
    · next hid =>
      refine ⟨e, he, hid, ?_⟩
      cases e with
      | data id' data fin =>
        cases heq
        exact hfin
      | _ => cases heq
    · cases heq
  · rintro ⟨e, he, hid, hfin⟩
    cases e with
    | data id' data fin =>
      exact ⟨(data, fin), List.mem_filterMap.mpr ⟨_, he, if_pos hid⟩, hfin⟩
    | _ => cases hfin

/-- A driver about to announce a stream has sent nothing of it, or has read its fin. -/
private theorem Ordered.silent (h : Ordered id d sent received) (hf : Faithful d sent received)
    (hclient : clientInitiated id = true) (hp : d.point = .announce id)
    (hno : ¬ FinRead received id) : ∀ e ∈ sent, e.streamId ≠ id := by
  have hann : announcement id ∉ sent := fun hyes ↦
    (h.announced hyes).elim (h.unseen hp) hno
  rintro e he rfl
  cases ha : e.announces with
  | true => exact hann ((hf.announces e he ha).1 ▸ he)
  | false =>
    have hchunk : e.chunk?.isSome = true := by
      cases e with
      | data id' data fin => rfl
      | _ => cases ha
    obtain ⟨before, more, hsplit⟩ := List.append_of_mem he
    have hpart : before ++ [e] <+: sent := ⟨more, by simp [hsplit]⟩
    exact hann ((List.prefix_append before [e]).trans hpart |>.subset
      (hf.first before e hpart hchunk hclient))

/-- A fresh driver has neither announced nor read anything. -/
theorem ordered_build (connId : ConnId) (chan : ChanRef) :
    Ordered id (.build connId chan) [] fun _ ↦ [] := by
  constructor <;> simp [StreamQuicDriver.build, FinRead]

/-- A move that neither announces nor reads. -/
theorem Ordered.moved (h : Ordered id d sent received) {d' : StreamQuicDriver}
    (hseen : d'.seenStreams = d.seenStreams)
    (hpoint : d'.point = .announce id → id ∉ d.seenStreams) : Ordered id d' sent received where
  seen := hseen ▸ h.seen
  announced := hseen ▸ h.announced
  unseen := hseen ▸ hpoint
  first := h.first

private theorem ordered_point (h : Ordered id d sent received) {p : Point}
    (hp : p ≠ .announce id) :
    Ordered id { d with point := p } (sent ++ (none : Option DriverEvent).toList) received := by
  rw [Option.toList_none, List.append_nil]
  exact h.moved rfl fun hno ↦ absurd hno hp

private theorem ordered_visit (h : Ordered id d sent received) (id' : StreamId) :
    Ordered id (d.visit id') sent received :=
  h.moved (d.visit_seenStreams id') (d.visit_unseen id' id)

private theorem first_snoc {e : DriverEvent}
    (h : ∀ before, before ++ [announcement id] <+: sent → ∀ e ∈ before, e.streamId ≠ id)
    (he : e = announcement id → ∀ f ∈ sent, f.streamId ≠ id) :
    ∀ before, before ++ [announcement id] <+: sent ++ [e] → ∀ f ∈ before, f.streamId ≠ id := by
  intro before hpart
  rcases List.prefix_concat_iff.mp hpart with heq | hpart
  · obtain ⟨rfl, hf⟩ := List.append_inj' heq rfl
    cases hf
    exact he rfl
  · exact h before hpart

private theorem mem_announcement_snoc {e : DriverEvent} (he : e ≠ announcement id)
    (h : announcement id ∈ sent ++ [e]) : announcement id ∈ sent :=
  (List.mem_append.mp h).resolve_right fun hlast ↦ he (List.mem_singleton.mp hlast).symm

private theorem ordered_announced (h : Ordered id d sent received) (hf : Faithful d sent received)
    (hclient : clientInitiated id = true) {id' : StreamId} (hp : d.point = .announce id')
    (hno : id' = id → ¬ FinRead received id) :
    Ordered id { d with seenStreams := insert id' d.seenStreams, point := .reserve id' }
      (sent ++ [announcement id']) received := by
  rcases eq_or_ne id' id with rfl | hne
  · exact ⟨fun _ ↦ hno rfl, fun _ ↦ .inl (Finset.mem_insert_self _ _), fun hno ↦ (by cases hno),
      first_snoc h.first fun _ ↦ h.silent hf hclient hp (hno rfl)⟩
  · have hother : announcement id' ≠ announcement id := fun heq ↦
      hne (by simpa using congrArg DriverEvent.streamId heq)
    refine ⟨fun hid ↦ h.seen ((Finset.mem_insert.mp hid).resolve_left hne.symm), fun hid ↦ ?_,
      fun hno ↦ (by cases hno), first_snoc h.first fun heq ↦ absurd heq hother⟩
    exact (h.announced (mem_announcement_snoc hother hid)).imp_left Finset.mem_insert_of_mem

private theorem data_ne_announcement (id' : StreamId) (data : Bytes) (fin : Bool) :
    DriverEvent.data id' data fin ≠ announcement id := by
  intro heq
  have hann := congrArg DriverEvent.announces heq
  rw [announces_announcement] at hann
  cases hann

private theorem finRead_update {id' : StreamId} {data : Bytes} {fin : Bool} :
    FinRead (Function.update received id' (received id' ++ [(data, fin)])) id ↔
      FinRead received id ∨ id' = id ∧ fin = true := by
  rcases eq_or_ne id' id with rfl | hne
  · simp [FinRead]
  · simp [FinRead, hne, hne.symm]

/-- A fin that has been read stays read. -/
theorem finRead_recorded (h : FinRead received id) (d : StreamQuicDriver) (op : ReadOp) :
    FinRead (d.recorded received op) id := by
  unfold StreamQuicDriver.recorded
  split
  · split
    · exact finRead_update.mpr (.inl h)
    · exact h
  · exact h

private theorem ordered_received (h : Ordered id d sent received) (id' : StreamId)
    (data : Bytes) (fin : Bool) :
    Ordered id (d.received id' fin) (sent ++ [.data id' data fin])
      (Function.update received id' (received id' ++ [(data, fin)])) := by
  have hdata : DriverEvent.data id' data fin ≠ announcement id :=
    data_ne_announcement id' data fin
  refine ⟨fun hid ↦ ?_, fun hid ↦ ?_, fun hno ↦ (by cases hno),
    first_snoc h.first fun heq ↦ absurd heq hdata⟩
  · dsimp only [StreamQuicDriver.received] at hid
    rw [finRead_update]
    rintro (hold | ⟨rfl, rfl⟩)
    · split at hid
      · exact h.seen (Finset.mem_of_mem_erase hid) hold
      · exact h.seen hid hold
    · exact absurd hid (Finset.notMem_erase _ _)
  · rw [finRead_update]
    rcases h.announced (mem_announcement_snoc hdata hid) with hseen | hold
    · dsimp only [StreamQuicDriver.received]
      split
      · next hfin =>
        rcases eq_or_ne id' id with rfl | hne
        · exact .inr (.inr ⟨rfl, hfin⟩)
        · exact .inl (Finset.mem_erase.mpr ⟨hne.symm, hseen⟩)
      · exact .inl hseen
    · exact .inr (.inl hold)

/-- A call of `process_reads` keeps the order, unless it announces the stream again. -/
theorem Ordered.reads {events : EventChannel} {op : ReadOp} {r : ReadResult}
    (h : Ordered id d sent received) (hf : Faithful d sent received)
    (hclient : clientInitiated id = true) (hr : Reads d events op r)
    (hok : Announces id d events received op) :
    Ordered id r.driver (sent ++ r.sent.toList) (d.recorded received op) := by
  cases hr with
  | call hp => exact ordered_point h (by simp)
  | finished hp => exact ordered_point h (by simp)
  | visit id' hp => simpa [StreamQuicDriver.recorded] using ordered_visit h id'
  | announced id' hp hroom =>
    apply ordered_announced h hf hclient hp
    rintro rfl
    exact hok hp hroom
  | reserved id' hp hroom => exact ordered_point h (by simp)
  | refused id' hp hroom => exact ordered_point h (by simp)
  | received id' data fin hp =>
    simp only [Option.toList_some, StreamQuicDriver.recorded, hp]
    exact ordered_received h id' data fin
  | stopped id' e hp => exact ordered_point h (by simp)

/-- A call of `process_writes` keeps the order. -/
theorem Ordered.writes {tx : Channel StreamWriter} {op : WriteOp} {r : WriteResult}
    (h : Ordered id d sent received) (hr : Writes d tx op r) :
    Ordered id r.driver sent received := by
  cases hr with
  | sent id todo bytes fin rest answer hp hq =>
    refine h.moved rfl fun hno ↦ ?_
    dsimp only at hno
    split at hno <;> cases hno
  | drained chunk rest hp hq =>
    refine h.moved rfl fun hno ↦ ?_
    have hpoint : d.point = _ := hno
    rw [hp] at hpoint
    cases hpoint
  | _ => exact h.moved rfl fun hno ↦ by cases hno

end

end ExtQuiche.Driver
