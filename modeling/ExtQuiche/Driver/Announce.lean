import ExtQuiche.Base.Machine
import ExtQuiche.Driver.Reads

/-!
# Announcements of one driver

Library `Driver`. Runs of `process_reads` on one driver, `src/quiche/driver.rs:73–129`,
while the server and the other drivers change the shared event channel in any way.
`seen_streams` is filled by the announcement and emptied by the fin, so a stream that
the transport reports again after its fin is announced again.
-/

namespace ExtQuiche.Driver
open ExtQuiche.Base ExtQuiche.Conn

/-- One driver, the event channel, everything the driver has sent, oldest first, and
the streams whose fin `stream_recv` has returned. -/
structure Reader where
  driver : StreamQuicDriver
  events : EventChannel
  sent : List DriverEvent
  finished : Finset StreamId

/-- A call of the driver, or a change of the shared channel by the other parties. -/
inductive ReaderLabel where
  | driver (op : ReadOp)
  | others (events : EventChannel)

/-- Streams whose fin has been read after a call. -/
def finishedAfter (finished : Finset StreamId) : Option DriverEvent → Finset StreamId
  | some e => if e.isFin then insert e.streamId finished else finished
  | none => finished

/-- One step of the reader. -/
def Reader.step (s : Reader) : ReaderLabel → Option Reader
  | .driver op =>
    (readStep s.driver s.events op).map fun r ↦
      { driver := r.driver
        events := r.events
        sent := s.sent ++ r.sent.toList
        finished := finishedAfter s.finished r.sent }
  | .others events => some { s with events }

/-- A driver fresh from `ConnState::build`, on a channel in any state. -/
def Reader.Init (s : Reader) : Prop :=
  (∃ connId chan, s.driver = .build connId chan) ∧ s.sent = [] ∧ s.finished = ∅

/-- Runs of one driver. -/
def reader : Machine Reader ReaderLabel := ⟨Reader.Init, Reader.step⟩

/-- The transport returns no further `Ok` for a stream after its fin. -/
def NoOkAfterFin (s : Reader) : ReaderLabel → Prop
  | .driver (.streamRecv (.ok _)) => ∀ id ∈ s.finished, s.driver.point ≠ .recv id
  | _ => True

/-- No stream whose fin has been read is about to be announced with room on the
channel: `stream_readable_next` has not reported it again. -/
def NotReported (s : Reader) : ReaderLabel → Prop
  | .driver .tryReserve => s.events.HasRoom → ∀ id ∈ s.finished, s.driver.point ≠ .announce id
  | _ => True

instance (s : Reader) : ∀ l, Decidable (NoOkAfterFin s l)
  | .driver (.streamRecv (.ok _)) =>
    (Finset.decidableDforallFinset : Decidable (∀ id ∈ s.finished, s.driver.point ≠ .recv id))
  | .driver (.streamRecv (.error _)) | .driver .call | .driver (.readableNext _)
  | .driver .tryReserve | .others _ => .isTrue trivial

instance (s : Reader) : ∀ l, Decidable (NotReported s l)
  | .driver .tryReserve =>
    have : Decidable (∀ id ∈ s.finished, s.driver.point ≠ .announce id) :=
      Finset.decidableDforallFinset
    inferInstanceAs (Decidable (_ → _))
  | .driver (.streamRecv _) | .driver .call | .driver (.readableNext _)
  | .others _ => .isTrue trivial

/-- At most one announcement of each stream, and no event of a stream after its fin. -/
structure AnnouncedOnce (sent : List DriverEvent) : Prop where
  once : ∀ id, (sent.filter fun e ↦ e.announces && e.streamId == id).length ≤ 1
  silent : sent.Pairwise fun e f ↦ e.isFin = true → f.streamId ≠ e.streamId

private theorem announcedOnce_nil : AnnouncedOnce [] := ⟨by simp, .nil⟩

private theorem announcedOnce_left {sent more : List DriverEvent}
    (h : AnnouncedOnce (sent ++ more)) : AnnouncedOnce sent := by
  refine ⟨fun id ↦ ?_, (List.pairwise_append.mp h.silent).1⟩
  have hid := h.once id
  rw [List.filter_append, List.length_append] at hid
  omega

private theorem announcedOnce_snoc {sent : List DriverEvent} {e : DriverEvent}
    (h : AnnouncedOnce sent)
    (hnew : e.announces = true → ∀ f ∈ sent, f.announces = true → f.streamId ≠ e.streamId)
    (hfin : ∀ f ∈ sent, f.isFin = true → e.streamId ≠ f.streamId) :
    AnnouncedOnce (sent ++ [e]) := by
  constructor
  · intro id
    rw [List.filter_append, List.length_append]
    by_cases he : (e.announces && e.streamId == id) = true
    · rw [Bool.and_eq_true, beq_iff_eq] at he
      have hnone : sent.filter (fun f ↦ f.announces && f.streamId == id) = [] := by
        apply List.filter_eq_nil_iff.mpr
        intro f hf ha
        rw [Bool.and_eq_true, beq_iff_eq] at ha
        exact hnew he.1 f hf ha.1 (ha.2.trans he.2.symm)
      rw [hnone, List.length_nil, Nat.zero_add]
      exact List.length_filter_le _ _
    · simpa [he] using h.once id
  · rw [List.pairwise_append]
    refine ⟨h.silent, List.pairwise_singleton _ _, ?_⟩
    intro f hf g hg
    rw [List.mem_singleton] at hg
    subst hg
    exact hfin f hf

/-- What carries the single announcement from call to call. -/
private structure ReaderInv (s : Reader) : Prop where
  once : AnnouncedOnce s.sent
  fins : ∀ e ∈ s.sent, e.isFin = true → e.streamId ∈ s.finished
  finished : ∀ id ∈ s.finished, ∃ e ∈ s.sent, e.isFin = true ∧ e.streamId = id
  announced : ∀ e ∈ s.sent, e.announces = true →
    e.streamId ∈ s.driver.seenStreams ∨ e.streamId ∈ s.finished
  unseen : ∀ id, s.driver.point = .announce id → id ∉ s.driver.seenStreams

private theorem readerInv_init {s : Reader} (h : s.Init) : ReaderInv s := by
  obtain ⟨⟨c, ch, hd⟩, hs, hf⟩ := h
  constructor <;> simp [hs, hf, hd, StreamQuicDriver.build, announcedOnce_nil]

/-- A call that sends nothing keeps the invariant when it keeps the seen streams. -/
private theorem readerInv_quiet {s : Reader} (hi : ReaderInv s) {d : StreamQuicDriver}
    {events : EventChannel} (hseen : d.seenStreams = s.driver.seenStreams)
    (hpoint : ∀ id, d.point = .announce id → id ∉ d.seenStreams) :
    ReaderInv ⟨d, events, s.sent, s.finished⟩ :=
  ⟨hi.once, hi.fins, hi.finished, by simpa only [hseen] using hi.announced, hpoint⟩

private theorem readerInv_point {s : Reader} (hi : ReaderInv s) {events : EventChannel}
    {p : Point} (hp : ∀ id, p ≠ .announce id) :
    ReaderInv ⟨{ s.driver with point := p }, events, s.sent ++ (none : Option DriverEvent).toList,
      finishedAfter s.finished none⟩ := by
  simp only [Option.toList_none, List.append_nil, finishedAfter]
  exact readerInv_quiet hi rfl fun id h ↦ absurd h (hp id)

private theorem readerInv_announced {s : Reader} (hi : ReaderInv s) {id : StreamId}
    {events : EventChannel} (hp : s.driver.point = .announce id) (hid : id ∉ s.finished) :
    ReaderInv ⟨{ s.driver with seenStreams := insert id s.driver.seenStreams, point := .reserve id },
      events, s.sent ++ [announcement id], s.finished⟩ := by
  have hnew : ∀ f ∈ s.sent, f.announces = true → f.streamId ≠ id := by
    rintro f hf ha rfl
    rcases hi.announced f hf ha with h | h
    · exact hi.unseen _ hp h
    · exact hid h
  have hfin : ∀ f ∈ s.sent, f.isFin = true → id ≠ f.streamId := by
    rintro f hf ha rfl
    exact hid (hi.fins f hf ha)
  constructor
  · apply announcedOnce_snoc hi.once
    · simpa using hnew
    · simpa using hfin
  · intro e he hf
    rcases List.mem_append.mp he with h | h
    · exact hi.fins e h hf
    · rw [List.mem_singleton.mp h, isFin_announcement] at hf
      cases hf
  · intro x hx
    obtain ⟨e, he, hf⟩ := hi.finished x hx
    exact ⟨e, List.mem_append_left _ he, hf⟩
  · intro e he ha
    change e.streamId ∈ insert id s.driver.seenStreams ∨ _
    rcases List.mem_append.mp he with h | h
    · exact (hi.announced e h ha).imp_left fun hx ↦ Finset.mem_insert_of_mem hx
    · rw [List.mem_singleton.mp h, streamId_announcement]
      exact .inl (Finset.mem_insert_self _ _)
  · simp

private theorem readerInv_received {s : Reader} (hi : ReaderInv s) {id : StreamId} {data : Bytes}
    {fin : Bool} {events : EventChannel} (hid : id ∉ s.finished) :
    ReaderInv ⟨s.driver.received id fin, events, s.sent ++ [.data id data fin],
      finishedAfter s.finished (some (.data id data fin))⟩ := by
  have hsub : s.finished ⊆ finishedAfter s.finished (some (.data id data fin)) := by
    simp only [finishedAfter]
    split
    · exact Finset.subset_insert _ _
    · exact Finset.Subset.refl _
  constructor
  · apply announcedOnce_snoc hi.once
    · simp [DriverEvent.announces]
    · rintro f hf ha rfl
      exact hid (hi.fins f hf ha)
  · intro e he hf
    rcases List.mem_append.mp he with h | h
    · exact hsub (hi.fins e h hf)
    · rw [List.mem_singleton.mp h] at hf ⊢
      simp [finishedAfter, hf]
  · intro x hx
    by_cases hold : x ∈ s.finished
    · obtain ⟨e, he, hf⟩ := hi.finished x hold
      exact ⟨e, List.mem_append_left _ he, hf⟩
    · cases fin
      · exact absurd hx hold
      · have hx' : x = id := by
          simpa [finishedAfter, DriverEvent.isFin, DriverEvent.streamId, hold] using hx
        exact ⟨_, List.mem_append_right _ (List.mem_singleton_self _), rfl, hx'.symm⟩
  · intro e he ha
    rcases List.mem_append.mp he with h | h
    · rcases hi.announced e h ha with hseen | hfinished
      · cases fin
        · exact .inl hseen
        · by_cases hx : e.streamId = id
          · exact .inr (by simp [finishedAfter, DriverEvent.isFin, DriverEvent.streamId, ← hx])
          · exact .inl (by simpa [StreamQuicDriver.received, hx] using hseen)
      · exact .inr (hsub hfinished)
    · rw [List.mem_singleton.mp h] at ha
      cases ha
  · simp [StreamQuicDriver.received]

private theorem readerInv_step {s t : Reader} {l : ReaderLabel} (hi : ReaderInv s)
    (hfin : NoOkAfterFin s l) (hrep : NotReported s l) (h : s.step l = some t) : ReaderInv t := by
  cases l with
  | others events =>
    cases h
    exact readerInv_quiet hi rfl hi.unseen
  | driver op =>
    obtain ⟨r, hr, rfl⟩ := Option.map_eq_some_iff.mp h
    cases readStep_reads hr with
    | call => exact readerInv_point hi (by simp)
    | finished => exact readerInv_point hi (by simp)
    | visit id hp =>
      simp only [Option.toList_none, List.append_nil, finishedAfter]
      apply readerInv_quiet hi (s.driver.visit_seenStreams id)
      intro x hx
      rw [StreamQuicDriver.visit_seenStreams]
      exact s.driver.visit_unseen id x hx
    | announced id hp hroom =>
      simpa [finishedAfter] using readerInv_announced hi hp fun hid ↦ hrep hroom id hid hp
    | reserved => exact readerInv_point hi (by simp)
    | refused => exact readerInv_point hi (by simp)
    | received id data fin hp => exact readerInv_received hi fun hid ↦ hfin id hid hp
    | stopped => exact readerInv_point hi (by simp)

private theorem sent_step {s t : Reader} {l : ReaderLabel} (h : s.step l = some t) :
    ∃ more, t.sent = s.sent ++ more := by
  cases l with
  | others events => cases h; exact ⟨[], by simp⟩
  | driver op =>
    obtain ⟨r, -, rfl⟩ := Option.map_eq_some_iff.mp h
    exact ⟨_, rfl⟩

private theorem sent_run {s t : Reader} {ls : List ReaderLabel} (h : reader.run s ls = some t) :
    ∃ more, t.sent = s.sent ++ more :=
  Machine.run_invariant (M := reader) (I := fun u ↦ ∃ more, u.sent = s.sent ++ more)
    (fun u l v ⟨more, hu⟩ hv ↦ by
      obtain ⟨m, hm⟩ := sent_step hv
      exact ⟨more ++ m, by rw [hm, hu, List.append_assoc]⟩)
    ⟨[], by simp⟩ h

/-- The step that announces a finished stream again breaks the law for good. -/
private theorem not_announcedOnce_reported {s t : Reader} {l : ReaderLabel} (hi : ReaderInv s)
    (hrep : ¬ NotReported s l) (h : s.step l = some t) : ¬ AnnouncedOnce t.sent := by
  unfold NotReported at hrep
  split at hrep
  case h_2 => exact absurd trivial hrep
  push Not at hrep
  obtain ⟨hroom, id, hid, hp⟩ := hrep
  obtain ⟨r, hr, rfl⟩ := Option.map_eq_some_iff.mp h
  cases readStep_reads hr with
  | reserved id' hp' => rw [hp] at hp'; cases hp'
  | refused id' _ hroom' => exact absurd hroom hroom'
  | announced id' hp' =>
    rw [hp] at hp'
    cases hp'
    obtain ⟨e, he, hf, heq⟩ := hi.finished id hid
    intro hbad
    have := (List.pairwise_append.mp hbad.silent).2.2 e he (announcement id) (by simp) hf
    exact this (by rw [streamId_announcement, heq])

private theorem announcedOnce_iff_aux {s t : Reader} {ls : List ReaderLabel} (hi : ReaderInv s)
    (hfin : reader.Along NoOkAfterFin s ls) (h : reader.run s ls = some t) :
    AnnouncedOnce t.sent ↔ reader.Along NotReported s ls := by
  induction ls generalizing s with
  | nil =>
    cases h
    simpa using hi.once
  | cons l ls ih =>
    obtain ⟨u, hu, ht⟩ := Option.bind_eq_some_iff.mp h
    rw [Machine.along_cons _ hu] at hfin ⊢
    by_cases hrep : NotReported s l
    · rw [ih (readerInv_step hi hfin.1 hrep hu) hfin.2 ht]
      simp [hrep]
    · obtain ⟨more, hmore⟩ := sent_run ht
      have hbad := not_announcedOnce_reported hi hrep hu
      constructor
      · intro hgood
        exact absurd (announcedOnce_left (hmore ▸ hgood)) hbad
      · exact fun hgood ↦ absurd hgood.1 hrep

/-- A driver announces each stream at most once and is silent on a stream after its
fin exactly in the runs where no client-initiated stream whose fin has been read is
reported readable again while the channel has room.
`src/quiche/driver.rs:44–46,80–92,114–116`. -/
theorem announcedOnce_iff {s t : Reader} {ls : List ReaderLabel} (h0 : s.Init)
    (hfin : reader.Along NoOkAfterFin s ls) (h : reader.run s ls = some t) :
    AnnouncedOnce t.sent ↔ reader.Along NotReported s ls :=
  announcedOnce_iff_aux (readerInv_init h0) hfin h

/-- A reader on an empty event channel. -/
def freshReader : Reader := ⟨.build 0 0, .new SERVER_EVENT_CHANNEL_CAPACITY, [], ∅⟩

/-- Stream 0 delivers `"a"` with its fin and is drained. -/
def finRead : List ReaderLabel :=
  [.driver .call, .driver (.readableNext (some 0)), .driver .tryReserve, .driver .tryReserve,
    .driver (.streamRecv (.ok ([97], true))), .driver .tryReserve,
    .driver (.streamRecv (.error .done)), .driver (.readableNext none)]

/-- `RESET_STREAM` after the fin: the stream is readable again, `stream_recv` errs. -/
def resetAfterFin : List ReaderLabel :=
  [.driver .call, .driver (.readableNext (some 0)), .driver .tryReserve, .driver .tryReserve,
    .driver (.streamRecv (.error (.streamReset 0))), .driver (.readableNext none)]

/-- A stream read to its fin is announced once. -/
theorem finRead_announcedOnce :
    ∃ t, reader.run freshReader finRead = some t ∧ AnnouncedOnce t.sent := by
  obtain ⟨t, ht⟩ : ∃ t, reader.run freshReader finRead = some t :=
    Option.isSome_iff_exists.mp (by decide)
  exact ⟨t, ht, (announcedOnce_iff ⟨⟨0, 0, rfl⟩, rfl, rfl⟩ (by decide) ht).mpr (by decide)⟩

/-- A reset after the fin announces the stream a second time, after its fin. -/
theorem resetAfterFin_announced :
    ∃ t, reader.Along NoOkAfterFin freshReader (finRead ++ resetAfterFin) ∧
      reader.run freshReader (finRead ++ resetAfterFin) = some t ∧
      t.sent = [.newBidi 0, .data 0 [97] true, .newBidi 0] ∧ ¬ AnnouncedOnce t.sent := by
  have h : (reader.run freshReader (finRead ++ resetAfterFin)).map Reader.sent =
      some [.newBidi 0, .data 0 [97] true, .newBidi 0] := by decide
  obtain ⟨t, ht, hs⟩ := Option.map_eq_some_iff.mp h
  refine ⟨t, by decide, ht, hs, ?_⟩
  rw [hs]
  intro hbad
  exact absurd (hbad.once 0) (by decide)

end ExtQuiche.Driver
