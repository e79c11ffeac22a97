import ExtQuiche.Base.Machine
import ExtQuiche.Driver.Reads

/-!
# Readiness under back-pressure

Library `Driver`. `process_reads`, `src/quiche/driver.rs:73–129`, against an
edge-triggered transport: `stream_readable_next` takes the id it returns out of the
readable set, and an id enters the set again only when its stream turns from having
nothing to read to having something. Both `break 'outer` exits leave after the id has
been taken out. `Driver.Receiving` has the same loop against other transports, also such as
put an id back after a partial read.
-/

namespace ExtQuiche.Driver
open ExtQuiche.Base ExtQuiche.Conn

/-- What the transport still holds for one stream. -/
structure Unread where
  bytes : Bytes
  fin : Bool
  deriving DecidableEq

/-- Bytes or the end of the stream are still to be read. -/
def Unread.Pending (u : Unread) : Prop := u.bytes ≠ [] ∨ u.fin = true

instance (u : Unread) : Decidable u.Pending := inferInstanceAs (Decidable (_ ∨ _))

/-- Receive side of the transport. -/
structure Transport where
  readable : Finset StreamId
  unread : StreamId → Unread

namespace Transport

/-- A successful read: a piece of the unread bytes that fits the buffer, with the fin
only at their end, and not empty-handed. -/
def Delivers (u : Unread) (data : Bytes) (fin : Bool) : Prop :=
  data <+: u.bytes ∧ data.length ≤ STREAM_BUFFER_SIZE ∧
    (fin = true → u.fin = true ∧ data = u.bytes) ∧ (data ≠ [] ∨ fin = true)

instance (u : Unread) (data : Bytes) (fin : Bool) : Decidable (Delivers u data fin) :=
  inferInstanceAs (Decidable (_ ∧ _ ∧ _ ∧ _))

/-- The transport after it gave the answer to a call made from `point`; `none` where
it cannot give that answer. -/
def answer (t : Transport) (point : Point) : ReadOp → Option Transport
  | .call => some t
  | .tryReserve => some t
  | .readableNext none => if t.readable = ∅ then some t else none
  | .readableNext (some id) =>
    if id ∈ t.readable then some { t with readable := t.readable.erase id } else none
  | .streamRecv (.ok (data, fin)) =>
    match point with
    | .recv id =>
      if Delivers (t.unread id) data fin then
        some { t with
          unread := Function.update t.unread id
            ⟨(t.unread id).bytes.drop data.length, (t.unread id).fin && !fin⟩ }
      else none
    | _ => none
  | .streamRecv (.error _) =>
    match point with
    | .recv id => if (t.unread id).Pending then none else some t
    | _ => none

/-- The peer's data arrives: only a stream without anything unread becomes readable. -/
def arrive (t : Transport) (id : StreamId) (bytes : Bytes) (fin : Bool) : Transport :=
  let u : Unread := ⟨(t.unread id).bytes ++ bytes, (t.unread id).fin || fin⟩
  { readable := if ¬ (t.unread id).Pending ∧ u.Pending then insert id t.readable else t.readable
    unread := Function.update t.unread id u }

/-- The peer resets the stream: what is unread is discarded. -/
def reset (t : Transport) (id : StreamId) : Transport :=
  { t with unread := Function.update t.unread id ⟨[], false⟩ }

end Transport

/-- One driver, the shared event channel and the driver's transport. -/
structure Receiver where
  driver : StreamQuicDriver
  events : EventChannel
  transport : Transport

/-- A call of the driver, a change of the shared channel by the other parties (the
server drains it, other drivers fill it), or the peer at work. -/
inductive ReceiverLabel where
  | driver (op : ReadOp)
  | others (events : EventChannel)
  | arrive (id : StreamId) (bytes : Bytes) (fin : Bool)
  | reset (id : StreamId)

/-- One step of the receiver. -/
def Receiver.step (s : Receiver) : ReceiverLabel → Option Receiver
  | .driver op =>
    (s.transport.answer s.driver.point op).bind fun transport ↦
      (readStep s.driver s.events op).map fun r ↦ ⟨r.driver, r.events, transport⟩
  | .others events => some { s with events }
  | .arrive id bytes fin => some { s with transport := s.transport.arrive id bytes fin }
  | .reset id => some { s with transport := s.transport.reset id }

/-- Between two calls, with every stream that has something unread readable. -/
def Receiver.Init (s : Receiver) : Prop :=
  s.driver.point = .idle ∧ ∀ id, (s.transport.unread id).Pending → id ∈ s.transport.readable

/-- Runs of one driver against its transport. -/
def receiver : Machine Receiver ReceiverLabel := ⟨Receiver.Init, Receiver.step⟩

/-- The peer sends something new on the stream. -/
def ReceiverLabel.arrivesOn (id : StreamId) : ReceiverLabel → Prop
  | .arrive other _ _ => other = id
  | _ => False

/-- Some later call reads the stream without anything new from the peer on it. -/
def Recorded (s : Receiver) (id : StreamId) : Prop :=
  ∃ ls t, receiver.run s ls = some t ∧ (∀ l ∈ ls, ¬ l.arrivesOn id) ∧ t.driver.point = .recv id

/-- When `process_reads` has returned, every stream with something unread is readable
or recorded. -/
def NotStranded (s : Receiver) : Prop :=
  s.driver.point = .idle → ∀ id, (s.transport.unread id).Pending →
    id ∈ s.transport.readable ∨ Recorded s id

/-- The stream that the current call has taken out of the readable set. -/
def Point.inHand : Point → Option StreamId
  | .announce id => some id
  | .reserve id => some id
  | .recv id => some id
  | _ => none

/-- The channel refuses a reservation only when the stream in hand has nothing unread
or has become readable again. -/
def RefusedEmpty (s : Receiver) : ReceiverLabel → Prop
  | .driver .tryReserve => ¬ s.events.HasRoom → ∀ id ∈ s.driver.point.inHand,
      (s.transport.unread id).Pending → id ∈ s.transport.readable
  | _ => True

instance (s : Receiver) : ∀ l, Decidable (RefusedEmpty s l)
  | .driver .tryReserve =>
    inferInstanceAs (Decidable (¬ s.events.HasRoom → ∀ id ∈ s.driver.point.inHand,
      (s.transport.unread id).Pending → id ∈ s.transport.readable))
  | .driver (.streamRecv _) | .driver .call | .driver (.readableNext _)
  | .others _ | .arrive _ _ _ | .reset _ => .isTrue trivial

/-- Whatever is unread is readable or in the driver's hand. -/
def Held (s : Receiver) : Prop :=
  ∀ id, (s.transport.unread id).Pending →
    id ∈ s.transport.readable ∨ s.driver.point.inHand = some id

/-- Between two calls with everything unread readable. -/
theorem held_init {s : Receiver} (h : s.Init) : Held s := fun id hp ↦ .inl (h.2 id hp)

/-- The stream that is visited is in hand. -/
theorem visit_inHand (d : StreamQuicDriver) (id : StreamId) :
    (d.visit id).point.inHand = some id := by
  unfold StreamQuicDriver.visit
  split <;> rfl

private theorem answer_recv_ok {t t' : Transport} {id : StreamId} {data : Bytes} {fin : Bool}
    (h : t.answer (.recv id) (.streamRecv (.ok (data, fin))) = some t') :
    t'.readable = t.readable ∧ ∀ other, other ≠ id → t'.unread other = t.unread other := by
  simp only [Transport.answer] at h
  split at h
  · cases h
    exact ⟨rfl, fun other ho ↦ Function.update_of_ne ho _ _⟩
  · cases h

/-- What the peer sends is readable, or what was unread before it is. -/
theorem held_arrive {s : Receiver} (hi : Held s) (id : StreamId) (bytes : Bytes)
    (fin : Bool) : Held { s with transport := s.transport.arrive id bytes fin } := by
  intro other hp
  simp only [Transport.arrive] at hp ⊢
  by_cases ho : other = id
  · subst ho
    rw [Function.update_self] at hp
    by_cases hold : (s.transport.unread other).Pending
    · simpa [hold] using hi other hold
    · left
      rw [if_pos ⟨hold, hp⟩]
      exact Finset.mem_insert_self _ _
  · rw [Function.update_of_ne ho] at hp
    refine (hi other hp).imp_left fun hr ↦ ?_
    split
    · exact Finset.mem_insert_of_mem hr
    · exact hr

/-- A reset leaves nothing unread. -/
theorem held_reset {s : Receiver} (hi : Held s) (id : StreamId) :
    Held { s with transport := s.transport.reset id } := by
  intro other hp
  simp only [Transport.reset] at hp ⊢
  by_cases ho : other = id
  · subst ho
    simp [Unread.Pending] at hp
  · rw [Function.update_of_ne ho] at hp
    exact hi other hp

/-- A call of the driver is an answer of the transport and a step of `process_reads`. -/
private theorem step_driver {s t : Receiver} {op : ReadOp} (h : s.step (.driver op) = some t) :
    ∃ tr r, s.transport.answer s.driver.point op = some tr ∧
      readStep s.driver s.events op = some r ∧ t = ⟨r.driver, r.events, tr⟩ := by
  simp only [Receiver.step] at h
  obtain ⟨tr, htr, hmap⟩ := Option.bind_eq_some_iff.mp h
  obtain ⟨r, hr, rfl⟩ := Option.map_eq_some_iff.mp hmap
  exact ⟨tr, r, htr, hr, rfl⟩

/-- A call drops a stream with something unread only where it is refused. -/
theorem held_step {s t : Receiver} {l : ReceiverLabel} (hi : Held s)
    (hok : RefusedEmpty s l) (h : s.step l = some t) : Held t := by
  cases l with
  | others events => cases h; exact hi
  | arrive id bytes fin => cases h; exact held_arrive hi id bytes fin
  | reset id => cases h; exact held_reset hi id
  | driver op =>
    obtain ⟨tr, r, htr, hr, rfl⟩ := step_driver h
    intro other hp
    dsimp only at hp ⊢
    cases readStep_reads hr with
    | call hpt =>
      cases htr
      simpa [Point.inHand, hpt] using hi other hp
    | finished hpt =>
      simp only [Transport.answer] at htr
      split at htr
      · cases htr
        simpa [Point.inHand, hpt] using hi other hp
      · cases htr
    | visit id hpt =>
      simp only [Transport.answer] at htr
      split at htr
      · cases htr
        rw [visit_inHand, Finset.mem_erase]
        by_cases ho : other = id
        · exact .inr (congrArg some ho.symm)
        · have := (hi other hp).resolve_right (by simp [Point.inHand, hpt])
          exact .inl ⟨ho, this⟩
      · cases htr
    | announced id hpt =>
      cases htr
      simpa [Point.inHand, hpt] using hi other hp
    | reserved id hpt =>
      cases htr
      simpa [Point.inHand, hpt] using hi other hp
    | refused id hpt hroom =>
      cases htr
      exact .inl ((hi other hp).elim (fun hr ↦ hr) fun hh ↦ hok hroom other hh hp)
    | received id data fin hpt =>
      rw [hpt] at htr
      obtain ⟨hread, hother⟩ := answer_recv_ok htr
      rw [hread]
      by_cases ho : other = id
      · subst ho
        exact .inr rfl
      · rw [hother other ho] at hp
        have := (hi other hp).resolve_right (by simp [Point.inHand, hpt, Ne.symm ho])
        exact .inl this
    | stopped id e hpt =>
      rw [hpt] at htr
      simp only [Transport.answer] at htr
      split at htr
      · cases htr
      · next hnone =>
        cases htr
        by_cases ho : other = id
        · subst ho
          exact absurd hp hnone
        · have := (hi other hp).resolve_right (by simp [Point.inHand, hpt, Ne.symm ho])
          exact .inl this

/-- Out of the readable set and out of the driver's hand. -/
private def Dropped (id : StreamId) (s : Receiver) : Prop :=
  id ∉ s.transport.readable ∧ s.driver.point.inHand ≠ some id

/-- Only the peer brings a dropped stream back. -/
private theorem dropped_step {s t : Receiver} {l : ReceiverLabel} {id : StreamId}
    (hi : Dropped id s) (hl : ¬ l.arrivesOn id) (h : s.step l = some t) : Dropped id t := by
  obtain ⟨hread, hhold⟩ := hi
  cases l with
  | others events => cases h; exact ⟨hread, hhold⟩
  | reset other => cases h; exact ⟨hread, hhold⟩
  | arrive other bytes fin =>
    cases h
    refine ⟨?_, hhold⟩
    simp only [Transport.arrive]
    split
    · exact fun hm ↦ (Finset.mem_insert.mp hm).elim (fun he ↦ hl he.symm) hread
    · exact hread
  | driver op =>
    obtain ⟨tr, r, htr, hr, rfl⟩ := step_driver h
    cases readStep_reads hr with
    | call hpt =>
      cases htr
      exact ⟨hread, by simp [Point.inHand]⟩
    | finished hpt =>
      simp only [Transport.answer] at htr
      split at htr
      · cases htr
        exact ⟨hread, by simp [Point.inHand]⟩
      · cases htr
    | visit other hpt =>
      simp only [Transport.answer] at htr
      split at htr
      · next hm =>
        cases htr
        refine ⟨fun hx ↦ hread (Finset.mem_of_mem_erase hx), ?_⟩
        rw [visit_inHand]
        rintro heq
        exact hread (Option.some.inj heq ▸ hm)
      · cases htr
    | announced other hpt =>
      cases htr
      exact ⟨hread, by simpa [Point.inHand, hpt] using hhold⟩
    | reserved other hpt =>
      cases htr
      exact ⟨hread, by simpa [Point.inHand, hpt] using hhold⟩
    | refused other hpt hroom =>
      cases htr
      exact ⟨hread, by simp [Point.inHand]⟩
    | received other data fin hpt =>
      rw [hpt] at htr
      refine ⟨?_, by simpa [Point.inHand, hpt, StreamQuicDriver.received] using hhold⟩
      rw [(answer_recv_ok htr).1]
      exact hread
    | stopped other e hpt =>
      rw [hpt] at htr
      simp only [Transport.answer] at htr
      split at htr
      · cases htr
      · cases htr
        exact ⟨hread, by simp [Point.inHand]⟩

private theorem not_recorded {s : Receiver} {id : StreamId} (hi : Dropped id s) :
    ¬ Recorded s id := by
  rintro ⟨ls, t, hrun, hls, hp⟩
  induction ls generalizing s with
  | nil =>
    cases hrun
    exact hi.2 (by rw [hp]; rfl)
  | cons l ls ih =>
    obtain ⟨u, hu, ht⟩ := Option.bind_eq_some_iff.mp hrun
    exact ih (dropped_step hi (hls l (by simp)) hu) ht fun m hm ↦ hls m (by simp [hm])

/-- A refusal with something unread strands the stream. -/
private theorem stranded_refused {s t : Receiver} {l : ReceiverLabel}
    (hok : ¬ RefusedEmpty s l) (h : s.step l = some t) : ¬ NotStranded t := by
  unfold RefusedEmpty at hok
  split at hok
  case h_2 => exact absurd trivial hok
  push Not at hok
  obtain ⟨hroom, id, hhold, hpend, hread⟩ := hok
  obtain ⟨tr, r, htr, hr, rfl⟩ := step_driver h
  cases htr
  cases readStep_reads hr with
  | announced _ _ hroom' => exact absurd hroom' hroom
  | reserved _ _ hroom' => exact absurd hroom' hroom
  | refused other hpt =>
    intro hn
    rcases hn rfl id hpend with hin | hrec
    · exact hread hin
    · refine not_recorded ?_ hrec
      exact ⟨hread, by simp [Point.inHand]⟩

private theorem notStranded_iff_aux {s t : Receiver} {ls : List ReceiverLabel} (hi : Held s)
    (h : receiver.run s ls = some t) :
    (∀ ms u, ms <+: ls → receiver.run s ms = some u → NotStranded u) ↔
      receiver.Along RefusedEmpty s ls := by
  induction ls generalizing s with
  | nil =>
    simp only [List.prefix_nil, Machine.along_nil, iff_true]
    rintro ms u rfl hu
    cases hu
    intro hp id hpend
    exact .inl ((hi id hpend).resolve_right (by simp [Point.inHand, hp]))
  | cons l ls ih =>
    obtain ⟨u, hu, ht⟩ := Option.bind_eq_some_iff.mp h
    rw [Machine.along_cons _ hu]
    constructor
    · intro hall
      have hok : RefusedEmpty s l := by
        by_contra hbad
        exact stranded_refused hbad hu (hall [l] u (by simp) (by simp [hu]))
      refine ⟨hok, (ih (held_step hi hok hu) ht).mp fun ms v hms hv ↦ ?_⟩
      exact hall (l :: ms) v (List.cons_prefix_cons.mpr ⟨rfl, hms⟩) (by simp [hu, hv])
    · rintro ⟨hok, hrest⟩ ms v hms hv
      cases ms with
      | nil =>
        cases hv
        intro hp id hpend
        exact .inl ((hi id hpend).resolve_right (by simp [Point.inHand, hp]))
      | cons m ms =>
        obtain ⟨rfl, hpre⟩ := List.cons_prefix_cons.mp hms
        obtain ⟨w, hw, hv⟩ := Option.bind_eq_some_iff.mp hv
        rw [hu] at hw
        cases hw
        exact (ih (held_step hi hok hu) ht).mpr hrest ms v hpre hv

/-- No call of `process_reads` in a run returns with a stranded stream exactly when
no reservation of the run is refused while the stream in hand has something unread
that is not readable again. `src/quiche/driver.rs:80–84,98–102`. -/
theorem notStranded_iff {s t : Receiver} {ls : List ReceiverLabel} (h0 : s.Init)
    (h : receiver.run s ls = some t) :
    (∀ ms u, ms <+: ls → receiver.run s ms = some u → NotStranded u) ↔
      receiver.Along RefusedEmpty s ls :=
  notStranded_iff_aux (held_init h0) h

/-- `"a"` is unread on stream 0; the other streams are empty. -/
def oneUnread : Transport := ⟨{0}, fun id ↦ if id = 0 then ⟨[97], false⟩ else ⟨[], false⟩⟩

private theorem oneUnread_init (events : EventChannel) :
    Receiver.Init ⟨.build 0 0, events, oneUnread⟩ := by
  refine ⟨rfl, fun id hp ↦ ?_⟩
  by_cases h : id = 0
  · simp [oneUnread, h]
  · simp [oneUnread, h, Unread.Pending] at hp

/-- The driver of `oneUnread` on an empty event channel. -/
def roomyReceiver : Receiver := ⟨.build 0 0, .new SERVER_EVENT_CHANNEL_CAPACITY, oneUnread⟩

/-- One call that announces and drains stream 0. -/
def drainOne : List ReceiverLabel :=
  [.driver .call, .driver (.readableNext (some 0)), .driver .tryReserve, .driver .tryReserve,
    .driver (.streamRecv (.ok ([97], false))), .driver .tryReserve,
    .driver (.streamRecv (.error .done)), .driver (.readableNext none)]

/-- With room on the channel nothing is stranded when the call returns. -/
theorem drainOne_notStranded :
    ∃ t, receiver.run roomyReceiver drainOne = some t ∧ NotStranded t := by
  obtain ⟨t, ht⟩ : ∃ t, receiver.run roomyReceiver drainOne = some t :=
    Option.isSome_iff_exists.mp (by decide)
  have hok : receiver.Along RefusedEmpty roomyReceiver drainOne := by decide
  exact ⟨t, ht, (notStranded_iff (oneUnread_init _) ht).mpr hok _ t (List.prefix_refl _) ht⟩

/-- A channel filled by other connections. -/
def fullEvents : EventChannel :=
  ⟨SERVER_EVENT_CHANNEL_CAPACITY, .replicate SERVER_EVENT_CHANNEL_CAPACITY (1, .newBidi 0), 0, true⟩

private theorem fullEvents_not_hasRoom : ¬ fullEvents.HasRoom := by
  simp [fullEvents, Channel.HasRoom]

/-- On a full channel the call returns with stream 0 unread, out of the readable set
and out of reach of every later call. -/
theorem fullEvents_stranded :
    ∃ s t, s.Init ∧ s = ⟨.build 0 0, fullEvents, oneUnread⟩ ∧
      receiver.run s [.driver .call, .driver (.readableNext (some 0)), .driver .tryReserve] =
        some t ∧ t.driver.point = .idle ∧ ¬ NotStranded t := by
  have hfull : fullEvents.tryReserve = .error .full :=
    Channel.tryReserve_eq_error.mpr ⟨fullEvents_not_hasRoom, rfl⟩
  refine ⟨_, ⟨{ StreamQuicDriver.build 0 0 with point := .idle }, fullEvents,
    { oneUnread with readable := ∅ }⟩, oneUnread_init _, rfl, ?_, rfl, ?_⟩
  · simp [receiver, Receiver.step, Transport.answer, oneUnread, readStep, hfull,
      StreamQuicDriver.build, StreamQuicDriver.visit, clientInitiated]
  · intro hn
    rcases hn rfl 0 (by decide) with hin | hrec
    · exact absurd hin (by simp)
    · refine not_recorded ?_ hrec
      exact ⟨by simp, by simp [Point.inHand]⟩

end ExtQuiche.Driver
