import ExtQuiche.Server.Handlers

/-!
# Close notifications

Library `Server`. What the accounts say about `on_close`: a pair is passed to
`fire_on_close` at most once and is silent afterwards, and a pair misses its
notification exactly where a stream was registered over it, or for a connection that
was already gone.
-/

namespace ExtQuiche.Server
open ExtQuiche.Base ExtQuiche.Conn ExtQuiche.Stream
open QuicheServerSocketImpl

/-- Every pair ever registered is in the map of a connection in `connections`, or has been
passed to `fire_on_close`. -/
def CloseKept (s : QuicheServerSocketImpl) : Prop :=
  ∀ i : Insertion, .inserted i ∈ s.log →
    (∃ (c : ConnId) (st : ConnState) (id : StreamId), s.connections[c]? = some st ∧
      (s.maps st.phpStreamCallbacks)[id]? = some i.slots) ∨
    ∃ peerClosed, .fireOnClose i.slots.onClose peerClosed ∈ s.log

/-- A registration found its id free in the map of a connection in `connections`. -/
def Obs.Clean : Obs → Prop
  | .inserted i => i.replaced = none ∧ i.attached = true
  | _ => True

instance : ∀ e, Decidable (Obs.Clean e)
  | .inserted _ => inferInstanceAs (Decidable (_ ∧ _))
  | .invoked _ | .fireOnClose _ _ | .firedOnClose _ => .isTrue trivial

/-- A pair is passed to `fire_on_close` at most once, and none of its callbacks is
invoked after that call. -/
structure ClosesOnce (log : List Obs) (pair : Nat) : Prop where
  once : (log.filterMap Obs.settles).count pair ≤ 1
  silent : ∀ before slot after, log = before ++ .firedOnClose slot :: after → slot.pair = pair →
    ∀ e ∈ after, e.invokes ≠ some pair

/-- The pairs that were fired, by number and by slot. -/
theorem fired_iff {s : QuicheServerSocketImpl} {hand : List Nat} (h : Sound hand s)
    (n : Nat) : n ∈ s.log.filterMap Obs.settles ↔ ∃ b, .fireOnClose ⟨n, .close⟩ b ∈ s.log := by
  rw [List.mem_filterMap]
  constructor
  · rintro ⟨e, he, hn⟩
    cases e with
    | fireOnClose slot b =>
      obtain ⟨pair, side⟩ := slot
      cases h.fired _ b he
      cases hn
      exact ⟨b, he⟩
    | inserted i => cases hn
    | invoked r => cases hn
    | firedOnClose slot => cases hn
  · rintro ⟨b, hb⟩
    exact ⟨_, hb, rfl⟩

/-- The live pairs, by number and by place. -/
theorem stored_iff {s : QuicheServerSocketImpl} {hand : List Nat} (h : Sound hand s)
    (n : Nat) : (s.ledger hand).Live n ↔ ∃ (c : ConnId) (st : ConnState) (id : StreamId),
      s.connections[c]? = some st ∧ (s.maps st.phpStreamCallbacks)[id]? = some (.ofPair n) := by
  constructor
  · rintro ⟨⟨m, id⟩, ⟨c, st, hc, rfl⟩, hn⟩
    obtain ⟨slots, hs, hpair⟩ := Option.map_eq_some_iff.mp hn
    obtain ⟨-, -, k, -, rfl⟩ := h.registry.entries _ id slots hs
    cases hpair
    exact ⟨c, st, id, hc, hs⟩
  · rintro ⟨c, st, id, hc, hs⟩
    exact ⟨(st.phpStreamCallbacks, id), ⟨c, st, hc, rfl⟩,
      Option.map_eq_some_iff.mpr ⟨_, hs, rfl⟩⟩

private theorem lost_iff (s : QuicheServerSocketImpl) (hand : List Nat) :
    (∀ n, n ∉ (s.ledger hand).lost) ↔ ∀ e ∈ s.log, e.Clean := by
  constructor
  · intro h e he
    cases e with
    | inserted i =>
      constructor
      · rw [Option.eq_none_iff_forall_ne_some]
        intro old hold
        exact h old.onClose.pair ⟨_, he, .inl (by rw [hold]; rfl)⟩
      · rw [← Bool.not_eq_false]
        intro hno
        exact h i.slots.onClose.pair ⟨_, he, .inr ⟨rfl, hno⟩⟩
    | invoked r => trivial
    | fireOnClose slot b => trivial
    | firedOnClose slot => trivial
  · rintro h n ⟨e, he, hl⟩
    cases e with
    | inserted i =>
      obtain ⟨hnone, hatt⟩ := h _ he
      rcases hl with hl | ⟨-, hl⟩
      · rw [hnone] at hl
        cases hl
      · rw [hatt] at hl
        cases hl
    | invoked r => exact hl
    | fireOnClose slot b => exact hl
    | firedOnClose slot => exact hl

private theorem closeKept_iff_aux {s : QuicheServerSocketImpl} (h : Sound [] s) :
    CloseKept s ↔ ∀ e ∈ s.log, e.Clean := by
  rw [← lost_iff s [], ← h.ledger.kept_iff rfl]
  constructor
  · rintro hkept n ⟨e, he, hn⟩
    cases e with
    | inserted i =>
      obtain ⟨-, k, -, hslots⟩ := h.registry.issued i he
      have hi := hkept i he
      rw [hslots] at hi
      simp only [Obs.issues, hslots, StreamSlots.ofPair_onClose, Option.some.injEq] at hn
      subst hn
      exact hi.imp (stored_iff h k).mpr (fired_iff h k).mpr
    | invoked r => cases hn
    | fireOnClose slot b => cases hn
    | firedOnClose slot => cases hn
  · intro hkept i hi
    obtain ⟨-, k, -, hslots⟩ := h.registry.issued i hi
    rw [hslots]
    exact (hkept k ⟨_, hi, by simp [Obs.issues, hslots]⟩).imp (stored_iff h k).mp (fired_iff h k).mp

/-- Between two steps, no pair has lost its close notification exactly where every stream
was registered under a free id of a connection in `connections`.
`src/quiche/socket.rs:250–341`, `src/quiche/conn.rs:82–123`. -/
theorem closeKept_iff {s : QuicheServerSocketImpl} (hs : server.Reachable s)
    (hfree : s.hung = none) :
    CloseKept s ↔ ∀ e ∈ s.log, e.Clean :=
  closeKept_iff_aux ((audited_of_reachable hs).settled hfree)

/-- A callable. -/
def closure : Zval := ⟨1, true⟩

/-- The peer opens stream 0 on a new connection, and PHP hooks its end. -/
def oneStream : List Label :=
  [.newConn "192.0.2.1:4433", .insertConn,
    .driverEvent 0 (.newBidi 0) [⟨[.setOnClose 0 closure], none⟩]]

/-- The stream ends with the peer's fin, on which PHP throws. -/
def finished : List Label := [.driverEvent 0 (.data 0 [] true) [⟨[], some ⟨"closed"⟩⟩]]

private theorem reachable_of_run {callback : Option Zval} {ls : List Label}
    {s : QuicheServerSocketImpl} (h : server.run (.bind callback) ls = some s) :
    server.Reachable s := Machine.Reachable.run (.init ⟨callback, rfl⟩) h

/-- The pair of a stream that the peer finishes has been fired. -/
theorem finished_closeKept :
    ∃ s, server.run (.bind (some closure)) (oneStream ++ finished) = some s ∧ CloseKept s := by
  have h : (server.run (.bind (some closure)) (oneStream ++ finished)).map
      (fun s ↦ (s.hung, decide (∀ e ∈ s.log, e.Clean))) = some (none, true) := by decide +kernel
  obtain ⟨s, hs, heq⟩ := Option.map_eq_some_iff.mp h
  obtain ⟨hfree, hclean⟩ := Prod.mk.inj heq
  exact ⟨s, hs, (closeKept_iff (reachable_of_run hs) hfree).mpr (of_decide_eq_true hclean)⟩

/-- PHP opens a stream under the id of a live one: the first pair is lost. -/
theorem sameId_loses :
    ∃ s, server.run (.bind (some closure)) (oneStream ++ [.call (.openBidiStream 0 0)]) = some s ∧
      s.hung = none ∧ ¬ CloseKept s := by
  have h : (server.run (.bind (some closure)) (oneStream ++ [.call (.openBidiStream 0 0)])).map
      (fun s ↦ (s.hung, decide (∀ e ∈ s.log, e.Clean))) = some (none, false) := by decide +kernel
  obtain ⟨s, hs, heq⟩ := Option.map_eq_some_iff.mp h
  obtain ⟨hfree, hunclean⟩ := Prod.mk.inj heq
  refine ⟨s, hs, hfree, ?_⟩
  rw [closeKept_iff_aux ((audited_of_reachable (reachable_of_run hs)).settled hfree)]
  exact of_decide_eq_false hunclean

/-- In every reachable state, also where the PHP thread hangs, a pair has been passed to
`fire_on_close` at most once and has been silent since. `src/quiche/socket.rs:346–353`. -/
theorem closesOnce_of_reachable {s : QuicheServerSocketImpl} (hs : server.Reachable s)
    (pair : Nat) : ClosesOnce s.log pair := by
  obtain ⟨hand, h⟩ := (audited_of_reachable hs).sound
  refine ⟨List.nodup_iff_count_le_one.mp h.ledger.settled_once pair, ?_⟩
  rintro before slot after hlog rfl e he
  have hsilent := h.silent
  rw [hlog, List.pairwise_append] at hsilent
  exact (List.pairwise_cons.mp hsilent.2.1).1 e he slot.pair rfl

/-- The stream's pair is fired by the fin, and not again by the close of the connection
or of the server. -/
theorem finished_closesOnce :
    ∃ s, server.run (.bind (some closure)) (oneStream ++ finished ++
        [.connClosed 0 true [] [], .close [] (fun _ ↦ []) []]) = some s ∧
      s.log.filterMap Obs.settles = [0] ∧ ClosesOnce s.log 0 := by
  have h : (server.run (.bind (some closure)) (oneStream ++ finished ++
      [.connClosed 0 true [] [], .close [] (fun _ ↦ []) []])).map
      (fun s ↦ s.log.filterMap Obs.settles) = some [0] := by decide +kernel
  obtain ⟨s, hs, heq⟩ := Option.map_eq_some_iff.mp h
  exact ⟨s, hs, heq, closesOnce_of_reachable (reachable_of_run hs) 0⟩

end ExtQuiche.Server
