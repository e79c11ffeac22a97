import ExtQuiche.Base.Ledger
import ExtQuiche.Server.Dispatch
import Mathlib.Data.Set.Insert

/-!
# Accounts of the slot pairs

Library `Server`. What became of every slot pair: the slot maps are the store of a
ledger whose live places belong to connections in `connections`; registering a stream
issues its pair, `remove` and `drain` withdraw pairs, and `fire_on_close` settles one. Each
handler keeps the ledger in order, also where it hangs.
-/

namespace ExtQuiche.Server
open ExtQuiche.Base ExtQuiche.Base.Locking ExtQuiche.Conn ExtQuiche.Stream

namespace Obs

/-- Pair that an entry registers. -/
def issues : Obs → Option Nat
  | .inserted i => some i.slots.onClose.pair
  | _ => none

/-- Pair that an entry passes to `fire_on_close`. -/
def settles : Obs → Option Nat
  | .fireOnClose slot _ => some slot.pair
  | _ => none

/-- Pair whose `fire_on_close` returns. -/
def returns : Obs → Option Nat
  | .firedOnClose slot => some slot.pair
  | _ => none

/-- Pair whose callback is invoked. -/
def invokes : Obs → Option Nat
  | .invoked r => r.invocation.pair?
  | _ => none

/-- The entry registers over the pair, or registers it for no connection. -/
def Loses (n : Nat) : Obs → Prop
  | .inserted i => i.replaced.map (·.onClose.pair) = some n ∨
      (i.slots.onClose.pair = n ∧ i.attached = false)
  | _ => False

end Obs

/-- The numbers and references of an object are those the server gave out. -/
structure Known (nextPair idCounter : Nat) (accepting : Option (ConnId × ConnState))
    (o : StreamObject) : Prop where
  onData : ∀ r, o.onData? = some r → r.side = .data ∧ r.pair < nextPair
  onClose : o.onClose.side = .close ∧ o.onClose.pair < nextPair
  handle : ∀ h, o.connHandle? = some h →
    h.phpStreamCallbacks = h.connId ∧ h.connId < idCounter ∧ ∀ st, accepting ≠ some (h.connId, st)

namespace QuicheServerSocketImpl

/-- Records and maps carry the number of their connection; every map entry is a pair
that was made. -/
structure Registry (s : QuicheServerSocketImpl) : Prop where
  refs : s.nextRef = s.idCounter
  conns : ∀ (c : ConnId) (st : ConnState), s.connections[c]? = some st →
    c < s.idCounter ∧ st = .build c st.peerAddr c
  accepting : ∀ (c : ConnId) (st : ConnState), s.accepting = some (c, st) →
    c < s.idCounter ∧ s.connections[c]? = none ∧ st = .build c st.peerAddr c
  objects : ∀ o ∈ s.objects, Known s.nextPair s.idCounter s.accepting o
  entries : ∀ (m : MapRef) (id : StreamId) (slots : StreamSlots), (s.maps m)[id]? = some slots →
    m < s.idCounter ∧ (∀ st, s.accepting ≠ some (m, st)) ∧ ∃ n < s.nextPair, slots = .ofPair n
  issued : ∀ i : Insertion, .inserted i ∈ s.log →
    i.map = i.connId ∧ ∃ n < s.nextPair, i.slots = .ofPair n

/-- The slot pairs as a ledger; `hand` are the pairs drained and not yet fired. -/
def ledger (s : QuicheServerSocketImpl) (hand : List Nat) : Ledger (MapRef × StreamId) Nat where
  issued := {n | ∃ e ∈ s.log, e.issues = some n}
  store k := (s.maps k.1)[k.2]?.map (·.onClose.pair)
  live := {k | ∃ (c : ConnId) (st : ConnState),
    s.connections[c]? = some st ∧ st.phpStreamCallbacks = k.1}
  hand
  settled := s.log.filterMap Obs.settles
  lost := {n | ∃ e ∈ s.log, e.Loses n}

end QuicheServerSocketImpl

open QuicheServerSocketImpl

/-- The ledger is in order, only fired pairs have returned, and nothing of a pair is
invoked after its return. -/
structure Sound (hand : List Nat) (s : QuicheServerSocketImpl) : Prop where
  registry : s.Registry
  ledger : (s.ledger hand).WF
  fired : ∀ slot b, .fireOnClose slot b ∈ s.log → slot.side = .close
  returned : ∀ e ∈ s.log, ∀ n, e.returns = some n → n ∈ s.log.filterMap Obs.settles
  silent : s.log.Pairwise fun e f ↦ ∀ n, e.returns = some n → f.invokes ≠ some n

section

variable {s : QuicheServerSocketImpl} {hand : List Nat}

/-- An insertion changes one place. -/
theorem getElem?_inserted (origin : Origin) (c : ConnId) (map m : MapRef) (id id' : StreamId)
    (slots : StreamSlots) :
    ((s.inserted origin c map id slots).maps m)[id']? =
      if m = map ∧ id' = id then some slots else (s.maps m)[id']? := by
  rcases eq_or_ne m map with rfl | hm
  · rcases eq_or_ne id' id with rfl | hid
    · simp [inserted]
    · simp [inserted, Std.ExtTreeMap.getElem?_insert, hid, hid.symm]
  · simp [inserted, hm]

/-- A removal changes one place. -/
theorem getElem?_removed (map m : MapRef) (id id' : StreamId) :
    ((s.removed map id).maps m)[id']? =
      if m = map ∧ id' = id then none else (s.maps m)[id']? := by
  rcases eq_or_ne m map with rfl | hm
  · rcases eq_or_ne id' id with rfl | hid
    · simp [removed]
    · simp [removed, Std.ExtTreeMap.getElem?_erase, hid, hid.symm]
  · simp [removed, hm]

/-- Emptying a map changes its places. -/
theorem getElem?_emptied (map m : MapRef) (id : StreamId) :
    ((s.emptied map).maps m)[id]? = if m = map then none else (s.maps m)[id]? := by
  rcases eq_or_ne m map with rfl | hm
  · simp [emptied]
  · simp [emptied, hm]

/-- The map of a record is that of its connection. -/
theorem QuicheServerSocketImpl.Registry.map_eq (hr : s.Registry) {c : ConnId} {st : ConnState}
    (hc : s.connections[c]? = some st) : st.phpStreamCallbacks = c := by
  rw [(hr.conns c st hc).2]
  rfl

/-- A place is live exactly where its map is that of a connection. -/
private theorem mem_live_iff (hr : s.Registry) {k : MapRef × StreamId} :
    k ∈ (s.ledger hand).live ↔ s.attached k.1 k.1 = true := by
  simp only [QuicheServerSocketImpl.ledger, Set.mem_ofPred_eq, attached, Option.any_eq_true,
    beq_iff_eq]
  constructor
  · rintro ⟨c, st, hc, hst⟩
    have hck : c = k.1 := (hr.map_eq hc).symm.trans hst
    exact ⟨st, hck ▸ hc, hst⟩
  · rintro ⟨st, hc, hst⟩
    exact ⟨k.1, st, hc, hst⟩

/-- An insertion into the map of its connection issues the pair there. -/
private theorem ledger_inserted (hr : s.Registry) (origin : Origin) (c : ConnId) (id : StreamId)
    (n : Nat) :
    (s.inserted origin c c id (.ofPair n)).ledger hand = (s.ledger hand).issue (c, id) n := by
  have hlive : (c, id) ∉ (s.ledger hand).live ↔ s.attached c c = false := by
    rw [mem_live_iff hr, Bool.not_eq_true]
  refine Ledger.ext ?_ ?_ rfl rfl ?_ ?_
  · ext m
    simp only [QuicheServerSocketImpl.ledger, inserted, Ledger.issue, Set.mem_ofPred_eq,
      List.mem_append, List.mem_singleton, or_and_right, exists_or, exists_eq_left, Obs.issues,
      StreamSlots.ofPair_onClose, Option.some.injEq, eq_comm]
  · funext k
    obtain ⟨m, id'⟩ := k
    rcases eq_or_ne (m, id') (c, id) with heq | hne
    · obtain ⟨rfl, rfl⟩ := Prod.mk.inj heq
      simp [QuicheServerSocketImpl.ledger, Ledger.issue, getElem?_inserted]
    · have hplace : ¬ (m = c ∧ id' = id) := fun h ↦ hne (Prod.ext h.1 h.2)
      simp [QuicheServerSocketImpl.ledger, Ledger.issue, getElem?_inserted, hne, hplace]
  · simp [QuicheServerSocketImpl.ledger, inserted, Ledger.issue, Obs.settles]
  · ext m
    simp only [Ledger.issue, hlive]
    simp only [QuicheServerSocketImpl.ledger, inserted, Set.mem_ofPred_eq, List.mem_append,
      List.mem_singleton, or_and_right, exists_or, exists_eq_left, Obs.Loses,
      StreamSlots.ofPair_onClose, eq_comm]

private theorem Known.mono {n n' idCounter : Nat} {accepting : Option (ConnId × ConnState)}
    {o : StreamObject} (h : Known n idCounter accepting o) (hle : n ≤ n') :
    Known n' idCounter accepting o :=
  ⟨fun r hr ↦ ⟨(h.onData r hr).1, (h.onData r hr).2.trans_le hle⟩,
    ⟨h.onClose.1, h.onClose.2.trans_le hle⟩, h.handle⟩

/-- The accounts are about records, maps, objects and log only. -/
theorem Sound.withRest (h : Sound hand s) (listening : Bool) (slots : SlotRef → Option Zval)
    (writes : ChanRef → Channel StreamWriter) (permits : NotifyRef → Bool) (tape : List Script)
    (submitted : List Submission) (hung : Option MutexRef) :
    Sound hand { s with listening, slots, writes, permits, tape, submitted, hung } :=
  ⟨⟨h.registry.refs, h.registry.conns, h.registry.accepting, h.registry.objects,
    h.registry.entries, h.registry.issued⟩, h.ledger, h.fired, h.returned, h.silent⟩

/-- Making a pair registers nothing. -/
theorem Sound.allocated (h : Sound hand s) : Sound hand s.allocated where
  registry :=
    { refs := h.registry.refs
      conns := h.registry.conns
      accepting := h.registry.accepting
      objects := fun o ho ↦ (h.registry.objects o ho).mono (Nat.le_succ _)
      entries := fun m id slots hs ↦ by
        obtain ⟨hm, hacc, n, hn, heq⟩ := h.registry.entries m id slots hs
        exact ⟨hm, hacc, n, hn.trans (Nat.lt_succ_self _), heq⟩
      issued := fun i hi ↦ by
        obtain ⟨hmap, n, hn, heq⟩ := h.registry.issued i hi
        exact ⟨hmap, n, hn.trans (Nat.lt_succ_self _), heq⟩ }
  ledger := h.ledger
  fired := h.fired
  returned := h.returned
  silent := h.silent

private theorem pairwise_append_of_not_invokes {log : List Obs} {e : Obs}
    (h : log.Pairwise fun e f ↦ ∀ n, e.returns = some n → f.invokes ≠ some n)
    (he : e.invokes = none) :
    (log ++ [e]).Pairwise fun e f ↦ ∀ n, e.returns = some n → f.invokes ≠ some n := by
  rw [List.pairwise_append]
  refine ⟨h, List.pairwise_singleton _ _, ?_⟩
  intro a _ b hb n _
  rw [List.mem_singleton.mp hb, he]
  exact nofun

/-- Every pair that was registered was made. -/
theorem Sound.lt_of_issued (h : Sound hand s) {n : Nat} (hn : n ∈ (s.ledger hand).issued) :
    n < s.nextPair := by
  obtain ⟨e, he, hn⟩ := hn
  cases e with
  | inserted i =>
    obtain ⟨-, m, hlt, heq⟩ := h.registry.issued i he
    simp only [Obs.issues, heq, StreamSlots.ofPair_onClose, Option.some.injEq] at hn
    exact hn ▸ hlt
  | invoked r => cases hn
  | fireOnClose slot b => cases hn
  | firedOnClose slot => cases hn

/-- Registering a new pair in the map of its connection. -/
theorem Sound.registered (h : Sound hand s) (origin : Origin) {c : ConnId}
    (hc : c < s.idCounter) (hacc : ∀ st, s.accepting ≠ some (c, st)) (id : StreamId) :
    Sound hand (s.allocated.inserted origin c c id (.ofPair s.nextPair)) where
  registry :=
    { refs := h.registry.refs
      conns := h.registry.conns
      accepting := h.registry.accepting
      objects := h.allocated.registry.objects
      entries := fun m id' slots hs ↦ by
        rw [getElem?_inserted] at hs
        split at hs
        · next heq =>
          obtain ⟨rfl, rfl⟩ := heq
          cases hs
          exact ⟨hc, hacc, s.nextPair, Nat.lt_succ_self _, rfl⟩
        · exact h.allocated.registry.entries m id' slots hs
      issued := fun i hi ↦ by
        rcases List.mem_append.mp hi with hi | hi
        · exact h.allocated.registry.issued i hi
        · cases List.mem_singleton.mp hi
          exact ⟨rfl, s.nextPair, Nat.lt_succ_self _, rfl⟩ }
  ledger := by
    rw [ledger_inserted h.allocated.registry]
    exact h.ledger.issue _ fun hn ↦ Nat.lt_irrefl _ (h.lt_of_issued hn)
  fired := fun slot b hmem ↦ by
    rcases List.mem_append.mp hmem with hmem | hmem
    · exact h.fired slot b hmem
    · cases List.mem_singleton.mp hmem
  returned := fun e he n hn ↦ by
    rcases List.mem_append.mp he with he | he
    · exact List.mem_filterMap.mpr (by
        obtain ⟨f, hf, hs⟩ := List.mem_filterMap.mp (h.returned e he n hn)
        exact ⟨f, List.mem_append_left _ hf, hs⟩)
    · cases List.mem_singleton.mp he
      cases hn
  silent := pairwise_append_of_not_invokes h.silent rfl

/-- A new object with known numbers. -/
theorem Sound.withObject (h : Sound hand s) {o : StreamObject}
    (ho : Known s.nextPair s.idCounter s.accepting o) : Sound hand (s.withObject o) where
  registry :=
    { refs := h.registry.refs
      conns := h.registry.conns
      accepting := h.registry.accepting
      objects := fun o' ho' ↦ by
        rcases List.mem_append.mp ho' with ho' | ho'
        · exact h.registry.objects o' ho'
        · exact List.mem_singleton.mp ho' ▸ ho
      entries := h.registry.entries
      issued := h.registry.issued }
  ledger := h.ledger
  fired := h.fired
  returned := h.returned
  silent := h.silent

/-- Every call of PHP keeps the accounts. -/
theorem Sound.effect {t : QuicheServerSocketImpl} (h : Sound hand s) (he : Effect s t) :
    Sound hand t := by
  cases he with
  | none => exact h
  | installed o ho slot hslot callback hcb => exact h.withRest _ _ _ _ _ _ _
  | sent o ho data fin m hm tx htx => exact h.withRest _ _ _ _ _ _ _
  | allocated => exact h.allocated
  | opened o ho handle hh streamId new hnew =>
    obtain ⟨hmap, hlt, hacc⟩ := (h.registry.objects o ho).handle handle hh
    rw [hmap]
    apply (h.registered .opened hlt hacc streamId).withObject
    cases hnew with
    | bidi =>
      refine ⟨?_, ⟨rfl, Nat.lt_succ_self _⟩, fun _ hno ↦ by cases hno⟩
      rintro r hr
      cases hr
      exact ⟨rfl, Nat.lt_succ_self _⟩
    | uni => exact ⟨fun _ hno ↦ (by cases hno), ⟨rfl, Nat.lt_succ_self _⟩, fun _ hno ↦ by cases hno⟩

private theorem ledger_noted {e : Obs} (hi : e.issues = none) (hs : e.settles = none)
    (hl : ∀ n, ¬ e.Loses n) : (s.noted e).ledger hand = s.ledger hand := by
  refine Ledger.ext ?_ rfl rfl rfl ?_ ?_
  · ext n
    simp [QuicheServerSocketImpl.ledger, noted, or_and_right, exists_or, hi]
  · simp [QuicheServerSocketImpl.ledger, noted, hs]
  · ext n
    simp [QuicheServerSocketImpl.ledger, noted, or_and_right, exists_or, hl]

private theorem registry_noted (h : s.Registry) {e : Obs} (he : e.issues = none) :
    (s.noted e).Registry where
  refs := h.refs
  conns := h.conns
  accepting := h.accepting
  objects := h.objects
  entries := h.entries
  issued i hi := by
    rcases List.mem_append.mp hi with hi | hi
    · exact h.issued i hi
    · cases List.mem_singleton.mp hi
      cases he

private theorem settled_noted {e : Obs} {n : Nat} (h : n ∈ s.log.filterMap Obs.settles) :
    n ∈ (s.noted e).log.filterMap Obs.settles := by
  rw [noted, List.filterMap_append]
  exact List.mem_append_left _ h

/-- A callback of a pair that has not returned may be entered. -/
theorem Sound.entered (h : Sound hand s) (held : List MutexRef) {invocation : Invocation}
    (hr : ∀ n, invocation.pair? = some n → ∀ e ∈ s.log, e.returns ≠ some n) :
    Sound hand (s.entered held invocation) := by
  have hnoted : Sound hand (s.noted (.invoked ⟨invocation, held, s.objects, s.nextScript⟩)) := by
    refine ⟨registry_noted h.registry rfl, ?_, ?_, ?_, ?_⟩
    · rw [ledger_noted rfl rfl fun _ ↦ id]
      exact h.ledger
    · intro slot b hmem
      rcases List.mem_append.mp hmem with hmem | hmem
      · exact h.fired slot b hmem
      · cases List.mem_singleton.mp hmem
    · intro e he n hn
      rcases List.mem_append.mp he with he | he
      · exact settled_noted (h.returned e he n hn)
      · cases List.mem_singleton.mp he
        cases hn
    · rw [noted, List.pairwise_append]
      refine ⟨h.silent, List.pairwise_singleton _ _, ?_⟩
      rintro e he f hf n hn hinv
      rw [List.mem_singleton.mp hf] at hinv
      exact hr n hinv e he hn
  exact hnoted.withRest _ _ _ _ _ _ _

/-- The first pair of the hand is passed to `fire_on_close`. -/
theorem Sound.fires {n : Nat} (h : Sound (n :: hand) s) (peerClosed : Bool) :
    Sound hand (s.noted (.fireOnClose ⟨n, .close⟩ peerClosed)) where
  registry := registry_noted h.registry rfl
  ledger := by
    have heq : (s.noted (.fireOnClose ⟨n, .close⟩ peerClosed)).ledger hand =
        (s.ledger (n :: hand)).settle := by
      refine Ledger.ext ?_ rfl rfl rfl ?_ ?_
      · ext m
        simp [QuicheServerSocketImpl.ledger, noted, Ledger.settle, or_and_right, exists_or,
          Obs.issues]
      · simp [QuicheServerSocketImpl.ledger, noted, Ledger.settle, Obs.settles]
      · ext m
        simp [QuicheServerSocketImpl.ledger, noted, Ledger.settle, or_and_right, exists_or,
          Obs.Loses]
    rw [heq]
    exact h.ledger.settle
  fired slot b hmem := by
    rcases List.mem_append.mp hmem with hmem | hmem
    · exact h.fired slot b hmem
    · cases List.mem_singleton.mp hmem
      rfl
  returned e he n hn := by
    rcases List.mem_append.mp he with he | he
    · exact settled_noted (h.returned e he n hn)
    · cases List.mem_singleton.mp he
      cases hn
  silent := pairwise_append_of_not_invokes h.silent rfl

/-- A pair in the hand has not returned. -/
theorem Sound.not_returned_of_hand {n : Nat} (h : Sound (n :: hand) s) :
    ∀ e ∈ s.log, e.returns ≠ some n := by
  intro e he hn
  have hsettled := h.returned e he n hn
  have hnodup := h.ledger.out_once
  rw [Ledger.out, List.nodup_append] at hnodup
  exact hnodup.2.2 n hsettled n (List.mem_cons_self ..) rfl

/-- A registered pair that is still in a map has not returned. -/
theorem Sound.not_returned_of_stored (h : Sound hand s) {map : MapRef} {id : StreamId}
    {slots : StreamSlots} (hs : (s.maps map)[id]? = some slots) :
    ∀ e ∈ s.log, e.returns ≠ some slots.onClose.pair := by
  intro e he hn
  have hsettled := h.returned e he _ hn
  apply h.ledger.out_not_stored _ (List.mem_append_left _ hsettled) (map, id)
  simp [QuicheServerSocketImpl.ledger, hs]

/-- `fire_on_close` of a pair returns. -/
theorem Sound.returns (h : Sound hand s) {slot : SlotRef}
    (hs : slot.pair ∈ s.log.filterMap Obs.settles) : Sound hand (s.noted (.firedOnClose slot)) where
  registry := registry_noted h.registry rfl
  ledger := by
    rw [ledger_noted rfl rfl fun _ ↦ id]
    exact h.ledger
  fired slot' b hmem := by
    rcases List.mem_append.mp hmem with hmem | hmem
    · exact h.fired slot' b hmem
    · cases List.mem_singleton.mp hmem
  returned e he n hn := by
    rcases List.mem_append.mp he with he | he
    · exact settled_noted (h.returned e he n hn)
    · cases List.mem_singleton.mp he
      cases hn
      exact settled_noted hs
  silent := pairwise_append_of_not_invokes h.silent rfl

/-- `remove` on the map of a connection takes the pair into the hand. -/
theorem Sound.removed (h : Sound [] s) {map : MapRef} (hlive : s.attached map map = true)
    (id : StreamId) :
    Sound ((s.maps map)[id]?.map (·.onClose.pair)).toList (s.removed map id) where
  registry :=
    { refs := h.registry.refs
      conns := h.registry.conns
      accepting := h.registry.accepting
      objects := h.registry.objects
      entries := fun m id' slots hs ↦ by
        rw [getElem?_removed] at hs
        split at hs
        · cases hs
        · exact h.registry.entries m id' slots hs
      issued := h.registry.issued }
  ledger := by
    have heq : (s.removed map id).ledger ((s.maps map)[id]?.map (·.onClose.pair)).toList =
        (s.ledger []).withdraw {(map, id)} ((s.maps map)[id]?.map (·.onClose.pair)).toList := by
      refine Ledger.ext rfl ?_ rfl rfl rfl rfl
      funext k
      obtain ⟨m, id'⟩ := k
      simp only [QuicheServerSocketImpl.ledger, Ledger.withdraw, getElem?_removed]
      by_cases hk : m = map ∧ id' = id
      · simp [hk]
      · simp [hk, Prod.mk.injEq]
    rw [heq]
    apply h.ledger.withdraw
    · rintro k rfl
      exact (mem_live_iff h.registry).mpr hlive
    · cases (s.maps map)[id]? <;> simp
    · intro n
      simp [QuicheServerSocketImpl.ledger]
  fired := h.fired
  returned := h.returned
  silent := h.silent

private theorem pairs_nodup (h : Sound [] s) (map : MapRef) (order : List StreamId) :
    ((drainInOrder (s.maps map) order).map (·.2.onClose.pair)).Nodup := by
  refine List.Nodup.map_on ?_ (nodup_drainInOrder _ order).of_map
  rintro ⟨id, slots⟩ hx ⟨id', slots'⟩ hy heq
  have hs := mem_drainInOrder.mp hx
  have hs' := mem_drainInOrder.mp hy
  have hplace := h.ledger.stored_once (map, id) (map, id') slots.onClose.pair
    (by simp [QuicheServerSocketImpl.ledger, hs])
    (by simpa [QuicheServerSocketImpl.ledger, hs'] using heq.symm)
  cases (Prod.mk.inj hplace).2
  rw [hs] at hs'
  rw [Option.some.inj hs']

/-- A record goes and its map is drained: the pairs of the map are in the hand. -/
theorem Sound.drained (h : Sound [] s) {c : ConnId} {st : ConnState}
    (hc : s.connections[c]? = some st) (order : List StreamId) :
    Sound ((drainInOrder (s.maps st.phpStreamCallbacks) order).map (·.2.onClose.pair))
      ((s.forgotten c).emptied st.phpStreamCallbacks) := by
  have hmap : st.phpStreamCallbacks = c := by rw [(h.registry.conns c st hc).2]; rfl
  rw [hmap]
  have hrest : ∀ (c' : ConnId) (st' : ConnState), ((s.forgotten c).emptied c).connections[c']? =
      some st' ↔ c' ≠ c ∧ s.connections[c']? = some st' := by
    intro c' st'
    have heq : ((s.forgotten c).emptied c).connections[c']? = (s.forgotten c).connections[c']? := rfl
    rw [heq, getElem?_forgotten]
    split
    · next hc => simp [hc]
    · next hc => simp [hc]
  have hplaces : ∀ (m : MapRef) (id : StreamId), (((s.forgotten c).emptied c).maps m)[id]? =
      if m = c then none else (s.maps m)[id]? := fun m id ↦ getElem?_emptied c m id
  refine ⟨⟨h.registry.refs, ?_, ?_, h.registry.objects, ?_, h.registry.issued⟩, ?_, h.fired,
    h.returned, h.silent⟩
  · exact fun c' st' hc' ↦ h.registry.conns c' st' ((hrest c' st').mp hc').2
  · intro c' st' hacc
    obtain ⟨hlt, hnone, hst⟩ := h.registry.accepting c' st' hacc
    refine ⟨hlt, ?_, hst⟩
    rw [Option.eq_none_iff_forall_ne_some]
    intro st'' hst''
    rw [((hrest c' st'').mp hst'').2] at hnone
    cases hnone
  · intro m id slots hs
    rw [hplaces] at hs
    split at hs
    · cases hs
    · exact h.registry.entries m id slots hs
  · have heq : ((s.forgotten c).emptied c).ledger
        ((drainInOrder (s.maps c) order).map (·.2.onClose.pair)) =
        ((s.ledger []).withdraw {k | k.1 = c}
          ((drainInOrder (s.maps c) order).map (·.2.onClose.pair))).withLive
            (((s.forgotten c).emptied c).ledger []).live := by
      refine Ledger.ext rfl ?_ rfl rfl rfl rfl
      funext k
      simp only [QuicheServerSocketImpl.ledger, Ledger.withdraw, Ledger.withLive, hplaces,
        Set.mem_ofPred_eq]
      split <;> rfl
    rw [heq]
    refine (h.ledger.withdraw ?_ (pairs_nodup h c order) ?_).withLive ?_
    · rintro ⟨m, id⟩ rfl
      exact ⟨m, st, hc, hmap⟩
    · intro n
      simp only [List.mem_map, Prod.exists, mem_drainInOrder, Set.mem_ofPred_eq,
        QuicheServerSocketImpl.ledger, Option.map_eq_some_iff]
      constructor
      · rintro ⟨id, slots, hs, hn⟩
        exact ⟨c, id, rfl, slots, hs, hn⟩
      · rintro ⟨m, id, rfl, slots, hs, hn⟩
        exact ⟨id, slots, hs, hn⟩
    · rintro ⟨m, id⟩ n hn
      have hmc : m ≠ c := by
        rintro rfl
        simp [Ledger.withdraw] at hn
      simp only [QuicheServerSocketImpl.ledger, Ledger.withdraw, Set.mem_ofPred_eq, hrest]
      constructor
      · rintro ⟨c', st', ⟨-, hc'⟩, hst'⟩
        exact ⟨c', st', hc', hst'⟩
      · rintro ⟨c', st', hc', hst'⟩
        refine ⟨c', st', ⟨?_, hc'⟩, hst'⟩
        rintro rfl
        rw [hc] at hc'
        cases hc'
        exact hmc (hst'.symm.trans hmap)

/-- A connection is accepted: fresh numbers and an empty map. -/
theorem Sound.newConn (h : Sound hand s) (peerAddr : SocketAddr) :
    Sound hand (s.newConn peerAddr) := by
  have hempty : s.maps s.nextRef = ∅ := by
    refine Std.ExtTreeMap.ext_getElem? fun id ↦ ?_
    rw [Std.ExtTreeMap.getElem?_empty, Option.eq_none_iff_forall_ne_some]
    intro slots hs
    obtain ⟨hlt, -⟩ := h.registry.entries _ id slots hs
    rw [h.registry.refs] at hlt
    exact Nat.lt_irrefl _ hlt
  have hmaps : (s.newConn peerAddr).maps = s.maps := by
    funext m
    rcases eq_or_ne m s.nextRef with rfl | hne
    · simp [QuicheServerSocketImpl.newConn, hempty]
    · simp [QuicheServerSocketImpl.newConn, hne]
  have hfresh : ∀ c < s.idCounter, ∀ st, (s.newConn peerAddr).accepting ≠ some (c, st) := by
    rintro c hlt st heq
    cases heq
    exact Nat.lt_irrefl _ hlt
  refine ⟨⟨?_, ?_, ?_, ?_, ?_, h.registry.issued⟩, ?_, h.fired, h.returned, h.silent⟩
  · exact congrArg (· + 1) h.registry.refs
  · intro c st hc
    obtain ⟨hlt, hst⟩ := h.registry.conns c st hc
    exact ⟨hlt.trans (Nat.lt_succ_self _), hst⟩
  · rintro c st heq
    cases heq
    refine ⟨Nat.lt_succ_self _, ?_, by rw [h.registry.refs]; rfl⟩
    rw [Option.eq_none_iff_forall_ne_some]
    intro st hst
    exact Nat.lt_irrefl _ (h.registry.conns _ st hst).1
  · intro o ho
    obtain ⟨hd, hcl, hh⟩ := h.registry.objects o ho
    refine ⟨hd, hcl, fun handle hho ↦ ?_⟩
    obtain ⟨hm, hlt, -⟩ := hh handle hho
    exact ⟨hm, hlt.trans (Nat.lt_succ_self _), hfresh _ hlt⟩
  · intro m id slots hs
    rw [hmaps] at hs
    obtain ⟨hlt, -, hn⟩ := h.registry.entries m id slots hs
    exact ⟨hlt.trans (Nat.lt_succ_self _), hfresh m hlt, hn⟩
  · have heq : (s.newConn peerAddr).ledger hand = s.ledger hand := by
      refine Ledger.ext rfl ?_ rfl rfl rfl rfl
      funext k
      simp only [QuicheServerSocketImpl.ledger, hmaps]
    rw [heq]
    exact h.ledger

/-- The record of an accepted connection is inserted: its map is empty. -/
theorem Sound.insertConn (h : Sound hand s) {c : ConnId} {st : ConnState}
    (hacc : s.accepting = some (c, st)) : Sound hand (s.insertConn c st) := by
  obtain ⟨hlt, hnone, hst⟩ := h.registry.accepting c st hacc
  have hrec : ∀ (c' : ConnId) (st' : ConnState), (s.insertConn c st).connections[c']? = some st' →
      (c' = c ∧ st' = st) ∨ s.connections[c']? = some st' := by
    intro c' st' hc'
    rw [getElem?_insertConn] at hc'
    split at hc'
    · next heq => exact .inl ⟨heq, (Option.some.inj hc').symm⟩
    · exact .inr hc'
  refine ⟨⟨h.registry.refs, ?_, fun _ _ hno ↦ (by cases hno), ?_, ?_, h.registry.issued⟩, ?_,
    h.fired, h.returned, h.silent⟩
  · intro c' st' hc'
    rcases hrec c' st' hc' with ⟨rfl, rfl⟩ | hc'
    · exact ⟨hlt, hst⟩
    · exact h.registry.conns c' st' hc'
  · intro o ho
    obtain ⟨hd, hcl, hh⟩ := h.registry.objects o ho
    refine ⟨hd, hcl, fun handle hho ↦ ?_⟩
    obtain ⟨hm, hlt', -⟩ := hh handle hho
    exact ⟨hm, hlt', fun _ ↦ nofun⟩
  · intro m id slots hs
    obtain ⟨hlt', -, hn⟩ := h.registry.entries m id slots hs
    exact ⟨hlt', fun _ ↦ nofun, hn⟩
  · apply h.ledger.withLive
    rintro ⟨m, id⟩ n hn
    obtain ⟨slots, hs, -⟩ := Option.map_eq_some_iff.mp hn
    have hmc : m ≠ c := by
      rintro rfl
      exact (h.registry.entries m id slots hs).2.1 st hacc
    constructor
    · rintro ⟨c', st', hc', hst'⟩
      rcases hrec c' st' hc' with ⟨rfl, rfl⟩ | hc'
      · rw [hst] at hst'
        exact absurd hst'.symm hmc
      · exact ⟨c', st', hc', hst'⟩
    · rintro ⟨c', st', hc', hst'⟩
      refine ⟨c', st', ?_, hst'⟩
      have hne : c' ≠ c := by
        rintro rfl
        rw [hnone] at hc'
        cases hc'
      rw [getElem?_insertConn, if_neg hne]
      exact hc'

end

end ExtQuiche.Server
