import ExtQuiche.Server.Closing
import ExtQuiche.System.CloseSignals

/-!
# After the close of the server

Library `System`. `close` stops no driver and leaves both channels as they are
(`src/quiche/socket.rs:107–129`), and PHP keeps its stream objects. What these still send
or call finds no record, and the accept arm no listener.
-/

namespace ExtQuiche.System
open ExtQuiche.Base ExtQuiche.Conn ExtQuiche.Driver ExtQuiche.Server

section

variable {w w' : World}

private theorem silent_happens {s : QuicheServerSocketImpl} {l : Label} (hs : Silent s w.server)
    (h : Happens w l w') : Silent s w'.server := by
  rcases h.server with heq | ⟨k, hk, -⟩
  · rw [heq]
    exact hs
  · exact hs.step hk

/-- Outside `tick`, `close` returns where its callbacks are mild: every slot held is fired
once, with `false`, and no other one; and whatever happens afterwards, `connections` stays
empty and no callback is invoked. `src/quiche/socket.rs:107–254`. -/
theorem serverClose_final (h : world.Reachable w) (htick : w.tick = .outside)
    (hfree : w.server.hung = none) (conns : List ConnId) (orders : ConnId → List StreamId)
    (tape : List Script) :
    ∃ w', world.step w (.close conns orders tape) = some w' ∧
      (MildSince w.server w'.server → ClosedDown w.server w'.server ∧
        ∀ ls w'', world.run w' ls = some w'' → Silent w'.server w''.server) := by
  have hacc : w.server.accepting = none := by
    by_contra hne
    exact absurd ((linked_of_reachable h).inserting hne) (by simp [htick])
  obtain ⟨server, hclose⟩ : ∃ server, w.server.step (.close conns orders tape) = some server :=
    ⟨_, if_pos ⟨hfree, hacc⟩⟩
  refine ⟨{ w with server }, ?_, fun hmild ↦ ?_⟩
  · simp only [world, World.step, World.goOn, htick, hfree, hclose, and_self, if_true,
      Option.map_some]
  · have hdown := closedDown_of_mild (server_reachable h) hclose hmild
    refine ⟨hdown, fun ls w'' hrun ↦ ?_⟩
    exact Machine.run_invariant (I := fun u ↦ Silent server u.server)
      (fun _ _ _ hu ht ↦ silent_happens hu (step_happens ht)) hdown.silent hrun

end

/-- The peer opens stream 0, PHP hooks its end, and `tick` returns. -/
def opensOne : List Label :=
  arrivals 1 ++
    [.driver 0 (.read .call), .driver 0 (.read (.readableNext (some 0))),
      .driver 0 (.read .tryReserve), .pollEvents [⟨[.setOnClose 0 closure], none⟩],
      .pollEvents [], .pollCloses [] [], .timer]

/-- The server is closed while the driver still runs; its callback writes on the stream. -/
theorem opensOne_final :
    ∃ w w', world.run (.start closure) opensOne = some w ∧
      world.step w (.close [] (fun _ ↦ []) [⟨[.write 0 [97] false], none⟩]) = some w' ∧
      w.server.Holds ⟨0, .close⟩ ∧ ClosedDown w.server w'.server ∧
      ∀ ls w'', world.run w' ls = some w'' → Silent w'.server w''.server := by
  have h : (world.run (.start closure) opensOne).map (fun w ↦
      ((w.tick, w.server.hung), (world.step w (.close [] (fun _ ↦ [])
        [⟨[.write 0 [97] false], none⟩])).map fun w' ↦ w'.server.log.drop w.server.log.length)) =
      some ((.outside, none), some [.fireOnClose ⟨0, .close⟩ false,
        .invoked ⟨.onClose ⟨0, .close⟩ false, [.slot ⟨0, .close⟩, .slotsMap 0],
          [.incomingBidi ⟨0, 0, "192.0.2.1:4433", 0, 0, ⟨0, .data⟩, ⟨0, .close⟩,
            ⟨0, "192.0.2.1:4433", 0, 0, 0⟩⟩], ⟨[.write 0 [97] false], none⟩⟩,
        .firedOnClose ⟨0, .close⟩]) := by decide +kernel
  obtain ⟨w, hw, heq⟩ := Option.map_eq_some_iff.mp h
  simp only [Prod.mk.injEq, Option.map_eq_some_iff] at heq
  obtain ⟨⟨htick, hfree⟩, w₁, hw₁, hlog⟩ := heq
  have hreach : world.Reachable w := Machine.Reachable.run (.init ⟨closure, rfl, rfl⟩) hw
  obtain ⟨w', hw', hfinal⟩ := serverClose_final hreach htick hfree [] (fun _ ↦ [])
    [⟨[.write 0 [97] false], none⟩]
  obtain rfl : w₁ = w' := Option.some.inj (hw₁.symm.trans hw')
  have hmild : MildSince w.server w₁.server := by
    intro r hr
    rw [hlog] at hr
    simp only [List.mem_cons, reduceCtorEq, Obs.invoked.injEq, List.not_mem_nil, or_false,
      false_or] at hr
    subst hr
    exact ⟨by simp [PhpCall.opens], by simp⟩
  obtain ⟨hdown, hsilent⟩ := hfinal hmild
  refine ⟨w, w₁, hw, hw', ?_, hdown, hsilent⟩
  obtain ⟨new, hnew, -, hheld⟩ := hdown.fired
  refine (hheld ⟨0, .close⟩ false ?_).2
  rw [hnew, List.drop_left] at hlog
  simp [hlog]

end ExtQuiche.System
