import ExtQuiche.Server.CloseOnce

/-!
# Self-deadlock of the PHP thread

Library `Server`. The thread waits for itself exactly after an offending call: the fin
path of `dispatch_driver_event` releases the slot map before it calls PHP, while the
drains and every callback keep what they need locked across the call.
-/

namespace ExtQuiche.Server
open ExtQuiche.Base ExtQuiche.Conn ExtQuiche.Stream

/-- In every reachable state, no mutex has been locked by the thread that holds it exactly
where no `on_data` callback has called `setOnData` on its own stream, no `on_close` callback
`setOnClose` on its own stream, and no `on_close` callback has opened a stream on the
connection whose slot map is being drained. `src/quiche/socket.rs:110–129,210–223,307–353`. -/
theorem hung_iff_offends {s : QuicheServerSocketImpl} (hs : server.Reachable s) :
    s.hung = none ↔ Respectful s.log := (audited_of_reachable hs).hung_iff

/-- The peer opens stream 0 on a new connection, and PHP reads it. -/
def oneReader : List Label :=
  [.newConn "192.0.2.1:4433", .insertConn,
    .driverEvent 0 (.newBidi 0) [⟨[.setOnData 0 closure], none⟩]]

/-- An `on_data` callback may open a stream on its connection, write to it and hook the end
of its own. -/
theorem opensInOnData_respects :
    ∃ s, server.run (.bind (some closure)) (oneReader ++ [.driverEvent 0 (.data 0 [97] false)
        [⟨[.openUniStream 0 3, .write 1 [97] true, .setOnClose 0 closure], none⟩]]) = some s ∧
      s.hung = none ∧ Respectful s.log := by
  have h : (server.run (.bind (some closure)) (oneReader ++ [.driverEvent 0 (.data 0 [97] false)
      [⟨[.openUniStream 0 3, .write 1 [97] true, .setOnClose 0 closure], none⟩]])).map
      (·.hung) = some none := by decide +kernel
  obtain ⟨s, hs, hfree⟩ := Option.map_eq_some_iff.mp h
  exact ⟨s, hs, hfree, (hung_iff_offends (Machine.Reachable.run (.init ⟨_, rfl⟩) hs)).mp hfree⟩

/-- An `on_data` callback that replaces itself never returns. -/
theorem setOnDataInOnData_hangs :
    ∃ s, server.run (.bind (some closure)) (oneReader ++ [.driverEvent 0 (.data 0 [97] false)
        [⟨[.setOnData 0 closure], none⟩]]) = some s ∧
      s.hung = some (.slot ⟨0, .data⟩) := by
  have h : (server.run (.bind (some closure)) (oneReader ++ [.driverEvent 0 (.data 0 [97] false)
      [⟨[.setOnData 0 closure], none⟩]])).map (·.hung) = some (some (.slot ⟨0, .data⟩)) := by
    decide +kernel
  exact Option.map_eq_some_iff.mp h

end ExtQuiche.Server
