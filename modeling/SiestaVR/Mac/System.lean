import SiestaVR.Mac.Service
import SiestaVR.Lib.Runs

/-!
# The MAC as an event system

The simulator handles one event after the other: arrivals on the two ports and
position updates come from outside at any time that is not past an outstanding
event; slot ticks and completions are the events the MAC scheduled itself, due
when no other outstanding event is earlier. Events at the same time may be
handled in any order.

`MacRun cfg es s` is a run from the initial state under no further condition;
results about a class of runs use `Run (step cfg) ok` with a condition `ok`.
-/

namespace SiestaVR.Mac

open Lib

/-- The events. -/
inductive Event
  /-- A packet offered to the downlink port at a time. -/
  | input (t : Nat) (p : MpduPacket)
  /-- A packet offered to the uplink port at a time. -/
  | inputUL (t : Nat) (p : MpduPacket)
  /-- A station's position at a time. -/
  | coords (t : Nat) (sta : Int) (c : Coords)
  /-- The slot tick scheduled for a time. -/
  | tick (t : Nat) (order : HashOrder)
  /-- The completion at a position of `Sim.completions`. -/
  | completion (i : Nat)

/-- No outstanding event is earlier than `t`, and time does not run back. -/
def due (s : Sim) (t : Nat) : Bool :=
  s.now ≤ t && s.ticks.all (t ≤ ·) && s.completions.all (t ≤ ·.1)

/-- Handling of one event; no result if it cannot happen or aborts. -/
def step (cfg : MacConfig) (s : Sim) : Event → Option Sim
  | .input t p => if due s t then input cfg { s with now := t } p else none
  | .inputUL t p => if due s t then inputUL cfg { s with now := t } p else none
  | .coords t sta c => if due s t then some (inputCoordsUpdate { s with now := t } sta c) else none
  | .tick t order =>
    if due s t ∧ t ∈ s.ticks then
      dequeScheduleService cfg order { s with now := t, ticks := s.ticks.erase t }
    else none
  | .completion i =>
    match s.completions[i]? with
    | some (t, ampdu) =>
      if due s t then
        sendAmpdu cfg { s with now := t, completions := s.completions.eraseIdx i } ampdu
      else none
    | none => none

/-- A run of the MAC from its initial state. -/
abbrev MacRun (cfg : MacConfig) (es : List Event) (s : Sim) : Prop :=
  Run (step cfg) (fun _ _ => True) (Sim.new cfg) es s

end SiestaVR.Mac
