import SiestaVR.Mac.Types
import SiestaVR.Lib.Containers

/-!
# Contention functions and the medium (lib/models_mm1k.rs:2071–2272)

- `DcfStats`: the back-off state of one contention function. Its random draws
  come from a stream of its own; a draw below `cw + 1` is the stream's next
  value modulo `cw + 1`, so that every value of the range can come up.
- `Medium`: the occupation of one link. `nav_until` is kept although nothing
  in the MAC sets it.

What the proofs use of a `DcfStats` operation is which fields it leaves alone;
the field lemmas below say so once.
-/

namespace SiestaVR.Mac

open Lib

/-- `DcfStats`, less the strings and snapshots kept for logging. -/
structure DcfStats where
  cw : Nat
  backoffCounter : Nat
  retryCount : Nat
  param : EdcaParam
  mediumFreeSince : Nat := 0
  backoffFrozen : Bool := false
  rng : DrawStream Nat
  lastBackoffDrawnLogs : Nat

namespace DcfStats

/-- `DcfStats::new`, drawing the first back-off within `cw_min`. -/
def new (ac : EdcaAc) (draws : Nat → Nat) : DcfStats :=
  let p := edcaTable ac
  let drawn := draws 0 % (p.cwMin + 1)
  { cw := p.cwMin, backoffCounter := drawn, retryCount := 0, param := p,
    rng := (DrawStream.fresh draws).skip 1, lastBackoffDrawnLogs := drawn }

/-- `reload_backoff`: a new draw in `0..=cw`. -/
def reloadBackoff (st : DcfStats) : DcfStats :=
  let drawn := st.rng.peek % (st.cw + 1)
  { st with rng := st.rng.skip 1, backoffCounter := drawn, lastBackoffDrawnLogs := drawn }

/-- `on_success`. -/
def onSuccess (st : DcfStats) (cwMin : Nat) : DcfStats :=
  { st with cw := cwMin, retryCount := 0 }.reloadBackoff

/-- `on_failure`: double the window up to `cw_max`; past the retry limit, start
over and report `false`. No caller reads the flag. -/
def onFailure (st : DcfStats) : Bool × DcfStats :=
  let retries := st.retryCount + 1
  if maxRetriesMac < retries then
    (false, { st with cw := st.param.cwMin, retryCount := 0 }.reloadBackoff)
  else
    let cw := (st.cw + 1) * 2 - 1
    let cw := if st.param.cwMax < cw then st.param.cwMax else cw
    (true, { st with cw := cw, retryCount := retries }.reloadBackoff)

/-- Freeze until the medium has been free, from `t` on, for the arbitration space. -/
def freeze (st : DcfStats) (t : Nat) : DcfStats :=
  { st with backoffFrozen := true, mediumFreeSince := t }

variable (st : DcfStats)

@[simp] theorem onFailure_param : st.onFailure.2.param = st.param := by
  unfold onFailure
  dsimp only
  split <;> rfl

@[simp] theorem onFailure_frozen : st.onFailure.2.backoffFrozen = st.backoffFrozen := by
  unfold onFailure
  dsimp only
  split <;> rfl

@[simp] theorem onFailure_freeSince : st.onFailure.2.mediumFreeSince = st.mediumFreeSince := by
  unfold onFailure
  dsimp only
  split <;> rfl

@[simp] theorem freeze_param (t : Nat) : (st.freeze t).param = st.param := rfl

end DcfStats

/-! ## The medium of a link -/

/-- `Medium`, with the accumulated busy time in nanoseconds. -/
structure Medium where
  busyUntil : Nat := 0
  navUntil : Nat := 0
  txOwner : Option MacKey := none
  lastTxopOwner : Option MacKey := none
  lastTxopEnd : Nat := 0
  maxBusyReached : Nat := 0
  accumulatedBusy : Nat := 0
  deriving DecidableEq, Repr

namespace Medium

/-- `is_idle`. -/
def isIdle (m : Medium) (now : Nat) : Bool := m.busyUntil ≤ now && m.navUntil ≤ now

/-- `integrate_busy_time`: count from the high-water mark on. -/
def integrateBusyTime (m : Medium) (now until' : Nat) : Medium :=
  let start := if m.maxBusyReached < now then now else m.maxBusyReached
  if start < until' then
    { m with accumulatedBusy := m.accumulatedBusy + (until' - start), maxBusyReached := until' }
  else m

/-- `start_txop`. -/
def startTxop (m : Medium) (now t : Nat) (owner : MacKey) : Medium :=
  { m.integrateBusyTime now t with busyUntil := t, txOwner := some owner }

/-- `occupy_collision`. -/
def occupyCollision (m : Medium) (now until' : Nat) : Medium :=
  { m.integrateBusyTime now until' with txOwner := none, busyUntil := until' }

/-- `set_nav_until`. -/
def setNavUntil (m : Medium) (now t : Nat) : Medium :=
  { m.integrateBusyTime now t with navUntil := t }

/-- `release_txop`: `busy_until` stays as it is. -/
def releaseTxop (m : Medium) (now : Nat) : Medium :=
  match m.txOwner with
  | some owner => { m with lastTxopOwner := some owner, lastTxopEnd := now, txOwner := none }
  | none => { m with txOwner := none }

/-- `clear_if_idle`. -/
def clearIfIdle (m : Medium) (now : Nat) : Medium :=
  if m.isIdle now then { m with txOwner := none } else m

variable (m : Medium) (now t : Nat)

@[simp] theorem releaseTxop_busyUntil : (m.releaseTxop now).busyUntil = m.busyUntil := by
  unfold releaseTxop
  split <;> rfl

@[simp] theorem clearIfIdle_busyUntil : (m.clearIfIdle now).busyUntil = m.busyUntil := by
  unfold clearIfIdle
  split <;> rfl

end Medium

end SiestaVR.Mac
