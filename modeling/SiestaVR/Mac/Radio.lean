import SiestaVR.Mac.Inversion
import SiestaVR.Mac.BuildEffect

/-!
# What the handlers do to the links

`Radio` is the part of the MAC's state that belongs to the links: media,
back-off, the transmitting flags and the shared pending flag. Arrivals, the
overflow pass and statistics leave it alone; the lemmas here say so once, and
give the effect of the operations that do not (`radio_collideMac`,
`radio_build`). The results about occupations and about slot ticks use only
these and `tickBackoff`.
-/

namespace SiestaVR.Mac

open Lib

/-- The part of the state that belongs to the links. -/
structure Radio where
  mediums : Nat → Medium
  dcf : MacKey → DcfStats
  transmitting : Nat → Bool
  pending : Bool

/-- The radio part of a state. -/
def QueueModule.radio (m : QueueModule) : Radio :=
  ⟨m.linkMediums, m.dcfValues, m.linkIsTransmitting, m.slotTickPending⟩

/-! ## Operations that leave the links alone -/

section Frame

variable (cfg : MacConfig) (m : QueueModule)

@[simp] theorem radio_drainStats (a : AmpduPacket) (now : Nat) :
    (drainStats m a now).radio = m.radio := by
  unfold drainStats
  split <;> rfl

theorem radio_overflowQueue (flow : Int × Int) (k : MacKey) (st : QueueModule × Nat) :
    (overflowQueue cfg flow k st).1.radio = st.1.radio := by
  unfold overflowQueue
  dsimp only
  split
  · rfl
  · split <;> rfl

@[simp] theorem radio_overflowPass (order : HashOrder) :
    (overflowPass cfg order m).radio = m.radio :=
  overflowPass_rel cfg (R := fun m m' => m'.radio = m.radio) (fun _ => rfl)
    (fun h h' => h'.trans h) order m fun x _ k st => radio_overflowQueue cfg x.1 k st

end Frame

/-! ## Operations on the links -/

section Links

variable {cfg : MacConfig} {m m' : QueueModule}

theorem radio_build {first : MpduPacket} {link now airtime : Nat} {ampdu : AmpduPacket}
    (h : buildNewAmpdu cfg m first link now = some (ampdu, airtime, m')) :
    m'.radio = { m.radio with transmitting := Function.update m.linkIsTransmitting link true } := by
  rw [(buildEffect_of_build h).state]
  rfl

/-- The back-off states of a link, frozen until it is free from `t` on. -/
def frozenFrom (d : MacKey → DcfStats) (link t : Nat) : MacKey → DcfStats := fun k =>
  if k.link = link then (d k).freeze t else d k

theorem sameSensing_failures (ks : List MacKey) (m : QueueModule) :
    ∃ d, SameSensing m.dcfValues d ∧
      (ks.foldl (fun m k => m.dcfMut k fun st => st.onFailure.2) m).radio
        = { m.radio with dcf := d } := by
  induction ks generalizing m with
  | nil => exact ⟨m.dcfValues, .refl _, rfl⟩
  | cons k ks ih =>
    obtain ⟨d, hd, hm⟩ := ih (m.dcfMut k fun st => st.onFailure.2)
    exact ⟨d, (sameSensing_onFailure m.dcfValues k).trans hd, hm⟩

/-- A collision occupies the medium, freezes the link and claims the pending
flag. -/
theorem radio_collideMac (m : QueueModule) (now link : Nat) (cs : List MacKey) :
    ∃ d, SameSensing m.dcfValues d ∧
      (collideMac m now link cs).radio = { m.radio with
        mediums := Function.update m.linkMediums link
          ((m.linkMediums link).occupyCollision now (now + collisionDelay))
        dcf := frozenFrom d link (now + collisionDelay)
        pending := true } := by
  obtain ⟨d, hd, hm⟩ := sameSensing_failures cs
    (m.setMedium link ((m.linkMediums link).occupyCollision now (now + collisionDelay)))
  refine ⟨d, hd, ?_⟩
  unfold collideMac
  dsimp only
  generalize List.foldl (fun (m : QueueModule) k => m.dcfMut k fun st => st.onFailure.2) _ cs = m₁
    at hm ⊢
  have hwindow := foldl_view QueueModule.radio
    (f := fun m (k : MacKey) => updateWindowStats m (k.sta, k.link) none collisionDelay false now)
    (fun _ _ => rfl) cs (freezeLink m₁ link (now + collisionDelay))
  generalize List.foldl _ (freezeLink m₁ link (now + collisionDelay)) cs = m₂ at hwindow ⊢
  have hfreeze : (freezeLink m₁ link (now + collisionDelay)).radio
      = { m₁.radio with dcf := frozenFrom m₁.radio.dcf link (now + collisionDelay) } := rfl
  rw [hfreeze, hm] at hwindow
  show ({ m₂.radio with pending := true } : Radio) = _
  rw [hwindow]
  rfl

end Links

end SiestaVR.Mac
