import SiestaVR.Mac.Inversion

/-!
# Virtual collisions (lib/models_mm1k.rs:2127–2160, 2962–2983, lib/mod.rs:3831–3838)

Several access categories of one station can be ready in the same slot.
`resolve_virtual_collision` sorts the ready contention functions by priority and goes
through them: the first of a station wins, each further one fails. `Resolved` states
what the loop has done with a list of functions, given the winners before it.

The winners are kept in a hash table, so the order in which they come out is arbitrary; which
they are is not, because no two functions of a link have the same station and priority.
-/

namespace SiestaVR.Mac

open Lib

/-- Among the functions `ks`, with the winners `ws` before them, the functions `new` have won
and the others have failed once. -/
structure Resolved (ks ws new : List MacKey) (m m' : QueueModule) : Prop where
  distinct : ((ws ++ new).map MacKey.sta).Nodup
  among : ∀ w ∈ new, w ∈ ks
  covered : ∀ k ∈ ks, k.sta ∈ (ws ++ new).map MacKey.sta
  best : ∀ w ∈ new, ∀ k ∈ ks, k.sta = w.sta → acPrio w.ac ≤ acPrio k.ac
  state : m' = { m with dcfValues := fun k =>
    if k ∈ ks ∧ k ∉ new then (m.dcfValues k).onFailure.2 else m.dcfValues k }

theorem Resolved.nil {ws : List MacKey} (hws : (ws.map MacKey.sta).Nodup) (m : QueueModule) :
    Resolved [] ws [] m m where
  distinct := by simpa using hws
  among := by simp
  covered := by simp
  best := by simp
  state := by simp

section

variable {ks ws new : List MacKey} {k : MacKey} {m m' : QueueModule}

theorem Resolved.sta_ne (h : Resolved ks ws new m m') {v w : MacKey} (hv : v ∈ ws) (hw : w ∈ new) :
    v.sta ≠ w.sta := by
  have hnodup := h.distinct
  rw [List.map_append, List.nodup_append] at hnodup
  exact hnodup.2.2 v.sta (List.mem_map_of_mem hv) w.sta (List.mem_map_of_mem hw)

/-- A function of a station that has a winner fails. -/
theorem Resolved.fail (hk : k ∉ ks) (hsta : k.sta ∈ ws.map MacKey.sta)
    (h : Resolved ks ws new (m.dcfMut k fun st => st.onFailure.2) m') :
    Resolved (k :: ks) ws new m m' where
  distinct := h.distinct
  among := fun w hw => List.mem_cons_of_mem k (h.among w hw)
  covered := by
    intro j hj
    rcases List.mem_cons.1 hj with rfl | hj
    · rw [List.map_append]
      exact List.mem_append_left _ hsta
    · exact h.covered j hj
  best := by
    intro w hw j hj hjw
    rcases List.mem_cons.1 hj with rfl | hj
    · obtain ⟨v, hv, hvj⟩ := List.mem_map.1 hsta
      exact absurd (hvj.trans hjw) (h.sta_ne hv hw)
    · exact h.best w hw j hj hjw
  state := by
    have hnew : k ∉ new := fun hw => hk (h.among k hw)
    rw [h.state]
    unfold QueueModule.dcfMut
    congr 1
    funext j
    by_cases hj : j = k
    · subst hj
      simp [hk, hnew]
    · simp [hj]

/-- The first function of a station wins. -/
theorem Resolved.win (hk : k ∉ ks) (hprio : ∀ j ∈ ks, acPrio k.ac ≤ acPrio j.ac)
    (h : Resolved ks (ws ++ [k]) new m m') : Resolved (k :: ks) ws (k :: new) m m' where
  distinct := by simpa using h.distinct
  among := by
    intro w hw
    rcases List.mem_cons.1 hw with rfl | hw
    · exact List.mem_cons_self
    · exact List.mem_cons_of_mem k (h.among w hw)
  covered := by
    intro j hj
    rcases List.mem_cons.1 hj with rfl | hj
    · simp
    · simpa using h.covered j hj
  -- The list is sorted by priority, so the first of a station is its best.
  best := by
    intro w hw j hj hjw
    rcases List.mem_cons.1 hw with rfl | hwnew
    · rcases List.mem_cons.1 hj with rfl | hj
      · exact Nat.le_refl _
      · exact hprio j hj
    · rcases List.mem_cons.1 hj with rfl | hj
      · exact absurd hjw (h.sta_ne (by simp) hwnew)
      · exact h.best w hwnew j hj hjw
  state := by
    rw [h.state]
    congr 1
    funext j
    by_cases hj : j = k
    · subst hj
      simp [hk]
    · simp [hj]

end

/-- **The loop**, over functions in the order of their priority. -/
theorem resolveLoop_resolved {ks : List MacKey} (ws : List MacKey) (hn : ks.Nodup)
    (hsorted : ks.Pairwise fun a b => acPrio a.ac ≤ acPrio b.ac)
    (hws : (ws.map MacKey.sta).Nodup) (m : QueueModule) :
    ∃ new, (resolveLoop ks ws m).1 = ws ++ new ∧ Resolved ks ws new m (resolveLoop ks ws m).2 := by
  induction ks generalizing ws m with
  | nil => exact ⟨[], by simp [resolveLoop], .nil hws m⟩
  | cons k ks ih =>
    obtain ⟨hk, hn⟩ := List.nodup_cons.1 hn
    obtain ⟨hprio, hsorted⟩ := List.pairwise_cons.1 hsorted
    rw [resolveLoop]
    split
    · rename_i hsta
      obtain ⟨new, hwinners, hres⟩ := ih _ hn hsorted hws (m.dcfMut k fun st => st.onFailure.2)
      exact ⟨new, hwinners, hres.fail hk hsta⟩
    · rename_i hsta
      have hws' : ((ws ++ [k]).map MacKey.sta).Nodup := by
        rw [List.map_append, List.map_singleton, List.nodup_append]
        refine ⟨hws, List.nodup_singleton _, fun a ha b hb hab => hsta ?_⟩
        rw [List.mem_singleton] at hb
        rwa [← hb, ← hab]
      obtain ⟨new, hwinners, hres⟩ := ih _ hn hsorted hws' m
      exact ⟨k :: new, by rw [hwinners, List.append_assoc]; rfl, hres.win hk hprio⟩

theorem acPrio_injective {a b : EdcaAc} (h : acPrio a = acPrio b) : a = b := by
  cases a <;> cases b <;> first | rfl | cases h

/-- The functions that win and the state that resolving leaves, whatever the order of the
winners. -/
theorem resolve_resolved (order : HashOrder) (link : Nat) (m : QueueModule) {ready : List MacKey}
    (hn : ready.Nodup) :
    ∃ new, (resolveVirtualCollision order link m ready).1.Perm new ∧
      Resolved ready [] new m (resolveVirtualCollision order link m ready).2 := by
  let le (a b : MacKey) : Prop := acPrio a.ac ≤ acPrio b.ac
  have : Std.Total le := ⟨fun a b => Nat.le_total _ _⟩
  have : IsTrans MacKey le := ⟨fun a b c => Nat.le_trans⟩
  have hperm := List.perm_insertionSort le ready
  have hmem : ∀ k, k ∈ ready.insertionSort le ↔ k ∈ ready := fun k => hperm.mem_iff
  obtain ⟨new, hwinners, hres⟩ := resolveLoop_resolved [] (hperm.nodup_iff.2 hn)
    (List.pairwise_insertionSort le ready) List.nodup_nil m
  refine ⟨new, ?_, ⟨hres.distinct, ?_, ?_, ?_, ?_⟩⟩
  · exact (order.winners_perm link _).trans (.of_eq hwinners)
  · exact fun w hw => (hmem w).1 (hres.among w hw)
  · exact fun k hk => hres.covered k ((hmem k).2 hk)
  · exact fun w hw k hk => hres.best w hw k ((hmem k).2 hk)
  · refine Eq.trans hres.state ?_
    simp only [hmem]

/-- What one failure does to a contention function: the window is doubled up to its maximum
and the retry counted or, past the retry limit, both start over; the back-off is redrawn
within the new window. -/
structure FailedOnce (st st' : DcfStats) : Prop where
  onFailure : st' = st.onFailure.2
  retryCount : st'.retryCount = if maxRetriesMac < st.retryCount + 1 then 0 else st.retryCount + 1
  cw : st'.cw = if maxRetriesMac < st.retryCount + 1 then st.param.cwMin
    else min (2 * (st.cw + 1) - 1) st.param.cwMax
  redrawn : st'.rng = st.rng.skip 1 ∧ st'.backoffCounter = st.rng.peek % (st'.cw + 1)
  withinWindow : st'.backoffCounter ≤ st'.cw

theorem failedOnce_onFailure (st : DcfStats) : FailedOnce st st.onFailure.2 := by
  have hcw : (if st.param.cwMax < (st.cw + 1) * 2 - 1 then st.param.cwMax else (st.cw + 1) * 2 - 1)
      = min (2 * (st.cw + 1) - 1) st.param.cwMax := by
    split <;> omega
  unfold DcfStats.onFailure
  dsimp only
  split
  · rename_i hlimit
    exact ⟨by simp [DcfStats.onFailure, hlimit], by simp [DcfStats.reloadBackoff, hlimit],
      by simp [DcfStats.reloadBackoff, hlimit], ⟨rfl, rfl⟩,
      Nat.le_of_lt_succ (Nat.mod_lt _ (Nat.succ_pos _))⟩
  · rename_i hlimit
    exact ⟨by simp [DcfStats.onFailure, hlimit], by simp [DcfStats.reloadBackoff, hlimit],
      by simp [DcfStats.reloadBackoff, hlimit, hcw], ⟨rfl, rfl⟩,
      Nat.le_of_lt_succ (Nat.mod_lt _ (Nat.succ_pos _))⟩

/-- **Virtual collisions**: of distinct ready functions of one link, exactly one of each
station is returned, the one with the highest priority. Every other listed function fails
exactly once; the winners, the functions not listed and everything else of the MAC are left
as they were. -/
theorem virtual_collisions_resolved (order : HashOrder) (link : Nat) (m : QueueModule)
    (ready : List MacKey) (hn : ready.Nodup) (hlink : ∀ k ∈ ready, k.link = link) :
    let winners := (resolveVirtualCollision order link m ready).1
    let m' := (resolveVirtualCollision order link m ready).2
    (winners.Nodup ∧ (∀ w ∈ winners, w ∈ ready) ∧
      ∀ k ∈ ready, ∃! w, w ∈ winners ∧ w.sta = k.sta) ∧
    (∀ w ∈ winners, ∀ k ∈ ready, k.sta = w.sta → k ≠ w → acPrio w.ac < acPrio k.ac) ∧
    (∀ k ∈ ready, k ∉ winners → FailedOnce (m.dcfValues k) (m'.dcfValues k)) ∧
    (∀ k, k ∉ ready ∨ k ∈ winners → m'.dcfValues k = m.dcfValues k) ∧
    m' = { m with dcfValues := m'.dcfValues } := by
  intro winners m'
  obtain ⟨new, hperm, hres⟩ := resolve_resolved order link m hn
  have hmem : ∀ k, k ∈ winners ↔ k ∈ new := fun k => hperm.mem_iff
  have hdistinct : (winners.map MacKey.sta).Nodup :=
    (hperm.map MacKey.sta).nodup_iff.2 hres.distinct
  have hdcf : ∀ k, m'.dcfValues k =
      if k ∈ ready ∧ k ∉ new then (m.dcfValues k).onFailure.2 else m.dcfValues k := by
    intro k
    exact congrFun (congrArg QueueModule.dcfValues hres.state) k
  refine ⟨⟨hdistinct.of_map, ?_, ?_⟩, ?_, ?_, ?_, ?_⟩
  · exact fun w hw => hres.among w ((hmem w).1 hw)
  · intro k hk
    obtain ⟨w, hw, hwk⟩ := List.mem_map.1 (hres.covered k hk)
    refine ⟨w, ⟨(hmem w).2 hw, hwk⟩, fun v ⟨hv, hvk⟩ => ?_⟩
    exact List.inj_on_of_nodup_map hdistinct hv ((hmem w).2 hw) (hvk.trans hwk.symm)
  · intro w hw k hk hsta hne
    -- Equal priority would make it the same function: same station, category and link.
    have hle := hres.best w ((hmem w).1 hw) k hk hsta
    refine lt_of_le_of_ne hle fun heq => hne ?_
    have hwlink := hlink w (hres.among w ((hmem w).1 hw))
    obtain ⟨sta, ac, l⟩ := k
    obtain ⟨sta', ac', l'⟩ := w
    rw [MacKey.mk.injEq]
    exact ⟨hsta, acPrio_injective heq.symm, (hlink _ hk).trans hwlink.symm⟩
  · intro k hk hlost
    rw [hdcf k, if_pos ⟨hk, fun h => hlost ((hmem k).2 h)⟩]
    exact failedOnce_onFailure _
  · intro k hk
    refine (hdcf k).trans (if_neg ?_)
    rintro ⟨hready, hnew⟩
    rcases hk with hk | hk
    · exact hk hready
    · exact hnew ((hmem k).1 hk)
  · rw [funext hdcf]
    exact hres.state

/-- The voice and the video function of a station and the voice function of the access
point: the video function fails. -/
theorem virtual_collisions_resolved_three :
    let winners := (resolveVirtualCollision .insertion 0 (QueueModule.new oneStation)
      [⟨200, .video, 0⟩, ⟨-1, .voice, 0⟩, ⟨200, .voice, 0⟩]).1
    winners = [⟨-1, .voice, 0⟩, ⟨200, .voice, 0⟩] ∧
      ∀ w ∈ winners, ∀ k ∈ [(⟨200, .video, 0⟩ : MacKey), ⟨-1, .voice, 0⟩, ⟨200, .voice, 0⟩],
        k.sta = w.sta → k ≠ w → acPrio w.ac < acPrio k.ac :=
  ⟨by decide, (virtual_collisions_resolved .insertion 0 (QueueModule.new oneStation)
    [⟨200, .video, 0⟩, ⟨-1, .voice, 0⟩, ⟨200, .voice, 0⟩] (by decide) (by decide)).2.1⟩

end SiestaVR.Mac
