import CamTrack.Proofs.Conservation
import CamTrack.Proofs.StageThree
import CamTrack.Proofs.Worker

namespace CamTrack
open Python Assignment Positions

variable {K : Type} [Field K] [LinearOrder K]

section Update
variable [HasSqrt K] {solver : LinearSumAssignment K} {st st' : ByteTracker K}
  {ds : List (Detection K)} {a : ByteTracker.TwoStages K} {b : ByteTracker.ThreeStages K}
  {out : List (Track K)}

/-- In a tracker without tracks every high-confidence detection starts one. -/
theorem Updated.spawned_of_empty (h : Updated solver st ds frameId a b out st')
    (hempty : st.tracks.keys = []) : b.spawned = ds.filter ByteTracker.isHighConf := by
  have hactive : a.activeIds = [] := h.first.activeIds.trans hempty
  have hm1 : a.stage1.matches_ = [] := by
    apply List.eq_nil_iff_forall_not_mem.mpr
    intro p hp
    have := (h.first.run1.matching.inRange p hp).1
    rw [hactive] at this
    simp at this
  have hm3 : b.stage3.matches_ = [] := by
    apply List.eq_nil_iff_forall_not_mem.mpr
    intro p hp
    have hi := (h.third.run3.matching.inRange p hp).1
    have := (h.third.tentative_unmatched h.first _ (List.getElem_mem hi)).1
    rw [hactive] at this
    simp at this
  have hleft : b.leftoverHigh = a.highConf := by
    rw [h.third.leftover, h.first.run1.left, hm1]
    simp [gated, pick_range]
  rw [(h.third.spawned_leftover hm3).2, hleft, h.first.highConf]

/-- Without old tracks the tracker ends up with the spawned ones. -/
theorem Updated.entries_of_empty (h : Updated solver st ds frameId a b out st')
    (hempty : st.tracks.keys = []) :
    st'.tracks.entries = newTracks st.cameraId st.idAllocator.counter b.spawned := by
  have he := Dict.keys_eq_nil.mp hempty
  rw [h.entries]
  simp [Dict.filter, Dict.mapValues, he]

/-- A frame changes nothing and publishes nothing exactly when the tracker holds
no track and the frame has no high-confidence detection. -/
theorem Updated.inert_iff (h : Updated solver st ds frameId a b out st') (hw : WellFormed st) :
    st' = st ∧ out = [] ↔
      st.tracks.keys = [] ∧ ∀ d ∈ ds, ByteTracker.isHighConf d = false := by
  constructor
  · intro hx
    obtain ⟨rfl, hout⟩ := hx
    have hempty : st'.tracks.keys = [] := by
      have hv := h.out
      rw [hout] at hv
      have hvals : st'.tracks.values = [] := List.map_eq_nil_iff.mp hv.symm
      exact Dict.keys_eq_nil.mpr (List.map_eq_nil_iff.mp hvals)
    have hnew := h.entries_of_empty hempty
    rw [Dict.keys_eq_nil.mp hempty, h.spawned_of_empty hempty] at hnew
    have hkeys := congrArg (List.map Prod.fst) hnew
    rw [newTracks_keys] at hkeys
    have hnone : ds.filter ByteTracker.isHighConf = [] := by
      simpa using (congrArg List.length hkeys).symm
    refine ⟨hempty, fun d hd => ?_⟩
    simpa using List.filter_eq_nil_iff.mp hnone d hd
  · intro hx
    obtain ⟨hempty, hlow⟩ := hx
    have hspawn : b.spawned = [] := by
      rw [h.spawned_of_empty hempty, List.filter_eq_nil_iff]
      intro d hd
      simp [hlow d hd]
    have hent := h.entries_of_empty hempty
    rw [hspawn] at hent
    have htracks : st'.tracks = st.tracks :=
      Dict.ext_entries (by rw [hent, Dict.keys_eq_nil.mp hempty]; rfl)
    refine ⟨?_, ?_⟩
    · have halloc : st'.idAllocator = st.idAllocator := by
        rw [h.idAllocator, hspawn, List.length_nil, Nat.add_zero, ← hw.camera]
      obtain ⟨c, t, al⟩ := st
      obtain ⟨c', t', al'⟩ := st'
      have hc : c' = c := h.cameraId
      cases hc
      cases htracks
      cases halloc
      rfl
    · rw [h.out, Dict.values, hent]
      rfl

end Update
end CamTrack
