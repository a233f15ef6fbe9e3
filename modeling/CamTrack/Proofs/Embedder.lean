import CamTrack.Embedder
import CamTrack.Proofs.Reidentification

namespace CamTrack
open Python CrossCameraMatcher ReidConstants

namespace Cv2
variable {cv2 : Cv2} {bins : Nat} {crop crop' : Crop}

theorem cell_lt {pixel : Pixel} {i : Nat} (h : cv2.cell bins pixel = some i) :
    i < bins * bins * bins := by
  simp only [cell, Option.bind_eq_bind, Option.bind_eq_some_iff] at h
  obtain ⟨h', _, s, _, v, _, hi⟩ := h
  obtain rfl := Option.some.inj hi
  have hh := h'.isLt
  have hs := s.isLt
  have hv := v.isLt
  nlinarith [Nat.mul_le_mul_right bins (Nat.succ_le_of_lt hs),
    Nat.mul_le_mul_right (bins * bins) (Nat.succ_le_of_lt hh)]

theorem count_of_le {i : Nat} (h : bins * bins * bins ≤ i) : cv2.count bins crop i = 0 := by
  rw [count, List.length_eq_zero_iff, List.filter_eq_nil_iff]
  intro pixel _ hcell
  exact absurd (cell_lt (of_decide_eq_true hcell)) (not_lt.mpr h)

theorem count_of_size (h : crop.size = 0) (i : Nat) : cv2.count bins crop i = 0 := by
  have hpixels : crop.pixels = [] := by
    apply List.eq_nil_iff_forall_not_mem.mpr
    intro pixel hp
    obtain ⟨y, _, hx⟩ := List.mem_flatMap.mp hp
    obtain ⟨x, _, _⟩ := List.mem_map.mp hx
    have hy := y.pos
    have hx := x.pos
    have hsize : 0 < crop.size := by
      rw [Crop.size]
      positivity
    omega
  rw [count, hpixels]
  rfl

end Cv2

namespace ColorHistogramEmbedder
variable {e : ColorHistogramEmbedder} {cv2 : Cv2} {crop crop' : Crop}

/-- What two crops have in common, over the cells that an embedding keeps. -/
def overlap (e : ColorHistogramEmbedder) (cv2 : Cv2) (crop crop' : Crop) : Nat :=
  ((List.range embeddingDim).map
    (fun i => cv2.count e.bins crop i * cv2.count e.bins crop' i)).sum

/-- In whole numbers, that the cosine of two histograms reaches 0.72. -/
def Alike (e : ColorHistogramEmbedder) (cv2 : Cv2) (crop crop' : Crop) : Prop :=
  0 < e.overlap cv2 crop crop' ∧
    324 * (e.overlap cv2 crop crop * e.overlap cv2 crop' crop') ≤
      625 * e.overlap cv2 crop crop' ^ 2

instance : Decidable (e.Alike cv2 crop crop') := inferInstanceAs (Decidable (_ ∧ _))

section Exact
variable {K : Type} [Field K] [LinearOrder K] [IsStrictOrderedRing K] [HasSqrt K]

theorem norm_sq (hsqrt : ExactSqrt K) (a : List K) :
    0 ≤ norm a ∧ norm a * norm a = (a.map (fun x => x * x)).sum := by
  apply hsqrt
  apply List.sum_nonneg
  intro y hy
  obtain ⟨x, _, rfl⟩ := List.mem_map.mp hy
  exact mul_self_nonneg x

/-- A histogram has no counts, or is at least one in length. -/
theorem norm_hist (hsqrt : ExactSqrt K) (e : ColorHistogramEmbedder) (cv2 : Cv2) (crop : Crop) :
    (∀ i, cv2.count e.bins crop i = 0) ∨
      1 ≤ norm ((cv2.calcHist e.bins crop).map (Nat.cast : Nat → K)) := by
  by_cases hzero : ∀ i, cv2.count e.bins crop i = 0
  · exact .inl hzero
  · right
    obtain ⟨i, hi⟩ := not_forall.mp hzero
    have hlt : i < e.bins * e.bins * e.bins := by
      by_contra hle
      exact hi (Cv2.count_of_le (not_lt.mp hle))
    obtain ⟨hnonneg, hsq⟩ := norm_sq hsqrt ((cv2.calcHist e.bins crop).map (Nat.cast : Nat → K))
    have hmem : (cv2.count e.bins crop i * cv2.count e.bins crop i : K) ∈
        ((cv2.calcHist e.bins crop).map (Nat.cast : Nat → K)).map (fun x => x * x) := by
      refine List.mem_map_of_mem (f := fun x : K => x * x) (List.mem_map_of_mem ?_)
      exact List.mem_map_of_mem (List.mem_range.mpr hlt)
    have hle := List.single_le_sum (fun y hy => by
      obtain ⟨x, _, rfl⟩ := List.mem_map.mp hy
      exact mul_self_nonneg x) _ hmem
    have hone : (1 : K) ≤ cv2.count e.bins crop i := by
      exact_mod_cast Nat.one_le_iff_ne_zero.mpr hi
    rw [← hsq] at hle
    nlinarith

/-- The share that a cell of the histogram has in the embedding. -/
def share (K : Type) [Field K] [HasSqrt K] (e : ColorHistogramEmbedder) (cv2 : Cv2) (crop : Crop)
    (i : Nat) : K :=
  cv2.count e.bins crop i / norm ((cv2.calcHist e.bins crop).map (Nat.cast : Nat → K))

theorem l2Normalize_hist (hsqrt : ExactSqrt K) (e : ColorHistogramEmbedder) (cv2 : Cv2)
    (crop : Crop) : l2Normalize ((cv2.calcHist e.bins crop).map (Nat.cast : Nat → K)) =
      (List.range (e.bins * e.bins * e.bins)).map (share K e cv2 crop) := by
  rw [l2Normalize]
  rcases norm_hist hsqrt e cv2 crop with hzero | hone
  · have hboth : ∀ i, (cv2.count e.bins crop i : K) = share K e cv2 crop i := by
      intro i
      rw [share, hzero i, Nat.cast_zero, zero_div]
    split
    · simp [Cv2.calcHist, Function.comp_def, hboth]
    · simp [Cv2.calcHist, Function.comp_def, share]
  · rw [if_neg (not_lt.mpr (le_trans (by norm_num) hone))]
    simp [Cv2.calcHist, Function.comp_def, share]

/-- An embedding has the shares of the first cells, however many bins there are. -/
theorem embed_eq (hsqrt : ExactSqrt K) (e : ColorHistogramEmbedder) (cv2 : Cv2) (crop : Crop) :
    (e.embed cv2 crop : List K) = (List.range embeddingDim).map (share K e cv2 crop) := by
  rw [embed]
  split
  · rename_i hsize
    apply List.ext_getElem
    · simp
    · intro i _ _
      simp [share, Cv2.count_of_size hsize i]
  · simp only [l2Normalize_hist hsqrt, List.length_map, List.length_range]
    split
    · rename_i hle
      rw [← List.map_take, List.take_range, min_eq_left hle]
    · rename_i hlt
      apply List.ext_getElem
      · simp
        omega
      · intro i _ hi
        rw [List.getElem_append]
        split
        · simp
        · rename_i hge
          simp at hge
          simp [share, Cv2.count_of_le hge]

/-- The sum over the cells that two embeddings keep. -/
theorem sum_share (e : ColorHistogramEmbedder) (cv2 : Cv2) (crop crop' : Crop) :
    (List.zipWith (· * ·) ((List.range embeddingDim).map (share K e cv2 crop))
      ((List.range embeddingDim).map (share K e cv2 crop'))).sum =
        (e.overlap cv2 crop crop' : K) /
          (norm ((cv2.calcHist e.bins crop).map (Nat.cast : Nat → K)) *
            norm ((cv2.calcHist e.bins crop').map (Nat.cast : Nat → K))) := by
  rw [List.zipWith_map, List.zipWith_self, overlap]
  induction List.range embeddingDim with
  | nil => simp
  | cons i is ih =>
    rw [List.map_cons, List.sum_cons, ih, List.map_cons, List.sum_cons, share, share]
    push_cast
    ring

theorem embed_length (hsqrt : ExactSqrt K) (e : ColorHistogramEmbedder) (cv2 : Cv2) (crop : Crop) :
    (e.embed cv2 crop : List K).length = embeddingDim := by
  rw [embed_eq hsqrt, List.length_map, List.length_range]

omit [HasSqrt K] in
/-- The squares of the lengths, and the bound on the product, leave only whole numbers. -/
theorem threshold_le_iff {A B n n' : K} {S S' D : Nat} (hA : 0 ≤ A) (hB : 0 ≤ B)
    (hn : D ≠ 0 → 0 < n ∧ 0 < n') (hS : A * A = S / (n * n)) (hS' : B * B = S' / (n' * n'))
    (hcs : ((D : K) / (n * n')) ^ 2 ≤ A * A * (B * B)) :
    cosineSimilarityMatchThreshold ≤ (D : K) / (n * n') / (if A * B = 0 then 1e-9 else A * B) ↔
      0 < D ∧ 324 * (S * S') ≤ 625 * D ^ 2 := by
  have hthreshold : (cosineSimilarityMatchThreshold : K) = 0.72 := rfl
  rcases Nat.eq_zero_or_pos D with rfl | hD
  · have hpos : ¬ (0.72 : K) ≤ 0 := by norm_num
    simp [hthreshold, hpos]
  · obtain ⟨hn, hn'⟩ := hn hD.ne'
    have hdot : 0 < (D : K) / (n * n') := div_pos (Nat.cast_pos.mpr hD) (mul_pos hn hn')
    have hAB : 0 < A * B := by
      refine lt_of_le_of_ne (mul_nonneg hA hB) fun hzero => ?_
      have hsq : A * A * (B * B) = 0 := by
        rw [mul_mul_mul_comm, ← hzero, mul_zero]
      exact absurd (hcs.trans_eq hsq) (not_le.mpr (pow_pos hdot 2))
    have hleft : ((0.72 : K) * (A * B)) ^ 2 = 0.5184 * (S * S') / (n * n') ^ 2 := by
      calc ((0.72 : K) * (A * B)) ^ 2 = 0.5184 * ((A * A) * (B * B)) := by ring
        _ = 0.5184 * (S * S') / (n * n') ^ 2 := by
          rw [hS, hS', div_mul_div_comm, ← mul_div_assoc]
          ring
    rw [if_neg hAB.ne', le_div_iff₀ hAB, hthreshold,
      ← pow_le_pow_iff_left₀ (by positivity) hdot.le two_ne_zero, hleft, div_pow,
      div_le_div_iff_of_pos_right (pow_pos (mul_pos hn hn') 2)]
    constructor
    · intro hle
      have hwhole : (324 : K) * (S * S') ≤ 625 * D ^ 2 := by linarith
      exact ⟨hD, by exact_mod_cast hwhole⟩
    · rintro ⟨_, hle⟩
      have hwhole : (324 : K) * (S * S') ≤ 625 * D ^ 2 := by exact_mod_cast hle
      linarith

theorem overlap_of_no_counts (h : ∀ i, cv2.count e.bins crop i = 0) :
    e.overlap cv2 crop crop' = 0 ∧ e.overlap cv2 crop' crop = 0 := by
  simp [overlap, h]

/-- Two crops match exactly when they are alike, however large they are and wherever in them
their colours lie. -/
theorem alike_iff (hsqrt : ExactSqrt K) (e : ColorHistogramEmbedder) (cv2 : Cv2)
    (crop crop' : Crop) :
    cosineSimilarityMatchThreshold ≤ cosine (e.embed cv2 crop : List K) (e.embed cv2 crop') ↔
      e.Alike cv2 crop crop' := by
  have hsquares : ∀ crop, norm (e.embed cv2 crop : List K) * norm (e.embed cv2 crop : List K) =
      (e.overlap cv2 crop crop : K) /
        (norm ((cv2.calcHist e.bins crop).map (Nat.cast : Nat → K)) *
          norm ((cv2.calcHist e.bins crop).map (Nat.cast : Nat → K))) := by
    intro crop
    rw [(norm_sq hsqrt _).2, ← List.zipWith_self, embed_eq hsqrt, sum_share]
  have hcs := sum_mul_sq_le
    ((embed_length hsqrt e cv2 crop).trans (embed_length hsqrt e cv2 crop').symm)
  rw [← (norm_sq hsqrt _).2, ← (norm_sq hsqrt _).2] at hcs
  have hdot : (List.zipWith (· * ·) (e.embed cv2 crop : List K) (e.embed cv2 crop')).sum =
      (e.overlap cv2 crop crop' : K) /
        (norm ((cv2.calcHist e.bins crop).map (Nat.cast : Nat → K)) *
          norm ((cv2.calcHist e.bins crop').map (Nat.cast : Nat → K))) := by
    rw [embed_eq hsqrt, embed_eq hsqrt, sum_share]
  rw [hdot] at hcs
  rw [cosine, denom, hdot, Alike]
  refine threshold_le_iff (norm_sq hsqrt _).1 (norm_sq hsqrt _).1 (fun hD => ?_) (hsquares crop)
    (hsquares crop') hcs
  constructor
  · rcases norm_hist hsqrt e cv2 crop with hzero | hone
    · exact absurd (overlap_of_no_counts hzero).1 hD
    · exact zero_lt_one.trans_le hone
  · rcases norm_hist hsqrt e cv2 crop' with hzero | hone
    · exact absurd (overlap_of_no_counts hzero).2 hD
    · exact zero_lt_one.trans_le hone

end Exact
end ColorHistogramEmbedder

section Run
open ColorHistogramEmbedder
variable {K α : Type} [Field K] [LinearOrder K] [IsStrictOrderedRing K] [HasSqrt K]
  [DecidableEq α] {uuid : Nat → String}

/-- Embeddings have one length, whatever the crops, so that any two of them can be compared. -/
theorem crop_observed (hsqrt : ExactSqrt K) (huuid : Function.Injective uuid)
    (e : ColorHistogramEmbedder) (cv2 : Cv2) {os : List (CropObservation K)}
    {o : CropObservation K} (hclock : os.Pairwise (fun a b => a.now ≤ b.now))
    (hnow : ∀ a ∈ os, a.now ≤ o.now) :
    ∃ result,
      ((observeAll cosineSimilarity uuid new (os.map (CropObservation.embedded e cv2))).observe
        cosineSimilarity uuid (o.embedded e cv2)).2 = .ok result := by
  have hsized : ∀ a ∈ os.map (CropObservation.embedded e cv2),
      OfLength embeddingDim a.embedding := by
    intro a ha
    obtain ⟨_, _, rfl⟩ := List.mem_map.mp ha
    exact embed_length hsqrt e cv2 _
  have h := remembers (fun a b ha hb => cosineSimilarity_ok (ha.trans hb.symm)) huuid hsized
    (List.pairwise_map.mpr hclock)
  refine observe_returns hsqrt h (history_le fun a ha => ?_) (embed_length hsqrt e cv2 _)
  obtain ⟨a', ha', rfl⟩ := List.mem_map.mp ha
  exact hnow a' ha'

/-- Whatever the crops, two of them match exactly when they are alike, and no call raises; and
where crops are alike exactly when they are of one object, objects keep their identities. -/
theorem crops_keep_identities (hsqrt : ExactSqrt K) (huuid : Function.Injective uuid)
    (e : ColorHistogramEmbedder) (cv2 : Cv2) {os : List (CropObservation K)}
    (hclock : os.Pairwise (fun a b => a.now ≤ b.now)) :
    (∀ crop crop', ∃ similarity,
      cosineSimilarity (e.embed cv2 crop : List K) (e.embed cv2 crop') = .ok similarity ∧
        (cosineSimilarityMatchThreshold ≤ similarity ↔ e.Alike cv2 crop crop')) ∧
    (∀ earlier o later, os = earlier ++ o :: later → ∃ result,
      ((observeAll cosineSimilarity uuid new (earlier.map (CropObservation.embedded e cv2))).observe
        cosineSimilarity uuid (o.embedded e cv2)).2 = .ok result) ∧
    ∀ object : Crop → α, (∀ o ∈ os, ∀ o' ∈ os,
        e.Alike cv2 o.crop o'.crop ↔ object o.crop = object o'.crop) →
      ∃ look : List K → Option α,
        (∀ o ∈ os, look (e.embed cv2 o.crop) = some (object o.crop)) ∧
        FollowsLooks cosineSimilarity uuid look (os.map (CropObservation.embedded e cv2)) := by
  have hlengths : ∀ crop crop', (e.embed cv2 crop : List K).length =
      (e.embed cv2 crop' : List K).length :=
    fun crop crop' => (embed_length hsqrt e cv2 crop).trans (embed_length hsqrt e cv2 crop').symm
  refine ⟨fun crop crop' =>
      ⟨_, cosineSimilarity_ok (hlengths crop crop'), alike_iff hsqrt e cv2 crop crop'⟩,
    ?_, fun object hobject => ?_⟩
  · rintro earlier o later rfl
    obtain ⟨hearlier, _, hlast⟩ := List.pairwise_append.mp hclock
    exact crop_observed hsqrt huuid e cv2 hearlier fun a ha => hlast a ha o List.mem_cons_self
  · have hcosine : ∀ o ∈ os, ∀ o' ∈ os, cosineSimilarityMatchThreshold ≤
        cosine (e.embed cv2 o.crop : List K) (e.embed cv2 o'.crop) ↔
          object o.crop = object o'.crop :=
      fun o ho o' ho' => (alike_iff hsqrt e cv2 _ _).trans (hobject o ho o' ho')
    -- one embedding never belongs to two objects, so that it says which one it is of
    have hone : Function.FactorsThrough (fun o : {o // o ∈ os} => some (object o.1.crop))
        (fun o => (e.embed cv2 o.1.crop : List K)) := by
      rintro ⟨o, ho⟩ ⟨o', ho'⟩ heq
      have hsame : (e.embed cv2 o.crop : List K) = e.embed cv2 o'.crop := heq
      have hself := (hcosine o ho o ho).mpr rfl
      rw [Option.some.injEq, ← hcosine o ho o' ho', ← hsame]
      exact hself
    let look : List K → Option α := Function.extend
      (fun o : {o // o ∈ os} => e.embed cv2 o.1.crop) (fun o => some (object o.1.crop))
      (fun _ => none)
    have hlook : ∀ o ∈ os, look (e.embed cv2 o.crop) = some (object o.crop) :=
      fun o ho => hone.extend_apply _ ⟨o, ho⟩
    refine ⟨look, hlook, ?_⟩
    have hsim : ∀ a b : List K, (∃ o ∈ os, e.embed cv2 o.crop = a) →
        (∃ o ∈ os, e.embed cv2 o.crop = b) → cosineSimilarity a b = .ok (cosine a b) := by
      rintro _ _ ⟨o, _, rfl⟩ ⟨o', _, rfl⟩
      exact cosineSimilarity_ok (hlengths _ _)
    have hseparates : Separates cosine look (fun a => ∃ o ∈ os, e.embed cv2 o.crop = a) := by
      rintro _ _ ⟨o, ho, rfl⟩ ⟨o', ho', rfl⟩
      rw [hcosine o ho o' ho', hlook o ho, hlook o' ho', Option.some.injEq]
    refine looks_followed hsim hseparates huuid (fun a ha => ?_) (List.pairwise_map.mpr hclock)
    obtain ⟨o, ho, rfl⟩ := List.mem_map.mp ha
    exact ⟨o, ho, rfl⟩

end Run

/-! A red object that two cameras see at different sizes, and a blue one. -/

noncomputable instance : HasSqrt ℝ := ⟨Real.sqrt⟩

theorem exactSqrt_real : ExactSqrt ℝ :=
  fun x hx => ⟨Real.sqrt_nonneg x, Real.mul_self_sqrt hx⟩

/-- What `cv2` makes of pure red and pure blue. -/
def pureCv2 : Cv2 where
  bgr2hsv p := if p.c2 = 255 then ⟨0, 255, 255⟩ else ⟨120, 255, 255⟩
  bin bins lo hi value :=
    if h : lo ≤ value.toNat ∧ (value.toNat - lo) * bins / (hi - lo) < bins then some ⟨_, h.2⟩
    else none

def solidCrop (height width : Nat) (pixel : Pixel) : Crop := ⟨height, width, fun _ _ => pixel⟩

def redCrop (size : Nat) : Crop := solidCrop size size ⟨0, 0, 255⟩

def blueCrop : Crop := solidCrop 1 1 ⟨255, 0, 0⟩

def redThenBlue : List (CropObservation ℝ) :=
  [⟨"zone-a", "cam-1", "track-1", redCrop 1, 0⟩, ⟨"zone-a", "cam-1", "track-2", blueCrop, 1⟩,
    ⟨"zone-a", "cam-2", "track-9", redCrop 2, 1⟩]

/-- The colour of a crop that has one. -/
def Crop.colour (crop : Crop) : Option Pixel := crop.pixels.head?

theorem pure_alike : ∀ crop ∈ [redCrop 1, blueCrop, redCrop 2],
    ∀ crop' ∈ [redCrop 1, blueCrop, redCrop 2],
      ColorHistogramEmbedder.default.Alike pureCv2 crop crop' ↔ crop.colour = crop'.colour := by
  decide +kernel

/-- Only the red object is known to the second camera. -/
theorem crops_keep_identities_red : ∃ red blue red',
    history cosineSimilarity Nat.repr new
        (redThenBlue.map (CropObservation.embedded .default pureCv2)) = [red, blue, red'] ∧
      red.globalIdentityId = red'.globalIdentityId ∧
      red.globalIdentityId ≠ blue.globalIdentityId := by
  have hmem : ∀ o ∈ redThenBlue, o.crop ∈ [redCrop 1, blueCrop, redCrop 2] := by
    simp [redThenBlue]
  have hobject : ∀ o ∈ redThenBlue, ∀ o' ∈ redThenBlue,
      ColorHistogramEmbedder.default.Alike pureCv2 o.crop o'.crop ↔
        o.crop.colour = o'.crop.colour :=
    fun o ho o' ho' => pure_alike _ (hmem o ho) _ (hmem o' ho')
  obtain ⟨_, _, hkeeps⟩ := crops_keep_identities (α := Option Pixel) exactSqrt_real
    (fun _ _ h => Nat.repr_injective h) .default pureCv2
    (by simp [redThenBlue] : redThenBlue.Pairwise (fun a b => a.now ≤ b.now))
  obtain ⟨look, hlook, hfollows⟩ := hkeeps Crop.colour hobject
  have hred := hlook _ List.mem_cons_self
  have hblue := hlook _ (List.mem_cons_of_mem _ List.mem_cons_self)
  have hred' := hlook _ (List.mem_cons_of_mem _ (List.mem_cons_of_mem _ List.mem_cons_self))
  refine ⟨_, _, _, rfl, ?_, fun he => ?_⟩
  · apply (hfollows.identities [] _ [_] _ [] rfl).mpr
    refine ⟨Prod.ext rfl (hred.trans hred'.symm), ?_⟩
    apply List.Pairwise.isChain
    apply List.Pairwise.filter
    simp [Observation.entry, CropObservation.embedded, galleryMaxAgeSeconds]
  · have hkey := ((hfollows.identities [] _ [] _ [_] rfl).mp he).1
    have hcolours := hred.symm.trans ((congrArg Prod.snd hkey).trans hblue)
    revert hcolours
    decide

end CamTrack
