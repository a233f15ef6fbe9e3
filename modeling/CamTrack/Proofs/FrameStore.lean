import CamTrack.FrameStore

namespace CamTrack
open Python Machine PosixPath

theorem removePrefix_append (lead rest : List Char) : removePrefix lead (lead ++ rest) = rest := by
  simp [removePrefix]

namespace LocalDiskFrameStore
variable {store store' : LocalDiskFrameStore} {cameraId cameraId' frameId frameId' : String}

theorem fileName_plain (h : '/' ∉ frameId.toList) : Plain (fileName frameId) := by
  have hlast : (fileName frameId).getLast? = some 'g' := by simp [fileName]
  refine ⟨?_, ?_, ?_, ?_⟩
  · rintro hnil
    rw [hnil] at hlast
    cases hlast
  · simp [fileName, h]
  · rintro hcurdir
    rw [hcurdir] at hlast
    cases hlast
  · rintro hpardir
    rw [hpardir] at hlast
    cases hlast

/-- Whatever the camera is called, the last name on the way to the file is that of the frame. -/
theorem file_eq (h : '/' ∉ frameId.toList) : store.file cameraId frameId =
    follow (follow [] store.cwd) (store.cameraDir cameraId) ++ [fileName frameId] := by
  rw [file, path, follow_join, (fileName_plain h).follow]

theorem frameId_of_file (h : '/' ∉ frameId.toList) (h' : '/' ∉ frameId'.toList)
    (hfile : store.file cameraId frameId = store'.file cameraId' frameId') :
    frameId = frameId' := by
  rw [file_eq h, file_eq h'] at hfile
  have hname := (List.append_inj' hfile rfl).2
  exact String.toList_injective (List.append_cancel_right (List.singleton_inj.mp hname))

/-- From every working directory the uri leads to the file. -/
theorem follow_frameUri (dir : List Path) :
    follow dir (removePrefix fileScheme (store.frameUri cameraId frameId).toList) =
      store.file cameraId frameId := by
  rw [frameUri, String.toList_ofList, removePrefix_append, follow_abspath store.absolute, file]

end LocalDiskFrameStore

namespace SaveCall
variable {ι : Type} (call : SaveCall ι)

def file : List Path := call.store.file call.cameraId call.frameId

def frameUri : String := call.store.frameUri call.cameraId call.frameId

theorem follow_frameUri (dir : List Path) :
    follow dir (removePrefix fileScheme call.frameUri.toList) = call.file :=
  LocalDiskFrameStore.follow_frameUri dir

end SaveCall

namespace FrameDisk
variable {ι φ : Type} {codec : JpegCodec ι φ} {disk disk' : FrameDisk ι φ} {call call' : SaveCall ι}

/-- No two frames have had one id, and no id leads to another directory. -/
structure Apart (disk : FrameDisk ι φ) : Prop where
  nodup : (disk.calls.map SaveCall.frameId).Nodup
  slash : ∀ call ∈ disk.calls, '/' ∉ call.frameId.toList

theorem Apart.before (h : Apart disk') (hcalls : disk'.calls = disk.calls ++ [call]) :
    Apart disk := by
  obtain ⟨hnodup, hslash⟩ := h
  rw [hcalls, List.map_append] at hnodup
  exact ⟨hnodup.of_append_left, fun c hc => hslash c (hcalls ▸ List.mem_append_left _ hc)⟩

theorem Apart.call_eq (h : Apart disk) (hcall : call ∈ disk.calls) (hcall' : call' ∈ disk.calls)
    (hfile : call.file = call'.file) : call = call' :=
  List.inj_on_of_nodup_map h.nodup hcall hcall'
    (LocalDiskFrameStore.frameId_of_file (h.slash _ hcall) (h.slash _ hcall') hfile)

/-- The image of each call that returned is in its file. -/
def Filed (codec : JpegCodec ι φ) (disk : FrameDisk ι φ) : Prop :=
  ∀ call ∈ disk.calls, call.returned = true →
    disk.files.get? call.file = some (codec.encode call.image)

/-- A call changes nothing but the file of its own frame. -/
theorem Filed.after (h : Filed codec disk) (hapart : Apart disk')
    (hcalls : disk'.calls = disk.calls ++ [call])
    (hothers : ∀ file, file ≠ call.file → disk'.files.get? file = disk.files.get? file)
    (hown : call.returned = true → disk'.files.get? call.file = some (codec.encode call.image)) :
    Filed codec disk' := by
  have hlast : call ∈ disk'.calls := by simp [hcalls]
  intro other hother hreturned
  have hmem := hother
  rw [hcalls, List.mem_append, List.mem_singleton] at hmem
  rcases hmem with hold | rfl
  · have hne : other.file ≠ call.file := by
      intro hfile
      have hsame := hapart.call_eq hother hlast hfile
      have hnodup := hapart.nodup
      rw [hcalls, List.map_append, List.nodup_append] at hnodup
      exact hnodup.2.2 _ (List.mem_map_of_mem hold) _ List.mem_cons_self (by rw [hsame])
    rw [hothers _ hne]
    exact h other hold hreturned
  · exact hown hreturned

/-- A saved frame loads, in every process. -/
theorem Filed.load (h : Filed codec disk) (hcall : call ∈ disk.calls)
    (hreturned : call.returned = true) (cwd : Path) :
    disk.load codec cwd call.frameUri = .ok (codec.shown call.image) := by
  have hfile : disk.files.get?
      (follow (follow [] cwd) (removePrefix fileScheme call.frameUri.toList)) =
        some (codec.encode call.image) := by
    rw [call.follow_frameUri]
    exact h call hcall hreturned
  rw [FrameDisk.load, hfile, Option.bind_some, codec.decode_encode]

end FrameDisk

namespace FramePublisher
variable {K ι : Type} [Field K] [LinearOrder K] [Rounding K] {s s' : FramePublisher K ι}

/-- What a publisher does between two saves. -/
structure Unsaved (s s' : FramePublisher K ι) : Prop where
  camera : s'.camera = s.camera
  saved : s'.saved = s.saved
  atHand : ∀ frame, s'.frame = some frame → s.frame = some frame
  published : ∀ frame ∈ s'.published, s.frame = some frame ∨ frame ∈ s.published

theorem unsaved_step {a : PublisherAction K ι} (ha : ∀ frameId frameUri, a ≠ .save frameId frameUri)
    (h : s.step a = some s') : Unsaved s s' := by
  cases a with
  | save frameId frameUri => exact absurd rfl (ha frameId frameUri)
  | stop =>
    cases h
    exact ⟨rfl, rfl, fun _ hf => hf, fun _ hf => .inr hf⟩
  | publish =>
    simp only [step] at h
    split at h
    · rename_i frame hframe
      obtain ⟨reader, _, rfl⟩ := Option.map_eq_some_iff.mp h
      refine ⟨rfl, rfl, fun _ hf => (by cases hf), fun f hf => ?_⟩
      rcases List.mem_append.mp hf with hf | hf
      · exact .inr hf
      · rw [List.mem_singleton.mp hf]
        exact .inl hframe
    · cases h
  | reader a =>
    have hreader : ∃ reader, { s with reader := reader } = s' := by
      cases a with
      | resume => cases h
      | close => cases h
      | check => exact (Option.map_eq_some_iff.mp h).imp (fun _ hr => hr.2)
      | connect opened => exact (Option.map_eq_some_iff.mp h).imp (fun _ hr => hr.2)
      | read outcome now timeMs => exact (Option.map_eq_some_iff.mp h).imp (fun _ hr => hr.2)
      | missing => exact (Option.map_eq_some_iff.mp h).imp (fun _ hr => hr.2)
    obtain ⟨reader, rfl⟩ := hreader
    exact ⟨rfl, rfl, fun _ hf => hf, fun _ hf => .inr hf⟩

theorem save_step {captured : CapturedFrame ι} {frameId frameUri : String}
    (hpc : s.reader.pc = .yielded captured) (h : s.step (.save frameId frameUri) = some s') :
    s' = { s with
      frame := some (s.rawFrame captured frameId frameUri)
      saved := s.saved ++ [captured] } := by
  cases hframe : s.frame with
  | some frame => simp [step, hpc, hframe] at h
  | none =>
    simp only [step, hpc, hframe, Option.some.injEq] at h
    exact h.symm

end FramePublisher

namespace Ingestion
variable {m : Nat} {K ι φ : Type} {codec : JpegCodec ι φ}
  {stores : Fin m → LocalDiskFrameStore} {s s' : Ingestion m K ι φ}

/-- The frame tells of an image that the camera has captured, and where the call of `save` has
put it. -/
def TellsOf (camera : FramePublisher K ι) (disk : FrameDisk ι φ) (frame : RawFrame) : Prop :=
  ∃ call ∈ disk.calls, call.returned = true ∧ ∃ captured ∈ camera.saved,
    call.image = captured.image ∧
      frame = camera.rawFrame captured call.frameId call.frameUri

theorem TellsOf.mono {camera camera' : FramePublisher K ι} {disk disk' : FrameDisk ι φ}
    {frame : RawFrame} (h : TellsOf camera disk frame) (hcamera : camera'.camera = camera.camera)
    (hsaved : camera.saved ⊆ camera'.saved) (hcalls : disk.calls ⊆ disk'.calls) :
    TellsOf camera' disk' frame := by
  obtain ⟨call, hcall, hreturned, captured, hmem, himage, rfl⟩ := h
  refine ⟨call, hcalls hcall, hreturned, captured, hsaved hmem, himage, ?_⟩
  simp only [FramePublisher.rawFrame, hcamera]

/-- Every frame, published or about to be, tells of its image. -/
structure Sound (codec : JpegCodec ι φ) (s : Ingestion m K ι φ) : Prop where
  filed : s.disk.Filed codec
  atHand : ∀ c frame, (s.cameras c).frame = some frame → TellsOf (s.cameras c) s.disk frame
  published : ∀ c, ∀ frame ∈ (s.cameras c).published, TellsOf (s.cameras c) s.disk frame

/-- One camera moves on, and the disk may get a call. -/
theorem Sound.update (h : Sound codec s) {c : Fin m} {camera : FramePublisher K ι}
    {disk : FrameDisk ι φ} (hfiled : disk.Filed codec) (hcalls : s.disk.calls ⊆ disk.calls)
    (hcamera : camera.camera = (s.cameras c).camera) (hsaved : (s.cameras c).saved ⊆ camera.saved)
    (hatHand : ∀ frame, camera.frame = some frame →
      (s.cameras c).frame = some frame ∨ TellsOf camera disk frame)
    (hpublished : ∀ frame ∈ camera.published,
      (s.cameras c).frame = some frame ∨ frame ∈ (s.cameras c).published) :
    Sound codec ⟨Function.update s.cameras c camera, disk⟩ := by
  refine ⟨hfiled, fun c' frame hframe => ?_, fun c' frame hframe => ?_⟩
  · by_cases hc : c' = c
    · subst hc
      dsimp only at hframe ⊢
      rw [Function.update_self] at hframe ⊢
      rcases hatHand frame hframe with hold | hnew
      · exact (h.atHand c' frame hold).mono hcamera hsaved hcalls
      · exact hnew
    · dsimp only at hframe ⊢
      rw [Function.update_of_ne hc] at hframe ⊢
      exact (h.atHand c' frame hframe).mono rfl (List.Subset.refl _) hcalls
  · by_cases hc : c' = c
    · subst hc
      dsimp only at hframe ⊢
      rw [Function.update_self] at hframe ⊢
      rcases hpublished frame hframe with hold | hold
      · exact (h.atHand c' frame hold).mono hcamera hsaved hcalls
      · exact (h.published c' frame hold).mono hcamera hsaved hcalls
    · dsimp only at hframe ⊢
      rw [Function.update_of_ne hc] at hframe ⊢
      exact (h.published c' frame hframe).mono rfl (List.Subset.refl _) hcalls

variable [Field K] [LinearOrder K] [Rounding K]

omit [LinearOrder K] in
theorem start_sound (cameras : Fin m → CameraConfig) (files : Dict (List Path) φ) :
    Sound codec (start cameras files : Ingestion m K ι φ) :=
  ⟨fun _ hcall => (by cases hcall), fun _ _ hframe => (by cases hframe),
    fun _ _ hframe => (by cases hframe)⟩

theorem Sound.step {a : IngestionAction m K ι φ} (h : s.disk.Apart → Sound codec s)
    (hstep : step codec stores s a = some s') (hapart : s'.disk.Apart) : Sound codec s' := by
  cases a with
  | camera c a =>
    have hmove : (∀ frameId frameUri, a ≠ .save frameId frameUri) ∧
        ∃ camera, (s.cameras c).step a = some camera ∧
          { s with cameras := Function.update s.cameras c camera } = s' := by
      cases a with
      | save frameId frameUri => cases hstep
      | reader a => exact ⟨by simp, Option.map_eq_some_iff.mp hstep⟩
      | publish => exact ⟨by simp, Option.map_eq_some_iff.mp hstep⟩
      | stop => exact ⟨by simp, Option.map_eq_some_iff.mp hstep⟩
    obtain ⟨ha, camera, hcamera, rfl⟩ := hmove
    have hsound := h hapart
    have hunsaved := FramePublisher.unsaved_step ha hcamera
    exact hsound.update hsound.filed (List.Subset.refl _) hunsaved.camera
      (hunsaved.saved ▸ List.Subset.refl _) (fun frame hf => .inl (hunsaved.atHand frame hf))
      hunsaved.published
  | save c frameId =>
    simp only [Ingestion.step] at hstep
    split at hstep
    · rename_i captured hpc
      obtain ⟨camera, hcamera, rfl⟩ := Option.map_eq_some_iff.mp hstep
      obtain rfl := FramePublisher.save_step hpc hcamera
      have hsound := h (hapart.before rfl)
      have hfiled : (s.disk.save codec (stores c) (s.cameras c).camera.cameraId frameId
          captured.image).Filed codec :=
        hsound.filed.after hapart rfl
          (fun file hfile => (Dict.get?_set _ _ _ _).trans (if_neg hfile))
          (fun _ => Dict.get?_set_self _ _ _)
      refine hsound.update hfiled (List.subset_append_left _ _) rfl (List.subset_append_left _ _)
        (fun frame hframe => .inr ?_) (fun frame hframe => .inr hframe)
      cases hframe
      exact ⟨_, List.mem_append_right _ List.mem_cons_self, rfl, captured,
        List.mem_append_right _ List.mem_cons_self, rfl, rfl⟩
    · cases hstep
  | saveFails c frameId leaves =>
    simp only [Ingestion.step] at hstep
    split at hstep
    · rename_i captured hpc hframe
      cases hstep
      have hsound := h (hapart.before rfl)
      have hfiled : (s.disk.saveFails (stores c) (s.cameras c).camera.cameraId frameId
          captured.image leaves).Filed codec := by
        refine hsound.filed.after hapart rfl (fun file hfile => ?_) (fun hreturned => ?_)
        · cases leaves with
          | none => rfl
          | some bytes => exact (Dict.get?_set _ _ _ _).trans (if_neg hfile)
        · cases hreturned
      exact hsound.update hfiled (List.subset_append_left _ _) rfl (List.Subset.refl _)
        (fun frame hf => (by cases hf)) (fun frame hf => .inr hf)
    · cases hstep

/-- Every frame that a publisher has published names a file from which, in every process, its
own image loads, whatever the cameras are called, and whatever saves have failed halfway;
and frames that name one file are one frame. -/
theorem published_frames_load {cameras : Fin m → CameraConfig} {files : Dict (List Path) φ}
    {actions : List (IngestionAction m K ι φ)}
    (h : Run (Ingestion.step codec stores) (start cameras files) actions s)
    (hapart : s.disk.Apart) :
    (∀ c, ∀ frame ∈ (s.cameras c).published, ∃ captured ∈ (s.cameras c).saved,
      frame.sequenceNumber = captured.sequenceNumber ∧ ∀ cwd,
        s.disk.load codec cwd frame.frameUri = .ok (codec.shown captured.image)) ∧
    ∀ c c', ∀ frame ∈ (s.cameras c).published, ∀ frame' ∈ (s.cameras c').published,
      frame.frameUri = frame'.frameUri → frame.frameId = frame'.frameId := by
  have hsound : s.disk.Apart → Sound codec s :=
    h.invariant (P := fun s => s.disk.Apart → Sound codec s) (fun _ _ _ => Sound.step)
      (fun _ => start_sound cameras files)
  replace hsound := hsound hapart
  refine ⟨fun c frame hframe => ?_, fun c c' frame hframe frame' hframe' huri => ?_⟩
  · obtain ⟨call, hcall, hreturned, captured, hcaptured, himage, rfl⟩ :=
      hsound.published c frame hframe
    refine ⟨captured, hcaptured, rfl, fun cwd => ?_⟩
    rw [← himage]
    exact hsound.filed.load hcall hreturned cwd
  · obtain ⟨call, hcall, _, _, _, _, rfl⟩ := hsound.published c frame hframe
    obtain ⟨call', hcall', _, _, _, _, rfl⟩ := hsound.published c' frame' hframe'
    replace huri : call.frameUri = call'.frameUri := huri
    have hfile : call.file = call'.file := by
      rw [← call.follow_frameUri [], huri, call'.follow_frameUri]
    rw [hapart.call_eq hcall hcall' hfile]
    rfl

section FixedRun

def plainCodec : JpegCodec String String := ⟨id, some, id, fun _ => rfl⟩

def frameStore : LocalDiskFrameStore := ⟨"data/frames", "/app".toList, rfl⟩

/-- Cameras whose ids lead to one directory. -/
def entrances : Fin 2 → CameraConfig :=
  Fin.cons ⟨"door", 15, Nat.succ_pos _⟩ (Fin.cons ⟨"hall/../door", 15, Nat.succ_pos _⟩ Fin.elim0)

/-- Each camera saves a frame, one of them after a save that has failed halfway. -/
def savedInOneDirectory (p q : Fin 2) : List (IngestionAction 2 ℚ String String) :=
  [.camera p (.reader .check), .camera p (.reader (.connect true)),
    .camera p (.reader (.read (some "opened") 0 0)), .save p "f1",
    .camera q (.reader .check), .camera q (.reader (.connect true)),
    .camera q (.reader (.read (some "dark") 0 0)), .saveFails q "f2" (some "da"),
    .camera q (.reader .check), .camera q (.reader (.connect true)),
    .camera q (.reader (.read (some "closed") 1 1000)), .save q "f3",
    .camera p .publish, .camera q .publish]

theorem published_frames_load_one_directory : ∃ s : Ingestion 2 ℚ String String,
    Run (Ingestion.step plainCodec (fun _ => frameStore)) (start entrances .empty)
        (savedInOneDirectory 0 1) s ∧
      ∃ frame ∈ (s.cameras 0).published,
        s.disk.load plainCodec "/".toList frame.frameUri = .ok "opened" := by
  have hrun : ((savedInOneDirectory 0 1).foldlM (Ingestion.step plainCodec (fun _ => frameStore))
      (start entrances .empty)).any (fun s =>
        s.disk.calls.map SaveCall.frameId == ["f1", "f2", "f3"] &&
          (s.cameras 0).saved == [⟨"opened", 1, 0⟩] &&
            (s.cameras 0).published.length == 1) = true := by
    decide +kernel
  obtain ⟨s, hs, hp⟩ := (Option.any_eq_true _ _).mp hrun
  simp only [Bool.and_eq_true, beq_iff_eq] at hp
  obtain ⟨⟨hids, hsaved⟩, hpublished⟩ := hp
  have hapart : s.disk.Apart := by
    refine ⟨by rw [hids]; decide, fun call hcall => ?_⟩
    have hid := List.mem_map_of_mem (f := SaveCall.frameId) hcall
    simp only [hids, List.mem_cons, List.not_mem_nil, or_false] at hid
    rcases hid with hid | hid | hid <;> rw [hid] <;> decide
  obtain ⟨frame, hframe⟩ := List.exists_mem_of_length_pos (hpublished ▸ Nat.one_pos)
  obtain ⟨captured, hcaptured, _, hload⟩ := (published_frames_load hs hapart).1 0 frame hframe
  rw [hsaved, List.mem_singleton] at hcaptured
  exact ⟨s, hs, frame, hframe, by rw [hload, hcaptured]; rfl⟩

end FixedRun

end Ingestion
end CamTrack
