import CamTrack.RtspReader

namespace CamTrack
open Machine

namespace RtspFrameReader
variable {K ι : Type} [Field K] [LinearOrder K] [Rounding K] {s s' : RtspFrameReader K ι}

/-- What each action does, with the place the generator must be in. -/
inductive Stepped (s : RtspFrameReader K ι) : ReaderAction K ι → RtspFrameReader K ι → Prop where
  | reads : s.pc = .head → s.capture = true → Stepped s .check { s with pc := .reading }
  | connects : s.pc = .head → s.capture = false → Stepped s .check { s with pc := .connecting }
  | connect (opened : Bool) : s.pc = .connecting → Stepped s (.connect opened) (s.connect opened)
  | frame (image : ι) (now : K) (timeMs : Int) : s.pc = .reading →
      Stepped s (.read (some image) now timeMs) (s.gotFrame image now timeMs)
  | noFrame (now : K) (timeMs : Int) : s.pc = .reading →
      Stepped s (.read none now timeMs) s.noFrame
  | missing : s.pc = .reading → s.capture = false → Stepped s .missing { s with pc := .died }
  | resume {frame : CapturedFrame ι} : s.pc = .yielded frame →
      Stepped s .resume { s with pc := .head }
  | close : Stepped s .close s.close

theorem stepped (h : step s a = some s') : Stepped s a s' := by
  cases a with
  | check =>
    cases hp : s.pc <;> simp only [step, hp] at h <;> cases h
    by_cases hc : s.capture = true
    · rw [if_pos hc]
      exact .reads hp hc
    · rw [if_neg hc]
      exact .connects hp (by simpa using hc)
  | connect opened =>
    cases hp : s.pc <;> simp only [step, hp] at h <;> cases h
    exact .connect opened hp
  | read outcome now timeMs =>
    cases hp : s.pc <;> simp only [step, hp] at h <;> cases h
    cases outcome with
    | some image => exact .frame image now timeMs hp
    | none => exact .noFrame now timeMs hp
  | missing =>
    cases hp : s.pc with
    | reading =>
      simp only [step, hp] at h
      split at h
      · cases h
      · rename_i hc
        cases h
        exact .missing hp (by simpa using hc)
    | _ => simp [step, hp] at h
  | resume =>
    cases hp : s.pc <;> simp only [step, hp] at h <;> cases h
    exact .resume hp
  | close =>
    cases h
    exact .close

/-- A frame that has been read leaves the capture and the backoff as they were. -/
theorem gotFrame_same (image : ι) (now : K) (timeMs : Int) (s : RtspFrameReader K ι) :
    (s.gotFrame image now timeMs).history = s.history ++ [.read true] ∧
      (s.gotFrame image now timeMs).capture = s.capture ∧
      (s.gotFrame image now timeMs).reconnectAttempt = s.reconnectAttempt ∧
      ((s.gotFrame image now timeMs).pc = .head ∨
        ∃ frame, (s.gotFrame image now timeMs).pc = .yielded frame) := by
  unfold gotFrame
  split
  · exact ⟨rfl, rfl, rfl, .inl rfl⟩
  · exact ⟨rfl, rfl, rfl, .inr ⟨_, rfl⟩⟩

/-- Nothing is ever taken back from the history. -/
theorem Stepped.history_prefix (h : Stepped s a s') : s.history <+: s'.history := by
  cases h with
  | reads _ _ => exact List.prefix_refl _
  | connects _ _ => exact List.prefix_refl _
  | connect opened _ => cases opened <;> exact List.prefix_append _ _
  | frame image now timeMs _ =>
    rw [(gotFrame_same image now timeMs s).1]
    exact List.prefix_append _ _
  | noFrame now timeMs _ => exact List.prefix_append _ _
  | missing _ _ => exact List.prefix_refl _
  | resume _ => exact List.prefix_refl _
  | close => exact List.prefix_refl _

/-- A generator that has ended stays so. -/
theorem Stepped.stays_died (h : Stepped s a s') (hd : s.pc = .died) : s'.pc = .died := by
  cases h with
  | reads hp _ => rw [hd] at hp; cases hp
  | connects hp _ => rw [hd] at hp; cases hp
  | connect _ hp => rw [hd] at hp; cases hp
  | frame _ _ _ hp => rw [hd] at hp; cases hp
  | noFrame _ _ hp => rw [hd] at hp; cases hp
  | missing _ _ => rfl
  | resume hp => rw [hd] at hp; cases hp
  | close => exact hd

end RtspFrameReader

/-- A camera at ten frames a second, for runs on fixed inputs. -/
def tenFps : CameraConfig := ⟨"cam-1", 10, by decide⟩

end CamTrack
