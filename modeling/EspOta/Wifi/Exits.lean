/-
How `ota_update_task` ends. It restarts the device when `esp_https_ota`
succeeded (`exit_restarted_iff`) and returns from every other run that stays
in its arrays, which the port answers by resetting the device too
(`resets_only_for_image_iff`).
-/
import EspOta.Wifi.Bounds

namespace EspOta.Wifi

open Lib

variable {V : Type} [LinearOrder V] {parse : CString → Option (Json V)} {response : Response}
  {httpsOta : CString → Response} {firmware : V} {buf b : RcvBuffer} {binUrl : BinUrl} {exit : Exit}

/-- `esp_https_ota` is called for `url`: the version fetch succeeded, and its text offers it. -/
def Downloads (parse : CString → Option (Json V)) (response : Response) (firmware : V) (buf : RcvBuffer)
    (url : CString) : Prop :=
  response.err = espOk ∧ ∃ text, fetchedText buf (stored response.events) = some text ∧
    Offers parse firmware text url

/-- `esp_https_ota` is called, and succeeds. -/
def Installs (parse : CString → Option (Json V)) (response : Response) (httpsOta : CString → Response)
    (firmware : V) (buf : RcvBuffer) : Prop :=
  ∃ url, Downloads parse response firmware buf url ∧ (httpsOta url).err = espOk

/-- **What a version fetch leaves for the task**: the URL to download, or a failure. -/
theorem fetch_downloads {err : EspErr} {after : BinUrl}
    (h : getLastFirmwareVersion parse response firmware buf binUrl = .ok (err, b, after)) :
    (∃ url, Downloads parse response firmware buf url ∧ err = espOk ∧ after.read? = some url) ∨
      ((∀ url, ¬ Downloads parse response firmware buf url) ∧ err ≠ espOk) := by
  obtain ⟨hperf, ⟨hne, rfl⟩ | ⟨herr, text, hread, hd, -⟩⟩ := fetch_cases h
  · exact .inr ⟨fun url hdown => hne hdown.1, hne⟩
  · have htext := (read_perform hperf).symm.trans hread
    by_cases ho : ∃ url, Offers parse firmware text url
    · obtain ⟨url, ho⟩ := ho
      exact .inl ⟨url, ⟨herr, text, htext, ho⟩, hd.offered url ho⟩
    · refine .inr ⟨fun url ⟨_, text', htext', ho'⟩ => ?_, (hd.otherwise fun url hu => ho ⟨url, hu⟩).1⟩
      obtain rfl : text' = text := Option.some.inj (htext'.symm.trans htext)
      exact ho ⟨url, ho'⟩

/-- One document offers one URL. -/
theorem Downloads.unique {url url' : CString} (h : Downloads parse response firmware buf url)
    (h' : Downloads parse response firmware buf url') : url = url' := by
  obtain ⟨-, text, htext, ho⟩ := h
  obtain ⟨-, text', htext', ho'⟩ := h'
  obtain rfl : text' = text := Option.some.inj (htext'.symm.trans htext)
  exact Option.some.inj ((offers_iff.mp ho).symm.trans (offers_iff.mp ho'))

/-- **A run restarts the device just when `esp_https_ota` is called and succeeds.** -/
theorem exit_restarted_iff (h : otaUpdateTask parse response httpsOta firmware buf binUrl = .ok (exit, b)) :
    exit = .restarted ↔ Installs parse response httpsOta firmware buf := by
  obtain ⟨⟨err, b₁, after⟩, hfetch, h⟩ := bind_eq_ok.mp h
  rcases fetch_downloads hfetch with ⟨url, hdown, rfl, hread⟩ | ⟨hnone, herr⟩
  · simp only [if_true, hread] at h
    obtain ⟨b₂, -, h⟩ := bind_eq_ok.mp h
    by_cases hota : (httpsOta url).err = espOk
    · rw [if_pos hota] at h
      cases h
      exact iff_of_true rfl ⟨url, hdown, hota⟩
    · rw [if_neg hota] at h
      cases h
      refine iff_of_false nofun fun ⟨url', hdown', hota'⟩ => hota ?_
      rwa [hdown.unique hdown']
  · simp only [herr, if_false] at h
    cases h
    exact iff_of_false nofun fun ⟨url, hdown, _⟩ => hnone url hdown

/-! ## Resets -/

/-- `CONFIG_FREERTOS_TASK_FUNCTION_WRAPPER`: a task function that returns runs into `abort`, and the device
reboots. -/
def taskFunctionWrapper : Bool := true

/-- The device resets at the end of a run. -/
def Exit.Resets : Exit → Prop
  | .restarted => True
  | .returned => taskFunctionWrapper = true

/-- The device resets only for a new image, and the task never returns. A run that leaves its arrays does not keep
to that: there anything may follow. -/
def ResetsOnlyForImage (parse : CString → Option (Json V)) (response : Response) (httpsOta : CString → Response)
    (firmware : V) (buf : RcvBuffer) : Except Fault (Exit × RcvBuffer) → Prop
  | .error _ => False
  | .ok (exit, _) => (exit.Resets → Installs parse response httpsOta firmware buf) ∧ exit ≠ .returned

/-- **The device resets only for a new image just when there is one, and no access leaves its array**: every run in
which `esp_https_ota` is not called, or fails, ends by returning. -/
theorem resets_only_for_image_iff (parse : CString → Option (Json V)) (response : Response)
    (httpsOta : CString → Response) (firmware : V) (buf : RcvBuffer) (binUrl : BinUrl) :
    ResetsOnlyForImage parse response httpsOta firmware buf
        (otaUpdateTask parse response httpsOta firmware buf binUrl) ↔
      InBounds parse response httpsOta firmware buf ∧ Installs parse response httpsOta firmware buf := by
  cases hrun : otaUpdateTask parse response httpsOta firmware buf binUrl with
  | error f =>
    refine iff_of_false id fun h => ?_
    obtain ⟨r, hr⟩ := h.1.ok binUrl
    rw [hrun] at hr
    cases hr
  | ok r =>
    obtain ⟨exit, b⟩ := r
    rw [← exit_restarted_iff hrun]
    constructor
    · rintro ⟨-, hstays⟩
      refine ⟨.of_ok hrun, ?_⟩
      cases exit with
      | restarted => rfl
      | returned => exact absurd rfl hstays
    · rintro ⟨-, rfl⟩
      exact ⟨fun _ => (exit_restarted_iff hrun).mp rfl, by simp⟩

/-- A server that offers version 2, to a device that can download it. -/
def offered (firmware : Nat) : Except Fault (Exit × RcvBuffer) :=
  otaUpdateTask parse2 (fragmented [version2.bytes]) (fun _ => ⟨[], espOk⟩) firmware (.zero 500) (.zero 200)

/-- A device that runs version 2 already returns from its task, and reboots. -/
theorem resets_up_to_date :
    ¬ ResetsOnlyForImage parse2 (fragmented [version2.bytes]) (fun _ => ⟨[], espOk⟩) 2 (.zero 500) (offered 2) := by
  have hexit : (offered 2).map (·.1) = .ok .returned := by decide +kernel
  cases hrun : offered 2 with
  | error f => exact id
  | ok r =>
    rw [hrun] at hexit
    exact fun h => h.2 (Except.ok.inj hexit)

end EspOta.Wifi
