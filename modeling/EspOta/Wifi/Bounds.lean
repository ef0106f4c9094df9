/-
The accesses of the Wi-Fi updater stay inside their arrays just when the
server keeps three limits the code does not check: 500 bytes a fragment in
either download, a NUL left in the receive buffer by the version fetch, and
199 bytes of URL.
-/
import EspOta.Wifi.VersionFetch

namespace EspOta.Wifi

open Lib

variable {V : Type} [LinearOrder V]

/-- The limits. -/
structure InBounds (parse : CString → Option (Json V)) (response : Response) (httpsOta : CString → Response)
    (firmware : V) (buf : RcvBuffer) : Prop where
  fetch : ∀ data ∈ stored response.events, data.length ≤ 500
  terminated : response.err = espOk → ∃ i < 500, lastByte buf (stored response.events) i = 0
  update : response.err = espOk → ∀ text url, fetchedText buf (stored response.events) = some text →
    Offers parse firmware text url →
      url.bytes.length ≤ 199 ∧ ∀ data ∈ stored (httpsOta url).events, data.length ≤ 500

section
variable {parse : CString → Option (Json V)} {response : Response} {httpsOta : CString → Response} {firmware : V}
  {buf : RcvBuffer}

/-- A run that comes to its end has kept the limits. -/
theorem InBounds.of_ok {binUrl : BinUrl} {r : Exit × RcvBuffer}
    (h : otaUpdateTask parse response httpsOta firmware buf binUrl = .ok r) :
    InBounds parse response httpsOta firmware buf := by
  obtain ⟨⟨err, b, after⟩, hfetch, h⟩ := bind_eq_ok.mp h
  obtain ⟨hperf, hcases⟩ := fetch_cases hfetch
  refine ⟨(perform_ok_iff _ _).mp ⟨b, hperf⟩, fun herr => ?_, fun herr text url htext ho => ?_⟩
  · obtain ⟨-, text, hread, -⟩ := hcases.resolve_left fun h => h.1 herr
    exact (read_isSome hperf).mp (Option.isSome_iff_exists.mpr ⟨text, hread⟩)
  · obtain ⟨-, text', hread, hd, hfits⟩ := hcases.resolve_left fun h => h.1 herr
    obtain rfl : text' = text := Option.some.inj (hread.symm.trans ((read_perform hperf).trans htext))
    obtain ⟨rfl, hafter⟩ := hd.offered url ho
    simp only [if_true, hafter] at h
    obtain ⟨b', hdown, -⟩ := bind_eq_ok.mp h
    exact ⟨Nat.le_of_lt_succ (hfits url ho), (perform_ok_iff _ _).mp ⟨b', hdown⟩⟩

/-- Within the limits a run comes to its end. -/
theorem InBounds.ok (h : InBounds parse response httpsOta firmware buf) (binUrl : BinUrl) :
    ∃ r, otaUpdateTask parse response httpsOta firmware buf binUrl = .ok r := by
  obtain ⟨b, hperf⟩ := (perform_ok_iff response buf).mpr h.fetch
  by_cases herr : response.err = espOk
  · obtain ⟨text, hread⟩ := Option.isSome_iff_exists.mp ((read_isSome hperf).mpr (h.terminated herr))
    have htext := (read_perform hperf).symm.trans hread
    obtain ⟨err, after, hrun, hd⟩ := decides_of_read binUrl herr hperf hread
      fun url ho => Nat.lt_succ_of_le (h.update herr text url htext ho).1
    simp only [otaUpdateTask, hrun, ok_bind]
    by_cases ho : ∃ url, Offers parse firmware text url
    · obtain ⟨url, ho⟩ := ho
      obtain ⟨rfl, hafter⟩ := hd.offered url ho
      obtain ⟨b', hdown⟩ := (perform_ok_iff (httpsOta url) b).mpr (h.update herr text url htext ho).2
      simp only [if_true, hafter, hdown, ok_bind]
      split <;> exact ⟨_, rfl⟩
    · have hne := (hd.otherwise fun url hu => ho ⟨url, hu⟩).1
      rw [if_neg hne]
      exact ⟨_, rfl⟩
  · have hrun : getLastFirmwareVersion parse response firmware buf binUrl =
        .ok (response.err, b, binUrl) := by
      simp only [getLastFirmwareVersion, hperf, ok_bind, ne_eq, herr, not_false_eq_true, if_true]
      rfl
    simp only [otaUpdateTask, hrun, ok_bind, herr, if_false]
    exact ⟨_, rfl⟩

end

/-- **No access leaves its array just when the limits are kept.** -/
theorem otaUpdateTask_ok_iff (parse : CString → Option (Json V)) (response : Response)
    (httpsOta : CString → Response) (firmware : V) (buf : RcvBuffer) (binUrl : BinUrl) :
    (∃ r, otaUpdateTask parse response httpsOta firmware buf binUrl = .ok r) ↔
      InBounds parse response httpsOta firmware buf := by
  constructor
  · rintro ⟨r, h⟩
    exact .of_ok h
  · intro h
    exact h.ok binUrl

/-- A fragment that fills the client's own buffer. -/
def full : List UInt8 := List.replicate 512 0x20

/-- One fragment as long as the client's own buffer does not fit. -/
theorem otaUpdateTask_overflows :
    ¬ ∀ (V : Type) (_ : LinearOrder V) (parse : CString → Option (Json V)) (response : Response)
      (httpsOta : CString → Response) (firmware : V) (binUrl : BinUrl),
      (∀ evt ∈ response.events, evt.data.length ≤ 512) →
      (∀ url, ∀ evt ∈ (httpsOta url).events, evt.data.length ≤ 512) →
      ∃ r, otaUpdateTask parse response httpsOta firmware (.zero 500) binUrl = .ok r := by
  intro h
  have hlen : full.length = 512 := List.length_replicate
  obtain ⟨r, h⟩ := h Nat _ (fun _ => none) (fragmented [full]) (fun _ => ⟨[], espFail⟩) 1 (.zero 200)
    (fun evt hevt => by rw [List.mem_singleton.mp hevt]; exact hlen.le) nofun
  obtain ⟨_, hfetch, -⟩ := bind_eq_ok.mp h
  have hfits := (perform_ok_iff _ _).mp ⟨_, (fetch_cases hfetch).1⟩
  rw [stored_fragmented] at hfits
  exact absurd (hfits full (List.mem_singleton_self full)) (by rw [hlen]; decide)

end EspOta.Wifi
