/-
What a run of `ota_task` does to the boot partition. The calls it has made
are fixed by where it is and by the items it wrote (`Logged`), so the boot
partition changes, and the device restarts, only after a whole update.
-/
import EspOta.Ble.DeviceRuns
import EspOta.Ble.Restarts

namespace EspOta.Ble

open Lib

/-- The calls once `items` are written: all on the handle that was begun. -/
def begunCalls (p : Partition) (handle : OtaHandle) (items : List (List UInt8)) : List Call :=
  .otaBegin p espOk handle :: items.map fun item => .otaWrite handle item espOk

/-- What `ota_task` can have called, where it is. -/
inductive Logged : Phase → Option Partition → OtaHandle → List Call → Prop
  | start (q : Option Partition) (handle : OtaHandle) : Logged .start q handle []
  | notSelected (q : Option Partition) (handle : OtaHandle) : Logged .failed q handle []
  | notBegun (p : Partition) (handle : OtaHandle) (err : EspErr) :
      Logged .failed (some p) handle [.otaBegin p err handle]
  | inLoop (phase : Phase) (p : Partition) (handle : OtaHandle) (items : List (List UInt8)) :
      phase ∈ [.receiving, .writing, .returning, .comparing, .ending] →
      Logged phase (some p) handle (begunCalls p handle items)
  | writeFailed (p : Partition) (handle : OtaHandle) (items : List (List UInt8)) (item : List UInt8)
      (err : EspErr) :
      Logged .failed (some p) handle (begunCalls p handle items ++ [.otaWrite handle item err])
  | endFailed (p : Partition) (handle : OtaHandle) (items : List (List UInt8)) (err : EspErr) :
      Logged .failed (some p) handle (begunCalls p handle items ++ [.otaEnd handle err])
  | ended (p : Partition) (handle : OtaHandle) (items : List (List UInt8)) :
      Logged .settingBoot (some p) handle (begunCalls p handle items ++ [.otaEnd handle espOk])
  | bootFailed (p : Partition) (handle : OtaHandle) (items : List (List UInt8)) (err : EspErr) :
      err ≠ espOk → Logged .failed (some p) handle
        (begunCalls p handle items ++ [.otaEnd handle espOk] ++ [.setBootPartition (some p) err])
  | bootSet (p : Partition) (handle : OtaHandle) (items : List (List UInt8)) :
      Logged .restarted (some p) handle
        (begunCalls p handle items ++ [.otaEnd handle espOk] ++ [.setBootPartition (some p) espOk])

def Device.Logged (d : Device) : Prop := Ble.Logged d.phase d.partition d.outHandle d.calls

/-! ## The log of a run -/

section
variable {phase : Phase} {q : Option Partition} {handle : OtaHandle} {calls : List Call}

theorem Logged.of_start (h : Logged phase q handle calls) (hp : phase = .start) : calls = [] := by
  cases h with
  | start => rfl
  | inLoop _ _ _ _ hmem => rw [hp] at hmem; simp at hmem
  | _ => cases hp

/-- In the loop, and up to `esp_ota_end`, the log is that of the items written. -/
theorem Logged.of_inLoop (h : Logged phase q handle calls)
    (hp : phase ∈ [.receiving, .writing, .returning, .comparing, .ending]) :
    ∃ p items, q = some p ∧ calls = begunCalls p handle items := by
  cases h with
  | inLoop _ p _ items => exact ⟨p, items, rfl, rfl⟩
  | _ => simp at hp

theorem Logged.of_settingBoot (h : Logged phase q handle calls) (hp : phase = .settingBoot) :
    ∃ p items, q = some p ∧ calls = begunCalls p handle items ++ [.otaEnd handle espOk] := by
  cases h with
  | ended p _ items => exact ⟨p, items, rfl, rfl⟩
  | inLoop _ _ _ _ hmem => rw [hp] at hmem; simp at hmem
  | _ => cases hp

theorem Logged.of_restarted (h : Logged phase q handle calls) (hp : phase = .restarted) :
    ∃ p items, q = some p ∧
      calls = begunCalls p handle items ++ [.otaEnd handle espOk] ++ [.setBootPartition (some p) espOk] := by
  cases h with
  | bootSet p _ items => exact ⟨p, items, rfl, rfl⟩
  | inLoop _ _ _ _ hmem => rw [hp] at hmem; simp at hmem
  | _ => cases hp

end

theorem begunCalls_snoc (p : Partition) (handle : OtaHandle) (items : List (List UInt8)) (item : List UInt8) :
    begunCalls p handle items ++ [.otaWrite handle item espOk] = begunCalls p handle (items ++ [item]) := by
  simp [begunCalls]

/-- **A step keeps the log.** -/
theorem Device.Logged.step {d d' : Device} {a : Action} (h : d.Logged) (hs : Steps d a d') : d'.Logged := by
  cases hs with
  | announced | refused | sent | blocks | unblocked => exact h
  | notSelected a hp =>
    show Ble.Logged _ _ _ d.calls
    rw [h.of_start hp]
    exact .notSelected _ _
  | notBegun a p hp =>
    show Ble.Logged _ _ _ (d.calls ++ _)
    rw [h.of_start hp]
    exact .notBegun p _ _
  | begun a p hp =>
    show Ble.Logged _ _ _ (d.calls ++ _)
    rw [h.of_start hp]
    exact .inLoop .receiving p _ [] (by simp)
  | received n r hp | returned hp | again hp | complete hp =>
    obtain ⟨p, items, hq, hc⟩ := h.of_inLoop (by simp [hp])
    show Ble.Logged _ d.partition _ d.calls
    rw [hq, hc]
    exact .inLoop _ p _ items (by simp)
  | wrote hp =>
    obtain ⟨p, items, hq, hc⟩ := h.of_inLoop (by simp [hp])
    show Ble.Logged _ d.partition _ (d.calls ++ _)
    rw [hq, hc, begunCalls_snoc]
    exact .inLoop _ p _ _ (by simp)
  | writeFailed err hp =>
    obtain ⟨p, items, hq, hc⟩ := h.of_inLoop (by simp [hp])
    show Ble.Logged _ d.partition _ (d.calls ++ _)
    rw [hq, hc]
    exact .writeFailed p _ items _ err
  | endFailed err hp =>
    obtain ⟨p, items, hq, hc⟩ := h.of_inLoop (by simp [hp])
    show Ble.Logged _ d.partition _ (d.calls ++ _)
    rw [hq, hc]
    exact .endFailed p _ items err
  | ended hp =>
    obtain ⟨p, items, hq, hc⟩ := h.of_inLoop (by simp [hp])
    show Ble.Logged _ d.partition _ (d.calls ++ _)
    rw [hq, hc]
    exact .ended p _ items
  | bootFailed err hp he =>
    obtain ⟨p, items, hq, hc⟩ := h.of_settingBoot hp
    show Ble.Logged _ d.partition _ (d.calls ++ [.setBootPartition d.partition err])
    rw [hq, hc]
    exact .bootFailed p _ items err he
  | bootSet hp =>
    obtain ⟨p, items, hq, hc⟩ := h.of_settingBoot hp
    show Ble.Logged _ d.partition _ (d.calls ++ [.setBootPartition d.partition espOk])
    rw [hq, hc]
    exact .bootSet p _ items

/-! ## The boot partition -/

/-- The boot partition after a call; a failing `esp_ota_set_boot_partition` changes nothing. -/
def bootAfter (q : Option Partition) : Call → Option Partition
  | .setBootPartition p err => if err = espOk then p else q
  | _ => q

/-- The boot partition, from what it was at boot. -/
def Device.bootPartition (d : Device) (before : Option Partition) : Option Partition :=
  d.calls.foldl bootAfter before

theorem bootAfter_begunCalls (q : Option Partition) (p : Partition) (handle : OtaHandle)
    (items : List (List UInt8)) : (begunCalls p handle items).foldl bootAfter q = q := by
  unfold begunCalls
  rw [List.foldl_cons]
  show List.foldl bootAfter q _ = q
  induction items with
  | nil => rfl
  | cons item items ih => exact ih

/-- Until the restart the calls leave the boot partition as it was. -/
theorem Logged.bootAfter_eq {phase : Phase} {q : Option Partition} {handle : OtaHandle} {calls : List Call}
    (h : Logged phase q handle calls) (hp : phase ≠ .restarted) (before : Option Partition) :
    calls.foldl bootAfter before = before := by
  cases h with
  | start | notSelected | notBegun => rfl
  | inLoop => exact bootAfter_begunCalls ..
  | writeFailed | endFailed | ended => rw [List.foldl_append, bootAfter_begunCalls]; rfl
  | bootFailed p _ items err he =>
    rw [List.foldl_append, List.foldl_append, bootAfter_begunCalls]
    simp [bootAfter, he]
  | bootSet => exact absurd rfl hp

/-! ## What a restart has behind it -/

/-- The partition in use is one `ota_task` selected. -/
def Selected (es : List Action) (p : Partition) : Prop :=
  ∃ a, .task (.begin a) ∈ es ∧ selectPartition a = some p

/-- When the task left its loop, as many bytes were written as were announced then. -/
def Counted (es : List Action) (total : Nat) : Prop :=
  ∃ fs, fs ++ [.task .compare] <+: es ∧
    let d := run Device.step .boot fs
    d.phase = .comparing ∧ d.fwLength.toNat ≤ total

theorem Counted.snoc {es : List Action} {total : Nat} (h : Counted es total) (a : Action) :
    Counted (es ++ [a]) total := by
  obtain ⟨fs, hfs, h⟩ := h
  exact ⟨fs, hfs.trans (List.prefix_append _ _), h⟩

theorem Selected.snoc {es : List Action} {p : Partition} (h : Selected es p) (a : Action) :
    Selected (es ++ [a]) p := by
  obtain ⟨b, hb, hsel⟩ := h
  exact ⟨b, List.mem_append_left _ hb, hsel⟩

/-- `ota_task` has left its loop for `esp_ota_end`. -/
def Phase.Counted (p : Phase) : Prop := p = .ending ∨ p = .settingBoot ∨ p = .restarted

namespace Steps

variable {d d' : Device} {a : Action}

/-- The partition in use is set once, to the one selected. -/
theorem partition_cases (h : Steps d a d') :
    d'.partition = d.partition ∨
      ∃ b p, a = .task (.begin b) ∧ selectPartition b = some p ∧ d'.partition = some p := by
  cases h with
  | notBegun b p _ hsel => exact .inr ⟨b, p, rfl, hsel, rfl⟩
  | begun b p _ hsel => exact .inr ⟨b, p, rfl, hsel, rfl⟩
  | _ => exact .inl rfl

/-- The loop is left by a comparison, and nothing is written after it. -/
theorem counted_cases (h : Steps d a d') (hp : d'.phase.Counted) :
    d'.written = d.written ∧
      (d.phase.Counted ∨ a = .task .compare ∧ d.phase = .comparing ∧ d.fwLength ≤ d.recvLen) := by
  have hw : d'.written = d.written := by
    refine h.written_of_ne fun hwr => ?_
    cases h <;> simp_all [Phase.Counted]
  refine ⟨hw, ?_⟩
  cases h with
  | complete hc hle => exact .inr ⟨rfl, hc, hle⟩
  | ended he => exact .inl (.inl he)
  | bootSet hb => exact .inl (.inr (.inl hb))
  | announced | refused | sent | blocks | unblocked => exact .inl hp
  | _ => simp [Phase.Counted] at hp

end Steps

/-- What a run has behind it: the log, and what the log does not say. -/
structure Accounted (es : List Action) (d : Device) : Prop where
  run : d = Lib.run Device.step .boot es
  flow : ∃ bytes, Flow bytes d
  log : d.Logged
  selected : ∀ p, d.partition = some p → Selected es p
  counted : d.phase.Counted → Counted es d.written.length

theorem Accounted.boot : Accounted [] .boot where
  run := rfl
  flow := ⟨[], .boot⟩
  log := Ble.Logged.start _ _
  selected := nofun
  counted := by simp [Phase.Counted, Device.boot]

/-- **A step keeps the account.** -/
theorem Accounted.step {es : List Action} {d : Device} {a : Action} (h : Accounted es d) (ha : d.Happens a) :
    Accounted (es ++ [a]) (d.step a) := by
  have hs := ha.steps
  obtain ⟨bytes, hf⟩ := h.flow
  refine ⟨?_, ⟨_, hf.step hs⟩, h.log.step hs, fun p hp => ?_, fun hp => ?_⟩
  · rw [run_append, ← h.run]; rfl
  · rcases hs.partition_cases with hq | ⟨b, q, rfl, hsel, hq⟩
    · exact (h.selected p (hq ▸ hp)).snoc a
    · obtain rfl : q = p := Option.some.inj (hq.symm.trans hp)
      exact ⟨b, by simp, hsel⟩
  · obtain ⟨hw, hpast | ⟨rfl, hc, hle⟩⟩ := hs.counted_cases hp
    · rw [hw]; exact (h.counted hpast).snoc a
    · refine ⟨es, List.prefix_refl _, ?_⟩
      rw [← h.run, hw]
      refine ⟨hc, ?_⟩
      rw [hf.count, UInt32.le_iff_toNat_le, UInt32.toNat_ofNat'] at hle
      exact Nat.le_trans hle (Nat.mod_le _ _)

theorem run_accounted {es : List Action} (h : Meets Device.step Device.Happens .boot es) :
    Accounted es (run Device.step .boot es) :=
  h.history Accounted (fun _ _ _ hacc ha => hacc.step ha) .boot

/-- A whole update: `esp_ota_begin`, every write and `esp_ota_end` on one handle of the partition selected,
and as many bytes written as announced. -/
def Updated (es : List Action) (calls : List Call) : Prop :=
  ∃ p handle items, Selected es p ∧
    calls = begunCalls p handle items ++ [.otaEnd handle espOk] ++ [.setBootPartition (some p) espOk] ∧
    Counted es items.flatten.length

theorem written_begunCalls (p : Partition) (handle : OtaHandle) (items : List (List UInt8)) :
    (begunCalls p handle items).flatMap Call.written = items.flatten := by
  rw [begunCalls, List.flatMap_cons, List.flatMap_map, List.flatten_eq_flatMap]
  show [] ++ _ = _
  rw [List.nil_append]
  exact List.flatMap_congr fun item _ => by simp [Call.written]

/-- **The boot choice.** In every run the device restarts, and the boot partition changes, only after a whole
update; when `ota_task` ends otherwise, the boot partition is the one from before. -/
theorem boot_choice (es : List Action) (before : Option Partition)
    (h : Meets Device.step Device.Happens .boot es) :
    let d := run Device.step .boot es
    (d.phase = .restarted ∨ d.bootPartition before ≠ before → Updated es d.calls) ∧
      (d.phase = .failed → d.bootPartition before = before) := by
  intro d
  have hacc := run_accounted h
  have hkeep : d.phase ≠ .restarted → d.bootPartition before = before :=
    fun hp => hacc.log.bootAfter_eq hp before
  refine ⟨fun hd => ?_, fun hp => hkeep (by rw [hp]; nofun)⟩
  have hp : d.phase = .restarted := by
    rcases hd with hp | hne
    · exact hp
    · exact Decidable.not_not.mp fun hp => hne (hkeep hp)
  obtain ⟨p, items, hq, hc⟩ := hacc.log.of_restarted hp
  have hw : d.written = items.flatten := by
    rw [Device.written, hc, List.flatMap_append, List.flatMap_append, written_begunCalls]
    simp [Call.written]
  exact ⟨p, _, items, hacc.selected p hq, hc, hw ▸ hacc.counted (.inr (.inr hp))⟩

/-- One update of two bytes. -/
def update : List Action :=
  [.task (.begin Restarts.oneSlot), .announce 2, .otaRecvFwCb [1, 2], .task (.receive 2),
    .task (.write espOk), .task .returnItem, .task .compare, .task (.otaEnd espOk), .task (.setBoot espOk)]

theorem boot_choice_update : Updated update (run Device.step .boot update).calls :=
  (boot_choice update none (by decide)).1 (.inl (by decide))

end EspOta.Ble
