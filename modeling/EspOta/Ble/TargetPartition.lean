/-
The partition `ota_task` selects for the update, over any partition table
and any pair of a boot partition, which otadata selects, and a running one,
which differs from it when the bootloader had to fall back.

The task takes the slot after the boot partition, or `ota_0` after the
factory app, and never asks what is running: `selects_idle_iff`. The Zigbee
client asks for the slot after the running partition, which is never that
partition itself.
-/
import EspOta.PartitionTable
import EspOta.Ble.OtaTask

namespace EspOta.PartitionTable

open Ble

variable (t : PartitionTable)

/-- What `ota_task` is answered on a device that otadata boots from `boot`. -/
def lookup (boot : Partition) (err : EspErr) (handle : OtaHandle) : Lookup :=
  ⟨some boot, t.nextUpdatePartition, t.findFirst, err, handle⟩

/-- The slot `ota_task` goes for when otadata boots from `boot`. -/
def after (boot : Partition) : Option Partition :=
  if boot.subtype = partitionSubtypeAppFactory then t.findFirst partitionTypeApp partitionSubtypeAppOta0
  else t.nextUpdatePartition boot

end EspOta.PartitionTable

namespace EspOta.Ble

theorem selectPartition_lookup {t : PartitionTable} {boot : Partition} (hboot : boot ∈ t.apps)
    (hlen : 2 ≤ t.otaSlots.length) (err : EspErr) (handle : OtaHandle) :
    selectPartition (t.lookup boot err handle) = t.after boot := by
  have htype := t.type_app boot hboot
  unfold PartitionTable.after
  by_cases hf : boot.subtype = partitionSubtypeAppFactory
  · simp [selectPartition, PartitionTable.lookup, htype, hf]
  · obtain ⟨q, hq, -⟩ := PartitionTable.nextUpdatePartition_ne hlen boot
    have hfind : t.findFirst partitionTypeApp q.subtype = some q :=
      PartitionTable.findFirst_eq_some.mpr
        ⟨PartitionTable.mem_apps_of_mem_otaSlots (PartitionTable.nextUpdatePartition_mem hq), rfl⟩
    simp [selectPartition, PartitionTable.lookup, htype, hf, hq, hfind]

/-- What the selection needs: from the factory app, an `ota_0` that is not running; else that the slot after
the boot partition is not running. -/
def Idle (t : PartitionTable) (boot running : Partition) : Prop :=
  if boot.subtype = partitionSubtypeAppFactory then
    (∃ p ∈ t.apps, p.subtype = partitionSubtypeAppOta0) ∧ running.subtype ≠ partitionSubtypeAppOta0
  else t.nextUpdatePartition boot ≠ some running

/-- **The update target.** In every table with two slots, and for every boot and running partition, the slot
after the running partition exists and is not running, and the partition `ota_task` selects is so just when the
slot it goes for is idle. -/
theorem selects_idle_iff (t : PartitionTable) (hlen : 2 ≤ t.otaSlots.length) {boot running : Partition}
    (hboot : boot ∈ t.apps) (hrunning : running ∈ t.apps) (err : EspErr) (handle : OtaHandle) :
    (∃ p, t.nextUpdatePartition running = some p ∧ p ≠ running) ∧
      ((∃ p, selectPartition (t.lookup boot err handle) = some p ∧ p ≠ running) ↔ Idle t boot running) := by
  refine ⟨PartitionTable.nextUpdatePartition_ne hlen running, ?_⟩
  rw [selectPartition_lookup hboot hlen, PartitionTable.after, Idle]
  split
  · simp only [PartitionTable.findFirst_eq_some]
    constructor
    · intro h
      obtain ⟨p, ⟨hp, hsub⟩, hne⟩ := h
      exact ⟨⟨p, hp, hsub⟩, fun hr => hne (PartitionTable.subtype_inj hp hrunning (hsub.trans hr.symm))⟩
    · intro h
      obtain ⟨⟨p, hp, hsub⟩, hr⟩ := h
      exact ⟨p, ⟨hp, hsub⟩, fun h => hr (h ▸ hsub)⟩
  · obtain ⟨q, hq, -⟩ := PartitionTable.nextUpdatePartition_ne hlen boot
    simp [hq]

/-- Running what otadata boots, an OTA slot is always a good start, and the factory app when there is an `ota_0`. -/
theorem idle_self {t : PartitionTable} (hlen : 2 ≤ t.otaSlots.length) {boot : Partition}
    (h : boot.subtype = partitionSubtypeAppFactory → ∃ p ∈ t.apps, p.subtype = partitionSubtypeAppOta0) :
    Idle t boot boot := by
  rw [Idle]
  split
  · rename_i hf
    exact ⟨h hf, by rw [hf]; decide⟩
  · obtain ⟨q, hq, hne⟩ := PartitionTable.nextUpdatePartition_ne hlen boot
    rw [hq]
    exact fun he => hne (Option.some.inj he)

/-! Two slots, and a bootloader that fell back. -/

def twoSlots : PartitionTable where
  apps := [⟨0, 0x10, 0x110000⟩, ⟨0, 0x11, 0x210000⟩]
  type_app := by decide
  sorted := by decide

theorem selects_idle_iff_twoSlots :
    ∃ p, selectPartition (twoSlots.lookup ⟨0, 0x10, 0x110000⟩ espOk 1) = some p ∧ p ≠ ⟨0, 0x10, 0x110000⟩ :=
  (selects_idle_iff twoSlots (by decide) (by decide) (by decide) espOk 1).2.mpr (idle_self (by decide) (by decide))

/-- otadata selects `ota_0`, the bootloader started `ota_1`: `ota_1` is overwritten while it runs. -/
theorem selects_running :
    ¬ ∀ (t : PartitionTable) (boot running : Partition), 2 ≤ t.otaSlots.length → boot ∈ t.apps →
      running ∈ t.apps → ∀ err handle,
        ∃ p, selectPartition (t.lookup boot err handle) = some p ∧ p ≠ running := by
  intro h
  obtain ⟨p, hp, hne⟩ := h twoSlots ⟨0, 0x10, 0x110000⟩ ⟨0, 0x11, 0x210000⟩ (by decide) (by decide) (by decide)
    espOk 1
  have hsel : selectPartition (twoSlots.lookup ⟨0, 0x10, 0x110000⟩ espOk 1) = some ⟨0, 0x11, 0x210000⟩ := by decide
  exact hne (Option.some.inj (hp.symm.trans hsel))

end EspOta.Ble
