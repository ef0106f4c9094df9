/-
A partition table, as far as updates go: its app partitions, the slots among
them, and the slot after a given partition, which with two slots is always
another one.
-/
import EspOta.Esp
import EspOta.Lib.Successor

namespace EspOta

open Lib

def partitionSubtypeAppOtaMin : UInt8 := 0x10
def partitionSubtypeAppOtaMax : UInt8 := 0x20

/-- The app partitions of a partition table, by subtype: no two have the same. -/
structure PartitionTable where
  apps : List Partition
  type_app : ∀ p ∈ apps, p.type = partitionTypeApp
  sorted : apps.Pairwise (·.subtype.toNat < ·.subtype.toNat)

namespace PartitionTable

variable (t : PartitionTable)

/-- The slots `ota_0` to `ota_15`, as far as the table has them. -/
def otaSlots : List Partition :=
  t.apps.filter fun p => partitionSubtypeAppOtaMin ≤ p.subtype ∧ p.subtype < partitionSubtypeAppOtaMax

/-- `esp_ota_get_next_update_partition`. -/
def nextUpdatePartition (p : Partition) : Option Partition :=
  if p ∈ t.otaSlots then successor? (·.subtype.toNat) t.otaSlots p.subtype.toNat else t.otaSlots.head?

/-- `esp_partition_find_first`, for app partitions. -/
def findFirst (type subtype : UInt8) : Option Partition :=
  t.apps.find? fun p => p.type = type ∧ p.subtype = subtype

variable {t}

theorem mem_apps_of_mem_otaSlots {p : Partition} (h : p ∈ t.otaSlots) : p ∈ t.apps := List.mem_of_mem_filter h

/-- App partitions of one subtype are one. -/
theorem subtype_inj {p q : Partition} (hp : p ∈ t.apps) (hq : q ∈ t.apps) (h : p.subtype = q.subtype) : p = q := by
  have hsorted := t.sorted
  refine hsorted.imp ?_ |>.forall_of_forall_of_flip (R := fun p q => p.subtype = q.subtype → p = q)
    (fun _ _ _ => rfl) (hsorted.imp ?_) hp hq h
  · intro p q hlt heq
    exact absurd (congrArg UInt8.toNat heq) (Nat.ne_of_lt hlt)
  · intro p q hlt heq
    exact absurd (congrArg UInt8.toNat heq) (Nat.ne_of_gt hlt)

theorem findFirst_eq_some {p : Partition} {subtype : UInt8} :
    t.findFirst partitionTypeApp subtype = some p ↔ p ∈ t.apps ∧ p.subtype = subtype := by
  constructor
  · intro h
    have hp := List.find?_some h
    simp only [decide_eq_true_eq] at hp
    exact ⟨List.mem_of_find?_eq_some h, hp.2⟩
  · rintro ⟨hp, rfl⟩
    obtain ⟨q, hq⟩ : ∃ q, t.findFirst partitionTypeApp p.subtype = some q :=
      Option.isSome_iff_exists.mp (List.find?_isSome.mpr ⟨p, hp, by simp [t.type_app p hp]⟩)
    have hmatch := List.find?_some hq
    simp only [decide_eq_true_eq] at hmatch
    rw [hq, subtype_inj (List.mem_of_find?_eq_some hq) hp hmatch.2]

theorem nextUpdatePartition_mem {p q : Partition} (h : t.nextUpdatePartition p = some q) : q ∈ t.otaSlots := by
  unfold nextUpdatePartition at h
  split at h
  · exact @successor?_mem _ Nat _ _ _ _ _ h
  · exact List.mem_of_head? h

/-- With two slots the next one after a partition exists, and is another. -/
theorem nextUpdatePartition_ne (hlen : 2 ≤ t.otaSlots.length) (p : Partition) :
    ∃ q, t.nextUpdatePartition p = some q ∧ q ≠ p := by
  have hne : t.otaSlots ≠ [] := by intro h; simp [h] at hlen
  unfold nextUpdatePartition
  split
  · have hsome : (successor? (·.subtype.toNat) t.otaSlots p.subtype.toNat).isSome := successor?_isSome hne
    obtain ⟨q, hq⟩ := Option.isSome_iff_exists.mp hsome
    exact ⟨q, hq, successor?_ne (t.sorted.filter _) hlen hq⟩
  · rename_i hp
    obtain ⟨q, hq⟩ := Option.isSome_iff_exists.mp (List.isSome_head?.mpr hne)
    exact ⟨q, hq, fun h => hp (h ▸ List.mem_of_head? hq)⟩

end PartitionTable

end EspOta
