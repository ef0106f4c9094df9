/-
What the ESP-IDF fixes for all three applications: error codes, the app
partitions and OTA handles the `esp_ota_*` calls pass around, and these calls.
-/
import Mathlib.Algebra.Order.Ring.Int

namespace EspOta

/-- `esp_err_t`: zero is success, everything else an error. -/
abbrev EspErr := Int

def espOk : EspErr := 0
def espFail : EspErr := -1
def espErrNotFound : EspErr := 0x105

/-- `esp_ota_handle_t`. -/
abbrev OtaHandle := UInt32

/-- `esp_partition_t`, as far as the code tells partitions apart. -/
structure Partition where
  type : UInt8
  subtype : UInt8
  address : UInt32
  deriving DecidableEq, Repr

def partitionTypeApp : UInt8 := 0x00

/-- A call of the OTA interface, with its arguments and what it answers. A
failing `esp_ota_begin` opens no handle. -/
inductive Call
  | otaBegin (partition : Partition) (err : EspErr) (handle : OtaHandle)
  | otaWrite (handle : OtaHandle) (data : List UInt8) (err : EspErr)
  | otaEnd (handle : OtaHandle) (err : EspErr)
  | setBootPartition (partition : Option Partition) (err : EspErr)
  deriving DecidableEq, Repr

/-- The bytes a call wrote successfully. -/
def Call.written : Call → List UInt8
  | .otaWrite _ data err => if err = espOk then data else []
  | _ => []

end EspOta
