/-
The Zigbee OTA server, `esp_ota_server.c`: the embedded image, the one
static counter `s_ota_image_offset`, and the handlers that read or change
it. What the handlers read only to log it (addresses, versions, the table
index, the upgrade time) is not modelled; the client's address stays in the
events, since it is what the server could have told clients apart by.
-/
import EspOta.Esp
import EspOta.Lib.Transfer

namespace EspOta.Zigbee

/-- `ESP_ZB_ZCL_STATUS_SUCCESS`, or any other status of a message. -/
inductive ZclStatus
  | success
  | failure (code : UInt8)
  deriving DecidableEq, Repr

def otaUpgradeIndex : UInt16 := 0
def otaUpgradeFileVersion : UInt32 := 0x01010110
def otaUpgradeManufacturer : UInt16 := 0x1001
def otaUpgradeImageType : UInt16 := 0x1011
def otaUpgradeCurrentTime : UInt32 := 0x12345
def otaUpgradeOffsetTime : UInt32 := 5
def otaUpgradeTime : UInt32 := otaUpgradeCurrentTime + otaUpgradeOffsetTime
def espOtaServerEndpoint : UInt8 := 5

/-! ## The embedded image -/

/-- Memory, with the image the linker placed in it: an array, so at a
non-null address, its length a 32-bit count. -/
structure Rom where
  mem : Nat → UInt8
  otaFileStart : Nat
  otaFileEnd : Nat
  start_pos : 0 < otaFileStart
  start_le : otaFileStart ≤ otaFileEnd
  size_lt : otaFileEnd - otaFileStart < 2 ^ 32

/-- `n` bytes of memory from the address `p`. -/
def Rom.read (rom : Rom) (p n : Nat) : List UInt8 := (List.range n).map fun i => rom.mem (p + i)

def Rom.size (rom : Rom) : Nat := rom.otaFileEnd - rom.otaFileStart

/-- The bytes from `ota_file_start` up to `ota_file_end`. -/
def Rom.image (rom : Rom) : List UInt8 := rom.read rom.otaFileStart rom.size

@[simp] theorem Rom.read_length (rom : Rom) (p n : Nat) : (rom.read p n).length = n := by simp [read]

@[simp] theorem Rom.read_zero (rom : Rom) (p : Nat) : rom.read p 0 = [] := rfl

@[simp] theorem Rom.image_length (rom : Rom) : rom.image.length = rom.size := rom.read_length _ _

/-- Reading inside the image is taking a slice of it. -/
theorem Rom.read_eq_slice (rom : Rom) {o n : Nat} (h : o + n ≤ rom.size) :
    rom.read (rom.otaFileStart + o) n = (rom.image.drop o).take n := by
  apply List.ext_getElem
  · simp; omega
  · intro i h₁ h₂
    simp [image, read, Nat.add_assoc]

/-! ## The handlers -/

/-- The server's one static variable. -/
structure Server where
  sOtaImageOffset : UInt32
  deriving DecidableEq, Repr

def Server.boot : Server := ⟨0⟩

/-- `zb_ota_next_data_handler`: the result, `*data` and the state after, for
a `*data` holding `data` before. The sum is 32-bit, and so is the length it
is compared with. -/
def zbOtaNextDataHandler (rom : Rom) (s : Server) (index : UInt16) (size : UInt8) (data : Nat) :
    EspErr × Nat × Server :=
  if index = otaUpgradeIndex then
    let data := rom.otaFileStart + s.sOtaImageOffset.toNat
    let offset := s.sOtaImageOffset + size.toUInt32
    let offset := if UInt32.ofNat rom.size ≤ offset then 0 else offset
    (if data ≠ 0 then espOk else espFail, data, ⟨offset⟩)
  else (espFail, data, s)

@[simp] theorem zbOtaNextDataHandler_other {rom : Rom} {s : Server} {index : UInt16} (size : UInt8)
    (data : Nat) (h : index ≠ otaUpgradeIndex) :
    zbOtaNextDataHandler rom s index size data = (espFail, data, s) := by
  simp [zbOtaNextDataHandler, h]

/-- At the image's index the pointer is never null, so the request succeeds. -/
theorem zbOtaNextDataHandler_index (rom : Rom) (s : Server) (size : UInt8) (data : Nat) :
    zbOtaNextDataHandler rom s otaUpgradeIndex size data =
      (espOk, rom.otaFileStart + s.sOtaImageOffset.toNat,
        ⟨if UInt32.ofNat rom.size ≤ s.sOtaImageOffset + size.toUInt32 then 0
          else s.sOtaImageOffset + size.toUInt32⟩) := by
  have := rom.start_pos
  simp only [zbOtaNextDataHandler, ite_true]
  rw [if_pos (by omega)]

/-- **A block inside the image.** A server at the place of a transfer hands
out the transfer's next bytes and moves to the place after them. -/
theorem zbOtaNextDataHandler_advance (rom : Rom) {s : Server} (size : UInt8) (data : Nat)
    (t : Lib.Transfer rom.image) (hs : s.sOtaImageOffset.toNat = t.cursor)
    (h : t.moved + size.toNat ≤ rom.image.length) :
    ∃ p s', zbOtaNextDataHandler rom s otaUpgradeIndex size data = (espOk, p, s') ∧
      rom.read p size.toNat = t.next size.toNat ∧ s'.sOtaImageOffset.toNat = (t.advance _ h).cursor := by
  have hlen := rom.image_length
  have hlt : rom.size < 2 ^ 32 := rom.size_lt
  -- At the end of the image only an empty block is left to ask for.
  have hcur : t.cursor = t.moved ∨ t.moved = rom.size ∧ t.cursor = 0 ∧ size.toNat = 0 := by
    rcases Nat.lt_or_eq_of_le t.le with hm | hm
    · exact .inl (Lib.Transfer.cursor_of_lt hm)
    · have := Lib.Transfer.cursor_of_eq hm; omega
  refine ⟨_, _, zbOtaNextDataHandler_index rom s size data, ?_, ?_⟩
  · rcases hcur with hc | ⟨-, -, h0⟩
    · rw [hs, hc, rom.read_eq_slice (by omega)]; rfl
    · simp [h0, Lib.Transfer.next]
  · have hsum : (s.sOtaImageOffset + size.toUInt32).toNat = t.cursor + size.toNat := by
      rw [UInt32.toNat_add, hs, UInt8.toNat_toUInt32]
      exact Nat.mod_eq_of_lt (by omega)
    have hle : UInt32.ofNat rom.size ≤ s.sOtaImageOffset + size.toUInt32 ↔
        rom.size ≤ t.cursor + size.toNat := by
      rw [UInt32.le_iff_toNat_le, hsum, UInt32.toNat_ofNat_of_lt' hlt]
    rcases Nat.lt_or_eq_of_le h with hm | hm
    · rw [Lib.Transfer.cursor_of_lt (t := t.advance _ h) hm, if_neg (mt hle.mp (by omega)), hsum,
        Lib.Transfer.advance_moved]
      omega
    · rw [Lib.Transfer.cursor_of_eq (t := t.advance _ h) hm]
      split
      · rfl
      · next hn => rw [hle] at hn; simp only [hsum]; omega

/-- `esp_zb_zcl_ota_upgrade_server_status_t`: the two the handler names, or
any other. -/
inductive ServerStatus
  | aborted
  | ended
  | other (code : UInt8)
  deriving DecidableEq, Repr

/-- `esp_zb_zcl_ota_upgrade_server_status_message_t`. -/
structure ServerStatusMessage (α : Type) where
  status : ZclStatus
  zclAddr : α
  serverStatus : ServerStatus

def zbOtaUpgradeServerStatusHandler {α : Type} (s : Server) (m : ServerStatusMessage α) : EspErr × Server :=
  if m.status ≠ .success then (espFail, s)
  else if m.serverStatus = .aborted ∨ m.serverStatus = .ended then (espOk, ⟨0⟩)
  else (espOk, s)

/-- `esp_zb_zcl_ota_upgrade_server_query_image_message_t`. -/
structure QueryImageMessage (α : Type) where
  status : ZclStatus
  zclAddr : α
  imageType : UInt16
  manufacturerCode : UInt16

def zbOtaUpgradeServerQueryImageHandler {α : Type} (s : Server) (m : QueryImageMessage α) : EspErr × Server :=
  if m.status ≠ .success then (espFail, s)
  else if ¬(m.imageType = otaUpgradeImageType ∧ m.manufacturerCode = otaUpgradeManufacturer) then
    (espErrNotFound, s)
  else (espOk, ⟨0⟩)

/-! ## Accepted messages -/

/-- The query is for this image. -/
def QueryImageMessage.Accepted {α : Type} (m : QueryImageMessage α) : Prop :=
  m.status = .success ∧ m.imageType = otaUpgradeImageType ∧ m.manufacturerCode = otaUpgradeManufacturer

instance {α : Type} (m : QueryImageMessage α) : Decidable m.Accepted := inferInstanceAs (Decidable (_ ∧ _))

/-- The status is the end of a transfer, for better or worse. -/
def ServerStatusMessage.Ends {α : Type} (m : ServerStatusMessage α) : Prop :=
  m.status = .success ∧ (m.serverStatus = .aborted ∨ m.serverStatus = .ended)

instance {α : Type} (m : ServerStatusMessage α) : Decidable m.Ends := inferInstanceAs (Decidable (_ ∧ _))

theorem query_accepted {α : Type} (s : Server) {m : QueryImageMessage α} (h : m.Accepted) :
    zbOtaUpgradeServerQueryImageHandler s m = (espOk, ⟨0⟩) := by
  simp [zbOtaUpgradeServerQueryImageHandler, h.1, h.2]

theorem query_rejected {α : Type} (s : Server) {m : QueryImageMessage α} (h : ¬ m.Accepted) :
    ∃ e ≠ espOk, zbOtaUpgradeServerQueryImageHandler s m = (e, s) := by
  by_cases hst : m.status = .success
  · refine ⟨espErrNotFound, by decide, ?_⟩
    have hty : ¬(m.imageType = otaUpgradeImageType ∧ m.manufacturerCode = otaUpgradeManufacturer) :=
      fun h' => h ⟨hst, h'⟩
    simp only [zbOtaUpgradeServerQueryImageHandler, hst, hty]
    simp
  · exact ⟨espFail, by decide, by simp [zbOtaUpgradeServerQueryImageHandler, hst]⟩

theorem status_ends {α : Type} (s : Server) {m : ServerStatusMessage α} (h : m.Ends) :
    zbOtaUpgradeServerStatusHandler s m = (espOk, ⟨0⟩) := by
  simp [zbOtaUpgradeServerStatusHandler, h.1, h.2]

theorem status_not_ends {α : Type} (s : Server) {m : ServerStatusMessage α} (h : ¬ m.Ends) :
    (zbOtaUpgradeServerStatusHandler s m).2 = s := by
  unfold zbOtaUpgradeServerStatusHandler
  split
  · rfl
  · next hst =>
    split
    · next he => exact absurd ⟨by simpa using hst, he⟩ h
    · rfl

/-! ## The image notify -/

/-- `esp_zb_ota_upgrade_server_notify_req_t`. -/
structure NotifyReq where
  endpoint : UInt8
  index : UInt16
  notifyOn : Bool
  otaUpgradeTime : UInt32
  manufacturerCode : UInt16
  imageType : UInt16
  fileVersion : UInt32
  imageSize : UInt32
  deriving DecidableEq, Repr

/-- `zb_ota_upgrade_srv_send_notify_image`: the request it hands to the stack. -/
def zbOtaUpgradeSrvSendNotifyImage (rom : Rom) (notifyOn : Bool) : NotifyReq where
  endpoint := espOtaServerEndpoint
  index := otaUpgradeIndex
  notifyOn := notifyOn
  otaUpgradeTime := otaUpgradeTime
  manufacturerCode := otaUpgradeManufacturer
  imageType := otaUpgradeImageType
  fileVersion := otaUpgradeFileVersion
  imageSize := UInt32.ofNat rom.size

/-- The signals `esp_zb_app_signal_handler` tells apart as far as OTA goes:
a device announcement, or any other (commissioning, which leaves OTA alone). -/
inductive AppSignal
  | deviceAnnce
  | other (sigType : UInt32)
  deriving DecidableEq, Repr

/-- `esp_zb_app_signal_handler`: the notify request it makes, if any. -/
def espZbAppSignalHandler (rom : Rom) (s : Server) : AppSignal → Option NotifyReq
  | .deviceAnnce =>
    if s.sOtaImageOffset = 0 then some (zbOtaUpgradeSrvSendNotifyImage rom true) else none
  | .other _ => none

end EspOta.Zigbee
