/-
The Zigbee OTA client, `esp_ota_client.c`: `zb_ota_upgrade_status_handler`
and the static variables it keeps from one message to the next. What the
handler keeps or reads only to log it (`start_time`, the file version, the
manufacturer code and the image type of the header) is not modelled.

One handling calls the `esp_ota_*` functions a few times at most, each at
most once; what they answer is an argument, so that a statement about every
pattern of their failures is a statement about every argument.
-/
import EspOta.Zigbee.Server

namespace EspOta.Zigbee

/-- `esp_zb_zcl_ota_upgrade_status_t`: those the handler names, or any other. -/
inductive UpgradeStatus
  | start
  | receive
  | apply
  | check
  | finish
  | other (code : UInt16)
  deriving DecidableEq, Repr

/-- `esp_zb_zcl_ota_upgrade_value_message_t`. A payload that is there has
`payload_size` bytes. -/
structure UpgradeValueMessage where
  status : ZclStatus
  upgradeStatus : UpgradeStatus
  imageSize : UInt32
  payloadSize : UInt32
  payload : Option (List UInt8)
  sized : ∀ bs ∈ payload, bs.length = payloadSize.toNat

/-- The static variables of the client. -/
structure Client where
  sOtaPartition : Option Partition
  sOtaHandle : OtaHandle
  totalSize : UInt32
  offset : UInt32
  deriving DecidableEq, Repr

def Client.boot : Client := ⟨none, 0, 0, 0⟩

/-- What the functions the handler may call answer: the partition
`esp_ota_get_next_update_partition(NULL)` finds, the handle `esp_ota_begin`
opens, and each call's error code. -/
structure Answers where
  nextUpdatePartition : Option Partition
  beginErr : EspErr
  beginHandle : OtaHandle
  writeErr : EspErr
  endErr : EspErr
  setBootErr : EspErr
  deriving DecidableEq, Repr

/-- How a handling ends: with its return value, in `esp_restart`, or in the
failed assertion. -/
inductive Exit
  | returned (ret : EspErr)
  | restarted
  | aborted
  deriving DecidableEq, Repr

/-- What a handling leaves, calls and returns. -/
structure Outcome where
  client : Client
  calls : List Call
  exit : Exit
  deriving DecidableEq, Repr

def zbOtaUpgradeStatusHandler (a : Answers) (s : Client) (m : UpgradeValueMessage) : Outcome :=
  if m.status = .success then
    match m.upgradeStatus with
    | .start =>
      match a.nextUpdatePartition with
      | none => ⟨{ s with sOtaPartition := none }, [], .aborted⟩
      | some p =>
        let handle := if a.beginErr = espOk then a.beginHandle else s.sOtaHandle
        ⟨{ s with sOtaPartition := some p, sOtaHandle := handle }, [.otaBegin p a.beginErr handle],
          .returned a.beginErr⟩
    | .receive =>
      let s := { s with totalSize := m.imageSize, offset := s.offset + m.payloadSize }
      match m.payload with
      | some bs =>
        if m.payloadSize ≠ 0 then ⟨s, [.otaWrite s.sOtaHandle bs a.writeErr], .returned a.writeErr⟩
        else ⟨s, [], .returned espOk⟩
      | none => ⟨s, [], .returned espOk⟩
    | .apply => ⟨s, [], .returned espOk⟩
    | .check => ⟨s, [], .returned (if s.offset = s.totalSize then espOk else espFail)⟩
    | .finish =>
      if a.endErr ≠ espOk then ⟨s, [.otaEnd s.sOtaHandle a.endErr], .returned a.endErr⟩
      else if a.setBootErr ≠ espOk then
        ⟨s, [.otaEnd s.sOtaHandle espOk, .setBootPartition s.sOtaPartition a.setBootErr],
          .returned a.setBootErr⟩
      else ⟨s, [.otaEnd s.sOtaHandle espOk, .setBootPartition s.sOtaPartition espOk], .restarted⟩
    | .other _ => ⟨s, [], .returned espOk⟩
  else ⟨s, [], .returned espOk⟩

/-! ## What one message does -/

/-- The message is heeded, and is a `u`. -/
def UpgradeValueMessage.Is (m : UpgradeValueMessage) (u : UpgradeStatus) : Prop :=
  m.status = .success ∧ m.upgradeStatus = u

instance (m : UpgradeValueMessage) (u : UpgradeStatus) : Decidable (m.Is u) :=
  inferInstanceAs (Decidable (_ ∧ _))

/-- The bytes a RECEIVE has for `esp_ota_write`: none when its size is zero
or its pointer null. -/
def UpgradeValueMessage.data (m : UpgradeValueMessage) : List UInt8 := m.payload.getD []

theorem UpgradeValueMessage.Is.unique {m : UpgradeValueMessage} {u v : UpgradeStatus} (h : m.Is u)
    (h' : m.Is v) : u = v := h.2.symm.trans h'.2

theorem UpgradeValueMessage.not_is {m : UpgradeValueMessage} {u v : UpgradeStatus}
    (hu : m.upgradeStatus = u) (hne : u ≠ v) : ¬ m.Is v := fun h => hne (hu.symm.trans h.2)

open UpgradeValueMessage (not_is)

/-- Everything a handling can be. -/
inductive Handles (a : Answers) (s : Client) (m : UpgradeValueMessage) : Outcome → Prop
  | noPartition : m.Is .start → a.nextUpdatePartition = none →
      Handles a s m ⟨{ s with sOtaPartition := none }, [], .aborted⟩
  | beginOk {p} : m.Is .start → a.nextUpdatePartition = some p → a.beginErr = espOk →
      Handles a s m ⟨{ s with sOtaPartition := some p, sOtaHandle := a.beginHandle },
        [.otaBegin p espOk a.beginHandle], .returned espOk⟩
  | beginFailed {p} : m.Is .start → a.nextUpdatePartition = some p → a.beginErr ≠ espOk →
      Handles a s m ⟨{ s with sOtaPartition := some p }, [.otaBegin p a.beginErr s.sOtaHandle],
        .returned a.beginErr⟩
  | noData : m.Is .receive → m.data = [] →
      Handles a s m ⟨{ s with totalSize := m.imageSize, offset := s.offset + m.payloadSize }, [],
        .returned espOk⟩
  | write : m.Is .receive → m.data ≠ [] → m.data.length = m.payloadSize.toNat →
      Handles a s m ⟨{ s with totalSize := m.imageSize, offset := s.offset + m.payloadSize },
        [.otaWrite s.sOtaHandle m.data a.writeErr], .returned a.writeErr⟩
  | check : m.Is .check →
      Handles a s m ⟨s, [], .returned (if s.offset = s.totalSize then espOk else espFail)⟩
  | endFailed : m.Is .finish → a.endErr ≠ espOk →
      Handles a s m ⟨s, [.otaEnd s.sOtaHandle a.endErr], .returned a.endErr⟩
  | setBootFailed : m.Is .finish → a.endErr = espOk → a.setBootErr ≠ espOk →
      Handles a s m ⟨s, [.otaEnd s.sOtaHandle espOk, .setBootPartition s.sOtaPartition a.setBootErr],
        .returned a.setBootErr⟩
  | restart : m.Is .finish → a.endErr = espOk → a.setBootErr = espOk →
      Handles a s m ⟨s, [.otaEnd s.sOtaHandle espOk, .setBootPartition s.sOtaPartition espOk], .restarted⟩
  | other : ¬ m.Is .start → ¬ m.Is .receive → ¬ m.Is .check → ¬ m.Is .finish →
      Handles a s m ⟨s, [], .returned espOk⟩

theorem handles (a : Answers) (s : Client) (m : UpgradeValueMessage) :
    Handles a s m (zbOtaUpgradeStatusHandler a s m) := by
  unfold zbOtaUpgradeStatusHandler
  by_cases hm : m.status = .success
  · rw [if_pos hm]
    cases hu : m.upgradeStatus with
    | start =>
      cases hp : a.nextUpdatePartition with
      | none => exact .noPartition ⟨hm, hu⟩ hp
      | some p =>
        by_cases hb : a.beginErr = espOk
        · simp only [hb, ite_true]; exact .beginOk ⟨hm, hu⟩ hp hb
        · simp only [hb, ite_false]; exact .beginFailed ⟨hm, hu⟩ hp hb
    | receive =>
      cases hp : m.payload with
      | none => exact .noData ⟨hm, hu⟩ (by simp [UpgradeValueMessage.data, hp])
      | some bs =>
        have hd : m.data = bs := by simp [UpgradeValueMessage.data, hp]
        have hl := m.sized bs hp
        by_cases hz : m.payloadSize = 0
        · have hn : m.data = [] := List.eq_nil_of_length_eq_zero (by rw [hd, hl, hz]; rfl)
          simp only [hz, ne_eq, not_true_eq_false, ite_false]
          have := Handles.noData (a := a) (s := s) ⟨hm, hu⟩ hn
          rwa [hz] at this
        · have hn : m.data ≠ [] := by
            intro he
            rw [← hd, he] at hl
            exact hz (UInt32.toNat_inj.mp hl.symm)
          simp only [hz, ne_eq, not_false_eq_true, ite_true]
          rw [← hd]
          exact .write ⟨hm, hu⟩ hn (by rw [hd, hl])
    | apply =>
      exact .other (not_is hu nofun) (not_is hu nofun) (not_is hu nofun) (not_is hu nofun)
    | check => exact .check ⟨hm, hu⟩
    | finish =>
      by_cases he : a.endErr = espOk
      · by_cases hb : a.setBootErr = espOk
        · simp only [he, hb, ne_eq, not_true_eq_false, ite_false]; exact .restart ⟨hm, hu⟩ he hb
        · simp only [he, hb, ne_eq, not_true_eq_false, ite_false, not_false_eq_true, ite_true]
          exact .setBootFailed ⟨hm, hu⟩ he hb
      · simp only [he, ne_eq, not_false_eq_true, ite_true]; exact .endFailed ⟨hm, hu⟩ he
    | other code =>
      exact .other (not_is hu nofun) (not_is hu nofun) (not_is hu nofun) (not_is hu nofun)
  · rw [if_neg hm]
    exact .other (fun h => hm h.1) (fun h => hm h.1) (fun h => hm h.1) (fun h => hm h.1)

end EspOta.Zigbee
