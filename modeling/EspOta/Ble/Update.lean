/-
The BLE update as one system: the packages of the sender arrive at the
component that the README describes, which hands what it accepts to
`ota_recv_fw_cb`, while `ota_task` takes it out of the ring buffer and writes
it.

The parties go on in any order. A package arrives only while the component is
not held up in the callback; until then it waits, or the link loses it.
Whatever is lost, and whatever single bits are flipped, the device writes the
firmware from the front, and finishes only with the whole of it written
(`finishes_with_firmware`).
-/
import EspOta.Ble.NoisyLink
import EspOta.Ble.ByteStream
import EspOta.Ble.Restarts

namespace EspOta.Ble

open Lib

/-! ## What the component tells the application -/

inductive Notice
  | nothing
  /-- `esp_ble_ota_get_fw_length` answers `n` from now on. -/
  | length (n : Nat)
  /-- `ota_recv_fw_cb` is called. -/
  | sector (data : Bytes)
  deriving DecidableEq, Repr

/-- A START makes the length known, a sector accepted is handed over. -/
def notice : Option Download × List Reply → Notice
  | (some d, [.response id true]) => if id = startOtaCmd then .length d.announced else .nothing
  | (some d, [.ack _ .success]) => .sector (d.accepted.getLast?.getD [])
  | _ => .nothing

def imageOf (r : Option Download) : Bytes := (r.map Download.image).getD []

/-- What a write can be to the application. -/
inductive Notices (r : Option Download) (w : Write) : Option Download → Notice → Prop
  | nothing (r' : Option Download) : imageOf r' = imageOf r → r'.isSome = r.isSome → Notices r w r' .nothing
  | length (n : Nat) : w.characteristic = .command → IsCommand w.packet → commandId w.packet = startOtaCmd →
      Notices r w (some (.start n)) (.length n)
  | sector (d' : Download) (data : Bytes) : r.isSome → data.length ≤ sectorSize →
      d'.image = imageOf r ++ data → Notices r w (some d') (.sector data)

theorem imageOf_stopped (r : Option Download) : imageOf (r.map ({ · with stopped := true })) = imageOf r := by
  cases r <;> rfl

theorem notice_nil (r : Option Download) : notice (r, []) = .nothing := by cases r <;> rfl

theorem notice_other (r : Option Download) {id : Nat} {accept : Bool}
    (h : ¬ (id = startOtaCmd ∧ accept = true)) : notice (r, [.response id accept]) = .nothing := by
  cases r with
  | none => rfl
  | some d =>
    cases accept with
    | false => rfl
    | true => exact if_neg fun hid => h ⟨hid, rfl⟩

theorem close_notices {r : Option Download} {d : Download} (hr : r.isSome) (hd : imageOf r = d.image) (i : Nat)
    (w : Write) : Notices r w (some d.close.1) (notice (some d.close.1, [.ack i d.close.2])) := by
  unfold Download.close
  dsimp only
  split
  · exact .nothing _ hd.symm hr.symm
  · split
    · exact .nothing _ hd.symm hr.symm
    · refine .sector _ _ hr ?_ ?_
      · simp only [List.getLast?_concat, Option.getD_some, List.length_take, Download.awaited]
        omega
      · simp [Download.image, hd]

theorem receivePacket_notices (d : Download) (w : Write) (p : Bytes) :
    Notices (some d) w (some (d.receivePacket p).1)
      (notice (some (d.receivePacket p).1, (d.receivePacket p).2)) := by
  unfold Download.receivePacket
  split
  · exact .nothing _ rfl rfl
  · split
    · exact .nothing _ rfl rfl
    · dsimp only
      split
      · exact .nothing _ rfl rfl
      · have hd : imageOf (some d) = ({ d with buffer := d.buffer ++ packetPayload p } : Download).image := rfl
        exact close_notices rfl hd (packetIndex p) w

theorem notices (r : Option Download) (w : Write) : Notices r w (receive r w).1 (notice (receive r w)) := by
  unfold receive
  split
  · exact .nothing _ rfl rfl
  · exact receivePacket_notices _ w w.packet
  · rename_i hc
    split
    · rw [notice_nil]; exact .nothing _ rfl rfl
    · rename_i hw
      split
      · exact .length _ hc (Decidable.not_not.mp hw) ‹_›
      · split
        · rw [notice_other _ (by decide)]
          exact .nothing _ (imageOf_stopped _) Option.isSome_map
        · rw [notice_other _ (by simp)]
          exact .nothing _ rfl rfl

/-! ## The system -/

/-- The packages still to arrive, the component, and the device. -/
structure Update where
  incoming : List Write
  receiver : Option Download
  device : Device

inductive UpdateEvent
  /-- The next package arrives. -/
  | arrive
  | unblock
  | task (call : TaskCall)

namespace Update

def boot (ws : List Write) : Update := ⟨ws, none, .boot⟩

def tell (d : Device) : Notice → Option Device
  | .nothing => if d.phase = .restarted then none else some d
  | .length n => d.step? (.announce (UInt32.ofNat n))
  | .sector data => d.step? (.otaRecvFwCb data)

def arrive (y : Update) : Option Update :=
  match y.incoming with
  | [] => none
  | w :: ws =>
    if y.device.blocked.isSome then none
    else (tell y.device (notice (receive y.receiver w))).map fun d => ⟨ws, (receive y.receiver w).1, d⟩

def step? (y : Update) : UpdateEvent → Option Update
  | .arrive => y.arrive
  | .unblock => (y.device.step? .unblock).map fun d => { y with device := d }
  | .task c => (y.device.step? (.task c)).map fun d => { y with device := d }

/-- An event that cannot happen in a state leaves it as it is. -/
def step (y : Update) (e : UpdateEvent) : Update := (y.step? e).getD y

/-- Everything a step can be. -/
inductive Acts (y : Update) : UpdateEvent → Update → Prop
  | arrived (w : Write) (ws : List Write) (r : Option Download) : y.incoming = w :: ws →
      y.device.blocked = none → r = (receive y.receiver w).1 → Notices y.receiver w r .nothing →
      Acts y .arrive ⟨ws, r, y.device⟩
  | started (w : Write) (ws : List Write) (n : Nat) (d : Device) : y.incoming = w :: ws →
      some (.start n) = (receive y.receiver w).1 → w.characteristic = .command → IsCommand w.packet →
      commandId w.packet = startOtaCmd → Steps y.device (.announce (UInt32.ofNat n)) d →
      Acts y .arrive ⟨ws, some (.start n), d⟩
  | accepted (w : Write) (ws : List Write) (r : Download) (data : Bytes) (d : Device) : y.incoming = w :: ws →
      some r = (receive y.receiver w).1 → y.receiver.isSome → data.length ≤ sectorSize →
      r.image = imageOf y.receiver ++ data → Steps y.device (.otaRecvFwCb data) d →
      Acts y .arrive ⟨ws, some r, d⟩
  | unblocked (d : Device) : Steps y.device .unblock d → Acts y .unblock { y with device := d }
  | task (c : TaskCall) (d : Device) : Steps y.device (.task c) d → Acts y (.task c) { y with device := d }

theorem arrive_acts {y y' : Update} (h : y.arrive = some y') : y.Acts .arrive y' := by
  unfold arrive at h
  split at h
  · cases h
  · rename_i w ws hw
    split at h
    · cases h
    · rename_i hb
      have hblocked : y.device.blocked = none := by simpa using hb
      obtain ⟨d, hd, rfl⟩ := Option.map_eq_some_iff.mp h
      have hnotices := notices y.receiver w
      generalize hr : (receive y.receiver w).1 = r at hnotices ⊢
      generalize notice (receive y.receiver w) = n at hnotices hd
      cases hnotices with
      | nothing _ himage hsome =>
        have hd : (if y.device.phase = .restarted then none else some y.device) = some d := hd
        split at hd
        · cases hd
        · cases hd
          exact .arrived w ws r hw hblocked hr.symm (.nothing r himage hsome)
      | length n hc hcmd hid => exact .started w ws n d hw hr.symm hc hcmd hid (steps hd)
      | sector r data hsome hlen himage => exact .accepted w ws r data d hw hr.symm hsome hlen himage (steps hd)

theorem acts {y y' : Update} {e : UpdateEvent} (h : y.step? e = some y') : y.Acts e y' := by
  cases e with
  | arrive => exact arrive_acts h
  | unblock =>
    obtain ⟨d, hd, rfl⟩ := Option.map_eq_some_iff.mp h
    exact .unblocked d (steps hd)
  | task c =>
    obtain ⟨d, hd, rfl⟩ := Option.map_eq_some_iff.mp h
    exact .task c d (steps hd)

/-! ## Safety -/

/-- What every step keeps, where `ws` are all the packages that arrive. -/
structure Tracks (firmware : Bytes) (ws : List Write) (y : Update) : Prop where
  heard : ∃ vs, ws = vs ++ y.incoming ∧ y.receiver = hear none vs
  flow : Flow (imageOf y.receiver) y.device
  length : y.receiver.isSome → y.device.fwLength = UInt32.ofNat firmware.length
  /-- Before the START there is nothing to write. -/
  idle : y.receiver = none → y.device.Idle
  late : y.device.Late firmware.length

theorem Tracks.boot (firmware : Bytes) (ws : List Write) : Tracks firmware ws (boot ws) where
  heard := ⟨[], rfl, rfl⟩
  flow := .boot
  length := by simp [Update.boot]
  idle _ := ⟨.inl rfl, by simp [Update.boot, Device.boot]⟩
  late := .boot _

section
variable {firmware : Bytes} (hsize : firmware.length ≤ maxSize) {ws : List Write} {y y' : Update}

theorem Tracks.flow_nil (h : Tracks firmware ws y) (hr : y.receiver = none) : Flow [] y.device := by
  have hf := h.flow
  rw [hr] at hf
  exact hf

include hsize in
theorem Tracks.task (h : Tracks firmware ws y) {c : TaskCall} {d : Device} (hs : Steps y.device (.task c) d) :
    Tracks firmware ws { y with device := d } := by
  refine ⟨h.heard, by simpa using h.flow.step hs, fun hr => hs.fwLength_of_task.trans (h.length hr),
    fun hr => (h.idle hr).step hs (h.flow_nil hr), h.late.step hs fun hp hle => ?_⟩
  have hlt : firmware.length < 2 ^ 32 := by simp only [maxSize, sectorSize] at hsize; omega
  have hr : y.receiver.isSome := by
    by_contra hnone
    have hidle := (h.idle (by simpa using hnone)).phase
    rw [hp] at hidle
    simp at hidle
  exact Device.written_of_count h.flow hlt (h.length hr) hle

theorem Tracks.unblock (h : Tracks firmware ws y) {d : Device} (hs : Steps y.device .unblock d) :
    Tracks firmware ws { y with device := d } := by
  have hl : d.fwLength = y.device.fwLength := by cases hs; rfl
  exact ⟨h.heard, by simpa using h.flow.step hs, fun hr => hl.trans (h.length hr),
    fun hr => (h.idle hr).step hs (h.flow_nil hr), h.late.other hs (by simp)⟩

end

section
variable {firmware : Bytes} {noise : Noise firmware} {ws : List Write} {y y' : Update} {w : Write}
  {us : List Write}

theorem Tracks.heard_next (h : Tracks firmware ws y) (hw : y.incoming = w :: us) :
    ∃ vs, ws = (vs ++ [w]) ++ us ∧ y.receiver = hear none vs ∧
      (receive y.receiver w).1 = hear none (vs ++ [w]) := by
  obtain ⟨vs, hvs, hr⟩ := h.heard
  refine ⟨vs, by rw [hvs, hw]; simp, hr, ?_⟩
  rw [hear_append, ← hr]
  rfl

/-- A package of which the application does not hear. -/
theorem Tracks.arrived (h : Tracks firmware ws y) (hw : y.incoming = w :: us) {r : Option Download}
    (hr : r = (receive y.receiver w).1) (hn : Notices y.receiver w r .nothing) :
    Tracks firmware ws ⟨us, r, y.device⟩ := by
  obtain ⟨vs, hvs, -, hhear⟩ := h.heard_next hw
  cases hn with
  | nothing _ himage hsome =>
    refine ⟨⟨vs ++ [w], hvs, hr.trans hhear⟩, ?_, fun hs => ?_, fun hs => ?_, h.late⟩
    · show Flow (imageOf r) y.device
      rw [himage]
      exact h.flow
    · exact h.length (hsome ▸ hs)
    · have hs : r = none := hs
      rw [hs] at hsome
      exact h.idle (by simpa using hsome.symm)

include noise in
/-- The START. -/
theorem Tracks.started (h : Tracks firmware ws y) (hsize : firmware.length ≤ maxSize)
    (hws : ws.Sublist noise.writes) (hw : y.incoming = w :: us) {n : Nat}
    (hr : some (.start n) = (receive y.receiver w).1) (hc : w.characteristic = .command)
    (hcmd : IsCommand w.packet) (hid : commandId w.packet = startOtaCmd) {d : Device}
    (hs : Steps y.device (.announce (UInt32.ofNat n)) d) : Tracks firmware ws ⟨us, some (.start n), d⟩ := by
  obtain ⟨vs, hvs, hold, hhear⟩ := h.heard_next hw
  have harrived : (vs ++ [w]).Sublist noise.writes := (List.sublist_append_left _ us).trans (hvs ▸ hws)
  have hnil : vs = [] := noise.start_first harrived hc hcmd hid
  have hnone : y.receiver = none := by rw [hold, hnil]; rfl
  have hn : n = firmware.length := (noise.heard hsize harrived (hhear ▸ hr.symm)).1
  have hflow : Flow [] d := by simpa using (h.flow_nil hnone).step hs
  have hlength : d.fwLength = UInt32.ofNat n := by cases hs; rfl
  exact ⟨⟨vs ++ [w], hvs, hr.trans hhear⟩, hflow, fun _ => hn ▸ hlength, by simp, h.late.other hs (by simp)⟩

/-- A sector. -/
theorem Tracks.accepted (h : Tracks firmware ws y) (hw : y.incoming = w :: us) {r : Download}
    (hr : some r = (receive y.receiver w).1) (hsome : y.receiver.isSome) {data : Bytes}
    (hlen : data.length ≤ sectorSize) (himage : r.image = imageOf y.receiver ++ data) {d : Device}
    (hs : Steps y.device (.otaRecvFwCb data) d) : Tracks firmware ws ⟨us, some r, d⟩ := by
  obtain ⟨vs, hvs, -, hhear⟩ := h.heard_next hw
  have hlength : d.fwLength = y.device.fwLength := by cases hs <;> rfl
  have hfits : data.length ≤ otaRingbufSize := by
    simp only [sectorSize] at hlen
    simp only [otaRingbufSize]
    omega
  have hflow := h.flow.step hs
  rw [Action.brings, if_pos hfits, ← himage] at hflow
  exact ⟨⟨vs ++ [w], hvs, hr.trans hhear⟩, hflow, fun _ => hlength.trans (h.length hsome), by simp,
    h.late.other hs (by simp)⟩

/-- **A step keeps track.** -/
theorem Tracks.step (h : Tracks firmware ws y) (hsize : firmware.length ≤ maxSize)
    (hws : ws.Sublist noise.writes) (e : UpdateEvent) : Tracks firmware ws (step y e) := by
  unfold Update.step
  cases he : y.step? e with
  | none => exact h
  | some y' =>
    rw [Option.getD_some]
    cases acts he with
    | arrived w us r hw _ hr hn => exact h.arrived hw hr hn
    | started w us n d hw hr hc hcmd hid hs => exact h.started hsize hws hw hr hc hcmd hid hs
    | accepted w us r data d hw hr hsome hlen himage hs => exact h.accepted hw hr hsome hlen himage hs
    | unblocked d hs => exact h.unblock hs
    | task c d hs => exact h.task hsize hs

/-- The bytes written are the first of the image received, which is the first of the firmware. -/
theorem Tracks.written_prefix (h : Tracks firmware ws y) (hsize : firmware.length ≤ maxSize)
    (hws : ws.Sublist noise.writes) :
    y.device.written <+: imageOf y.receiver ∧ imageOf y.receiver <+: firmware := by
  refine ⟨⟨y.device.pending, h.flow.bytes⟩, ?_⟩
  obtain ⟨vs, hvs, hr⟩ := h.heard
  cases hd : y.receiver with
  | none => exact List.nil_prefix
  | some d =>
    have harrived : vs.Sublist noise.writes := (List.sublist_append_left _ y.incoming).trans (hvs ▸ hws)
    exact noise.image_initial hsize harrived (hr ▸ hd)

/-- Once the task is past its loop, the firmware is received and written. -/
theorem Tracks.written_eq (h : Tracks firmware ws y) (hsize : firmware.length ≤ maxSize)
    (hws : ws.Sublist noise.writes)
    (hend : (y.device.phase.Left ∧ y.device.phase ≠ .failed) ∨ ∃ k ∈ y.device.calls, Finishes k) :
    y.device.written = firmware ∧ ∃ d, y.receiver = some d ∧ d.image = firmware := by
  obtain ⟨hwritten, himage⟩ := h.written_prefix hsize hws
  have hpre := hwritten.trans himage
  have hw : y.device.written = firmware := hpre.eq_of_length (Nat.le_antisymm hpre.length_le (h.late.le hend))
  refine ⟨hw, ?_⟩
  cases hr : y.receiver with
  | none => exact absurd hend (h.idle hr).not_ended
  | some d =>
    rw [hw, hr] at hwritten
    rw [hr] at himage
    exact ⟨d, rfl, himage.eq_of_length (Nat.le_antisymm himage.length_le hwritten.length_le)⟩

end

end Update

/-- **A finished update is the firmware.** Whatever the link loses, whichever single bits it flips, and however the
parties' steps interleave and the task's calls fail, the device writes the firmware from the front; and once
`esp_ota_end` or `esp_ota_set_boot_partition` is called, exactly the firmware is written. -/
theorem finishes_with_firmware {firmware : Bytes} (hsize : firmware.length ≤ maxSize) (noise : Noise firmware)
    {ws : List Write} (hws : ws.Sublist noise.writes) (es : List UpdateEvent) :
    let y : Update := run Update.step (.boot ws) es
    y.device.written <+: firmware ∧
      ((∃ k ∈ y.device.calls, Finishes k) → y.device.written = firmware) := by
  intro y
  have h : y.Tracks firmware ws :=
    run_invariant (Update.Tracks firmware ws) (fun _ e ht => ht.step hsize hws e) (.boot firmware ws) es
  obtain ⟨hwritten, himage⟩ := h.written_prefix hsize hws
  exact ⟨hwritten.trans himage, fun hfin => (h.written_eq hsize hws (.inr hfin)).1⟩

/-- A file of three bytes. -/
def three : Bytes := [7, 8, 9]

/-- One bit of the padding of its package is flipped on the way. -/
def paddingFlipped (i j : Nat) : Bytes := (firmwarePacket i three j).modify 300 (· ^^^ 0x20)

theorem garbles_paddingFlipped : ∀ i < sectorCount three, Garbles i (sectorOf three i) (paddingFlipped i) := by
  intro i hi
  have hcount : sectorCount three = 1 := by decide
  obtain rfl : i = 0 := by omega
  exact ⟨by decide +kernel, by decide +kernel, by decide +kernel⟩

def Noise.padding : Noise three :=
  { Noise.none three with packet := paddingFlipped, sector := garbles_paddingFlipped }

/-- What arrives of it when the STOP is lost, too. -/
def stopLost : List Write := Noise.padding.writes.dropLast

/-- The file in two items, to the end of the update. -/
def threeBytes : List UpdateEvent :=
  [.task (.begin Restarts.oneSlot), .arrive, .arrive, .task (.receive 2), .task (.write espOk), .task .returnItem,
    .task .compare, .task (.receive 1), .task (.write espOk), .task .returnItem, .task .compare,
    .task (.otaEnd espOk), .task (.setBoot espOk)]

theorem finishes_with_firmware_noisy :
    paddingFlipped 0 0 ≠ firmwarePacket 0 three 0 ∧
      (run Update.step (.boot stopLost) threeBytes).device.written = three := by
  refine ⟨by decide +kernel, ?_⟩
  exact (finishes_with_firmware (by decide) .padding (List.dropLast_sublist _) threeBytes).2
    ⟨.otaEnd 1 espOk, by decide +kernel, trivial⟩

end EspOta.Ble
