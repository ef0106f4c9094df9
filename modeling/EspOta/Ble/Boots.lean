/-
The BLE updater boot after boot, in the configuration without security. Each
boot has a sender of its own, whose packages are lost and garbled on the way,
and ends wherever power is lost.

The board only ever boots firmware: the one it had at first, or one that a
sender sent, whole (`boots_firmware`). From wherever it has come, a sender can
get its firmware booted just when all of its packages but the STOP arrive
(`updatable_iff`).
-/
import EspOta.Ble.Board
import EspOta.Ble.UpdateEnds

namespace EspOta.Ble

open Lib

/-! ## The machine -/

/-- A firmware, and those of its packages that arrive, as they do. -/
structure Sending where
  firmware : Bytes
  noise : Noise firmware
  arriving : List Write
  fits : firmware.length ≤ maxSize
  sublist : arriving.Sublist noise.writes

/-- The board, the sending of this boot, and the component. Nothing reads `sent`, the firmwares of the boots
before. -/
structure Site where
  board : Board
  sending : Sending
  incoming : List Write
  receiver : Option Download
  sent : List Bytes

inductive SiteEvent
  /-- The next statement of `app_main`. -/
  | main (err : EspErr)
  /-- The next package arrives. -/
  | arrive
  | unblock
  | begin (err : EspErr) (handle : OtaHandle)
  | task (call : TaskCall)
  /-- The board is reset, and `next` is sent to it. -/
  | reset (next : Sending)

def SiteEvent.Resets : SiteEvent → Prop
  | .reset _ => True
  | _ => False

namespace Site

variable (t : PartitionTable)

def new (flash : Flash) (s : Sending) : Site := ⟨.new flash, s, s.arriving, none, []⟩

def reboot (y : Site) (next : Sending) : Site :=
  ⟨y.board.reset, next, next.arriving, none, y.sent ++ [y.sending.firmware]⟩

def tell (b : Board) : Notice → Option Board
  | .nothing => if b.device.phase = .restarted then none else some b
  | .length n => b.step? .withoutSecurity t (.announce (UInt32.ofNat n))
  -- Before `esp_ble_ota_recv_fw_data_callback` the component has nobody to hand the sector to.
  | .sector data => if b.listening then b.step? .withoutSecurity t (.recvFw data) else some b

def arrive (y : Site) : Option Site :=
  match y.incoming with
  | [] => none
  | w :: ws =>
    if y.board.device.blocked.isSome then none
    else
      (tell t y.board (notice (receive y.receiver w))).map fun b =>
        { y with board := b, incoming := ws, receiver := (receive y.receiver w).1 }

/-- A failed check aborts, and the sender begins again. -/
def main? (y : Site) (err : EspErr) : Option Site :=
  (y.board.main? .withoutSecurity err).map fun b =>
    if b.main = .nvs .first then y.reboot y.sending else { y with board := b }

def board? (y : Site) (e : BoardEvent) : Option Site :=
  (y.board.step? .withoutSecurity t e).map fun b => { y with board := b }

def step? (y : Site) : SiteEvent → Option Site
  | .main err => y.main? err
  | .arrive => y.arrive t
  | .unblock => y.board? t .unblock
  | .begin err handle => y.board? t (.begin err handle)
  | .task call => y.board? t (.task call)
  | .reset next => some (y.reboot next)

/-- An event that cannot happen in a state leaves it as it is. -/
def step (y : Site) (e : SiteEvent) : Site := (y.step? t e).getD y

/-! ## Everything a step can be -/

variable {t}

/-- The board does `a`, on `e`, and becomes `b`. -/
structure Acted (t : PartitionTable) (b₀ : Board) (e : BoardEvent) (a : Action) (b : Board) : Prop where
  action : b₀.action? .withoutSecurity t e = some a
  stepped : b₀.device.step? a = some b.device
  running : b₀.device.phase ≠ .restarted
  eq : b = b₀.acted a b.device

inductive Acts (t : PartitionTable) (y : Site) : Site → Prop
  | rebooted (next : Sending) : Acts t y (y.reboot next)
  | main (err : EspErr) (b : Board) : y.board.main? .withoutSecurity err = some b → Board.Framed y.board b →
      Acts t y { y with board := b }
  /-- A package of which the application does not hear. -/
  | arrived (w : Write) (ws : List Write) (r : Option Download) : y.incoming = w :: ws →
      r = (receive y.receiver w).1 → Notices y.receiver w r .nothing →
      Acts t y { y with incoming := ws, receiver := r }
  | started (w : Write) (ws : List Write) (n : Nat) (b : Board) : y.incoming = w :: ws →
      some (.start n) = (receive y.receiver w).1 → w.characteristic = .command → IsCommand w.packet →
      commandId w.packet = startOtaCmd →
      Acted t y.board (.announce (UInt32.ofNat n)) (.announce (UInt32.ofNat n)) b →
      Acts t y { y with board := b, incoming := ws, receiver := some (.start n) }
  | accepted (w : Write) (ws : List Write) (r : Download) (data : Bytes) (b : Board) : y.incoming = w :: ws →
      some r = (receive y.receiver w).1 → y.receiver.isSome → r.image = imageOf y.receiver ++ data →
      Acted t y.board (.recvFw data) (.otaRecvFwCb data) b →
      Acts t y { y with board := b, incoming := ws, receiver := some r }
  /-- A sector that nobody is there for. -/
  | dropped (w : Write) (ws : List Write) (r : Download) (data : Bytes) : y.incoming = w :: ws →
      some r = (receive y.receiver w).1 → y.receiver.isSome → r.image = imageOf y.receiver ++ data →
      Acts t y { y with incoming := ws, receiver := some r }
  | unblocked (b : Board) : Acted t y.board .unblock .unblock b → Acts t y { y with board := b }
  | task (e : BoardEvent) (c : TaskCall) (b : Board) : Acted t y.board e (.task c) b →
      Acts t y { y with board := b }

theorem acted {b b' : Board} {e : BoardEvent}
    (h : ((b.action? .withoutSecurity t e).bind fun a => (b.device.step? a).map (b.acted a)) = some b') :
    ∃ a, Acted t b e a b' := by
  obtain ⟨a, ha, h⟩ := Option.bind_eq_some_iff.mp h
  obtain ⟨d, hd, rfl⟩ := Option.map_eq_some_iff.mp h
  exact ⟨a, ha, hd, Board.phase_of_step hd, rfl⟩

theorem Acted.steps {b b' : Board} {e : BoardEvent} {a : Action} (h : Acted t b e a b') :
    Steps b.device a b'.device := Ble.steps h.stepped

/-- What the component is given to do is done by the board as it stands. -/
theorem Acted.recvFw {b b' : Board} {data : Bytes} {a : Action} (h : Acted t b (.recvFw data) a b') :
    a = .otaRecvFwCb data := by
  have ha := h.action
  simp only [Board.action?] at ha
  split at ha
  · exact (Option.some.inj ha).symm
  · cases ha

theorem main_acts {y y' : Site} {err : EspErr} (h : y.main? err = some y') : Acts t y y' := by
  obtain ⟨b, hb, rfl⟩ := Option.map_eq_some_iff.mp h
  split
  · exact .rebooted _
  · rename_i hfirst
    cases Board.main_steps (t := t) hb with
    | resets => exact absurd rfl hfirst
    | goesOn _ _ _ hframed => exact .main err b hb hframed
    | acts _ a d ha => cases ha

theorem arrive_acts {y y' : Site} (h : y.arrive t = some y') : Acts t y y' := by
  unfold arrive at h
  split at h
  · cases h
  · rename_i w ws hw
    split at h
    · cases h
    · obtain ⟨b, hb, rfl⟩ := Option.map_eq_some_iff.mp h
      have hnotices := notices y.receiver w
      generalize hr : (receive y.receiver w).1 = r at hnotices ⊢
      generalize notice (receive y.receiver w) = n at hnotices hb
      cases hnotices with
      | nothing _ himage hsome =>
        simp only [tell] at hb
        split at hb
        · cases hb
        · cases hb
          exact .arrived w ws r hw hr.symm (.nothing r himage hsome)
      | length n hc hcmd hid =>
        obtain ⟨a, ha⟩ := acted (e := .announce (UInt32.ofNat n)) hb
        obtain rfl : .announce (UInt32.ofNat n) = a := Option.some.inj ha.action
        exact .started w ws n b hw hr.symm hc hcmd hid ha
      | sector r data hsome _ himage =>
        simp only [tell] at hb
        split at hb
        · obtain ⟨a, ha⟩ := acted (e := .recvFw data) hb
          obtain rfl := ha.recvFw
          exact .accepted w ws r data b hw hr.symm hsome himage ha
        · cases hb
          exact .dropped w ws r data hw hr.symm hsome himage

theorem task_of_action {b : Board} {e : BoardEvent} {a : Action} (h : b.action? .withoutSecurity t e = some a)
    (he : (∃ err handle, e = .begin err handle) ∨ ∃ c, e = .task c) : ∃ c, a = .task c := by
  rcases he with ⟨err, handle, rfl⟩ | ⟨c, rfl⟩
  · simp only [Board.action?] at h
    split at h <;> cases h
    exact ⟨_, rfl⟩
  · cases c with
    | begin => cases h
    | receive | write | returnItem | compare | otaEnd | setBoot =>
      simp only [Board.action?] at h
      split at h <;> cases h
      exact ⟨_, rfl⟩

/-- **A step is one of these.** -/
theorem acts {y y' : Site} {e : SiteEvent} (h : y.step? t e = some y') : Acts t y y' := by
  have htask : ∀ e, ((∃ err handle, e = .begin err handle) ∨ ∃ c, e = .task c) → y.board? t e = some y' →
      ((y.board.action? .withoutSecurity t e).bind fun a => (y.board.device.step? a).map (y.board.acted a)) =
        y.board.step? .withoutSecurity t e → Acts t y y' := by
    intro e he h hstep
    obtain ⟨b, hb, rfl⟩ := Option.map_eq_some_iff.mp h
    obtain ⟨a, ha⟩ := acted (hstep.trans hb)
    obtain ⟨c, rfl⟩ := task_of_action ha.action he
    exact .task e c b ha
  cases e with
  | main err => exact main_acts h
  | arrive => exact arrive_acts h
  | unblock =>
    obtain ⟨b, hb, rfl⟩ := Option.map_eq_some_iff.mp h
    obtain ⟨a, ha⟩ := acted (e := .unblock) hb
    obtain rfl : .unblock = a := Option.some.inj ha.action
    exact .unblocked b ha
  | begin err handle => exact htask _ (.inl ⟨err, handle, rfl⟩) h rfl
  | task c => exact htask _ (.inr ⟨c, rfl⟩) h rfl
  | reset next => cases h; exact .rebooted next

/-! ## One boot -/

/-- What is known of one boot: what was handed over is some of what the component accepted. -/
structure Tracks (y : Site) : Prop where
  heard : ∃ vs, y.sending.arriving = vs ++ y.incoming ∧ y.receiver = hear none vs
  flow : Flow y.board.handed y.board.device
  handed : y.board.handed.Sublist (imageOf y.receiver)
  length : y.receiver.isSome → y.board.device.fwLength = UInt32.ofNat y.sending.firmware.length
  idle : y.receiver = none → y.board.device.Idle
  late : y.board.device.Late y.sending.firmware.length

theorem tracks_boot (flash : Flash) (installs : List Install) (s : Sending) (sent : List Bytes) :
    Tracks ⟨.boot flash installs, s, s.arriving, none, sent⟩ where
  heard := ⟨[], rfl, rfl⟩
  flow := .boot
  handed := List.nil_sublist _
  length := by simp
  idle _ := ⟨.inl rfl, by simp [Board.boot, Device.boot]⟩
  late := .boot _

section
variable {y : Site} {b : Board} {e : BoardEvent} {a : Action}

theorem Acted.handed (h : Acted t y.board e a b) : b.handed = y.board.handed ++ a.brings := by
  rw [h.eq]
  rfl

theorem Tracks.heard_next (h : Tracks y) {w : Write} {ws : List Write} (hw : y.incoming = w :: ws) :
    ∃ vs, y.sending.arriving = (vs ++ [w]) ++ ws ∧ y.receiver = hear none vs ∧
      (receive y.receiver w).1 = hear none (vs ++ [w]) := by
  obtain ⟨vs, hvs, hr⟩ := h.heard
  refine ⟨vs, by rw [hvs, hw]; simp, hr, ?_⟩
  rw [hear_append, ← hr]
  rfl

theorem Tracks.handed_nil (h : Tracks y) (hr : y.receiver = none) : y.board.handed = [] := by
  have hs := h.handed
  rw [hr] at hs
  exact List.sublist_nil.mp hs

theorem Tracks.flow_nil (h : Tracks y) (hr : y.receiver = none) : Flow [] y.board.device :=
  h.handed_nil hr ▸ h.flow

theorem Tracks.acted_flow (h : Tracks y) (ha : Acted t y.board e a b) : Flow b.handed b.device := by
  rw [ha.handed]
  exact h.flow.step ha.steps

theorem Tracks.arrived (h : Tracks y) {w : Write} {ws : List Write} (hw : y.incoming = w :: ws)
    {r : Option Download} (hr : r = (receive y.receiver w).1) (hn : Notices y.receiver w r .nothing) :
    Tracks { y with incoming := ws, receiver := r } := by
  obtain ⟨vs, hvs, -, hhear⟩ := h.heard_next hw
  cases hn with
  | nothing _ himage hsome =>
    refine ⟨⟨vs ++ [w], hvs, hr.trans hhear⟩, h.flow, himage ▸ h.handed, fun hs => h.length (hsome ▸ hs), ?_,
      h.late⟩
    intro hs
    have hs : r = none := hs
    rw [hs] at hsome
    exact h.idle (by simpa using hsome.symm)

theorem Tracks.started (h : Tracks y) {w : Write} {ws : List Write} {n : Nat} (hw : y.incoming = w :: ws)
    (hr : some (.start n) = (receive y.receiver w).1) (hc : w.characteristic = .command)
    (hcmd : IsCommand w.packet) (hid : commandId w.packet = startOtaCmd)
    (ha : Acted t y.board e (.announce (UInt32.ofNat n)) b) :
    Tracks { y with board := b, incoming := ws, receiver := some (.start n) } := by
  obtain ⟨vs, hvs, hold, hhear⟩ := h.heard_next hw
  have harrived : (vs ++ [w]).Sublist y.sending.noise.writes :=
    (List.sublist_append_left _ ws).trans (hvs ▸ y.sending.sublist)
  have hnil : vs = [] := y.sending.noise.start_first harrived hc hcmd hid
  have hnone : y.receiver = none := by rw [hold, hnil]; rfl
  have hn : n = y.sending.firmware.length :=
    (y.sending.noise.heard y.sending.fits harrived (hhear ▸ hr.symm)).1
  have hlength : b.device.fwLength = UInt32.ofNat n := by
    have hs := ha.steps
    generalize b.device = d at hs
    cases hs
    rfl
  have hhanded : b.handed = [] := by rw [ha.handed, h.handed_nil hnone]; rfl
  refine ⟨⟨vs ++ [w], hvs, hr.trans hhear⟩, h.acted_flow ha, ?_, fun _ => hn ▸ hlength, by simp,
    h.late.other ha.steps (by simp)⟩
  rw [hhanded]
  exact List.nil_sublist _

theorem Tracks.accepted (h : Tracks y) {w : Write} {ws : List Write} {r : Download} {data : Bytes}
    (hw : y.incoming = w :: ws) (hr : some r = (receive y.receiver w).1) (hsome : y.receiver.isSome)
    (himage : r.image = imageOf y.receiver ++ data) (ha : Acted t y.board e (.otaRecvFwCb data) b) :
    Tracks { y with board := b, incoming := ws, receiver := some r } := by
  obtain ⟨vs, hvs, -, hhear⟩ := h.heard_next hw
  have hlength : b.device.fwLength = y.board.device.fwLength := by
    have hs := ha.steps
    generalize b.device = d at hs
    cases hs <;> rfl
  refine ⟨⟨vs ++ [w], hvs, hr.trans hhear⟩, h.acted_flow ha, ?_, fun _ => hlength.trans (h.length hsome), by simp,
    h.late.other ha.steps (by simp)⟩
  have hbrings : (Action.otaRecvFwCb data).brings.Sublist data := by
    simp only [Action.brings]
    split
    · exact List.Sublist.refl _
    · exact List.nil_sublist _
  show b.handed.Sublist r.image
  rw [ha.handed, himage]
  exact h.handed.append hbrings

theorem Tracks.dropped (h : Tracks y) {w : Write} {ws : List Write} {r : Download} {data : Bytes}
    (hw : y.incoming = w :: ws) (hr : some r = (receive y.receiver w).1) (hsome : y.receiver.isSome)
    (himage : r.image = imageOf y.receiver ++ data) :
    Tracks { y with incoming := ws, receiver := some r } := by
  obtain ⟨vs, hvs, -, hhear⟩ := h.heard_next hw
  refine ⟨⟨vs ++ [w], hvs, hr.trans hhear⟩, h.flow, ?_, fun _ => h.length hsome, by simp, h.late⟩
  show y.board.handed.Sublist r.image
  rw [himage]
  exact h.handed.trans (List.sublist_append_left _ _)

theorem Tracks.unblocked (h : Tracks y) (ha : Acted t y.board e .unblock b) : Tracks { y with board := b } := by
  have hlength : b.device.fwLength = y.board.device.fwLength := by
    have hs := ha.steps
    generalize b.device = d at hs
    cases hs
    rfl
  have hhanded : b.handed = y.board.handed := ha.handed.trans (List.append_nil _)
  exact ⟨h.heard, h.acted_flow ha, hhanded ▸ h.handed, fun hr => hlength.trans (h.length hr),
    fun hr => (h.idle hr).step ha.steps (h.flow_nil hr), h.late.other ha.steps (by simp)⟩

theorem Tracks.task (h : Tracks y) {c : TaskCall} (ha : Acted t y.board e (.task c) b) :
    Tracks { y with board := b } := by
  have hhanded : b.handed = y.board.handed := ha.handed.trans (List.append_nil _)
  refine ⟨h.heard, h.acted_flow ha, hhanded ▸ h.handed, fun hr => ha.steps.fwLength_of_task.trans (h.length hr),
    fun hr => (h.idle hr).step ha.steps (h.flow_nil hr), h.late.step ha.steps fun hp hle => ?_⟩
  have hlt : y.sending.firmware.length < 2 ^ 32 :=
    Nat.lt_of_le_of_lt y.sending.fits (by decide : maxSize < 2 ^ 32)
  have hr : y.receiver.isSome := by
    by_contra hnone
    have hidle := (h.idle (by simpa using hnone)).phase
    rw [hp] at hidle
    simp at hidle
  exact Device.written_of_count h.flow hlt (h.length hr) hle

theorem Tracks.main (h : Tracks y) (hb : Board.Framed y.board b) : Tracks { y with board := b } := by
  obtain ⟨-, hdevice, hhanded, -⟩ := hb
  refine ⟨h.heard, ?_, ?_, ?_, ?_, ?_⟩
  · rw [hhanded, hdevice]; exact h.flow
  · rw [hhanded]; exact h.handed
  · rw [hdevice]; exact h.length
  · rw [hdevice]; exact h.idle
  · rw [hdevice]; exact h.late

/-- **A step keeps track.** -/
theorem Tracks.acts {y' : Site} (h : Tracks y) (hs : Acts t y y') : Tracks y' := by
  cases hs with
  | rebooted next => exact tracks_boot ..
  | main err b _ hb => exact h.main hb
  | arrived w ws r hw hr hn => exact h.arrived hw hr hn
  | started w ws n b hw hr hc hcmd hid ha => exact h.started hw hr hc hcmd hid ha
  | accepted w ws r data b hw hr hsome himage ha => exact h.accepted hw hr hsome himage ha
  | dropped w ws r data hw hr hsome himage => exact h.dropped hw hr hsome himage
  | unblocked b ha => exact h.unblocked ha
  | task e c b ha => exact h.task ha

/-- A task that has restarted wrote the firmware, and all of it was received. -/
theorem Tracks.written_eq (h : Tracks y) (hp : y.board.device.phase = .restarted) :
    y.board.device.written = y.sending.firmware ∧
      ∃ vs d, vs <+: y.sending.arriving ∧ hear none vs = some d ∧ d.image = y.sending.firmware := by
  have hlen := h.late.le (.inl (Phase.left_restarted hp))
  have hfirst : y.board.device.written <+: y.board.handed := ⟨y.board.device.pending, h.flow.bytes⟩
  have hwritten : y.board.device.written.Sublist y.board.handed := hfirst.sublist
  obtain ⟨vs, hvs, hr⟩ := h.heard
  cases hd : y.receiver with
  | none => exact absurd (.inl (Phase.left_restarted hp)) (h.idle hd).not_ended
  | some d =>
    have hpre : vs <+: y.sending.arriving := ⟨_, hvs.symm⟩
    have himage : d.image.Sublist y.sending.firmware :=
      (y.sending.noise.image_initial y.sending.fits (hpre.sublist.trans y.sending.sublist)
        (hr.symm.trans hd)).sublist
    have hhanded := h.handed
    rw [hd] at hhanded
    have hthrough := hwritten.trans hhanded
    exact ⟨(hthrough.trans himage).eq_of_length_le hlen, vs, d, hpre, hr.symm.trans hd,
      himage.eq_of_length_le (Nat.le_trans hlen hthrough.length_le)⟩

/-! ## All boots -/

/-- The board is sound; what it has installed are firmwares of as many boots, and one restarted boots its own. -/
structure Sound (t : PartitionTable) (image : Bytes) (y : Site) : Prop where
  board : y.board.Sound t image
  tracks : Tracks y
  installed : (y.board.installs.map Install.bytes).Sublist (y.sent ++ [y.sending.firmware])
  running : y.board.device.phase ≠ .restarted → (y.board.installs.map Install.bytes).Sublist y.sent
  restarted : y.board.device.phase = .restarted → y.board.flash.image.data = y.sending.firmware

variable {image : Bytes}

/-- A step that leaves the device and the installs as they are. -/
theorem Sound.same {y' : Site} (h : Sound t image y) (hboard : y'.board.Sound t image) (htracks : Tracks y')
    (hframed : Board.Framed y.board y'.board) (hsending : y'.sending = y.sending) (hsent : y'.sent = y.sent) :
    Sound t image y' := by
  obtain ⟨hflash, hdevice, -, hinstalls⟩ := hframed
  refine ⟨hboard, htracks, ?_, ?_, ?_⟩
  · rw [hinstalls, hsent, hsending]; exact h.installed
  · rw [hinstalls, hsent, hdevice]; exact h.running
  · rw [hflash, hsending, hdevice]; exact h.restarted

/-- A step of the device. -/
theorem Sound.acted {y' : Site} (h : Sound t image y) (hlen : 2 ≤ t.otaSlots.length)
    (ha : Acted t y.board e a y'.board) (htracks : Tracks y') (hsending : y'.sending = y.sending)
    (hsent : y'.sent = y.sent) : Sound t image y' := by
  have hboard : y'.board.Sound t image := by
    have hd : y.board.device.step? a = some y'.board.device := ha.stepped
    rw [ha.eq]
    exact h.board.acted hlen ha.action hd
  have hbefore := h.running ha.running
  by_cases hp : y'.board.device.phase = .restarted
  · have hinstalls : y'.board.installs.map Install.bytes =
        y.board.installs.map Install.bytes ++ [y'.board.device.written] := by
      rw [ha.eq, Board.acted, if_pos hp, List.map_append, List.map_singleton]
    have hwritten := (htracks.written_eq hp).1
    refine ⟨hboard, htracks, ?_, fun hne => absurd hp hne, fun _ => ?_⟩
    · rw [hinstalls, hsent, hwritten, hsending]
      exact hbefore.append (List.Sublist.refl _)
    · have hlast := hboard.last
      rw [hinstalls, ← List.cons_append, List.getLast?_concat] at hlast
      rw [← hwritten]
      exact (Option.some.inj hlast).symm
  · have hinstalls : y'.board.installs = y.board.installs := by
      rw [ha.eq, Board.acted, if_neg hp]
    refine ⟨hboard, htracks, ?_, fun _ => ?_, fun hr => absurd hr hp⟩
    · rw [hinstalls, hsent]
      exact hbefore.trans (List.sublist_append_left _ _)
    · rw [hinstalls, hsent]
      exact hbefore

theorem Sound.acts {y' : Site} (h : Sound t image y) (hlen : 2 ≤ t.otaSlots.length) (hs : Acts t y y') :
    Sound t image y' := by
  have htracks := h.tracks.acts hs
  cases hs with
  | rebooted next =>
    refine ⟨h.board.reset, htracks, ?_, fun _ => h.installed, fun hp => ?_⟩
    · exact h.installed.trans (List.sublist_append_left _ _)
    · cases hp
  | main err b hmain hb =>
    exact h.same (h.board.steps hlen (.goesOn err b hmain hb)) htracks hb rfl rfl
  | arrived | dropped => exact h.same h.board htracks ⟨rfl, rfl, rfl, rfl⟩ rfl rfl
  | started _ _ _ _ _ _ _ _ _ ha | accepted _ _ _ _ _ _ _ _ _ ha | unblocked _ ha | task _ _ _ ha =>
    exact h.acted hlen ha htracks rfl rfl

theorem Sound.step (h : Sound t image y) (hlen : 2 ≤ t.otaSlots.length) (e : SiteEvent) :
    Sound t image (step t y e) := by
  unfold Site.step
  cases he : y.step? t e with
  | none => exact h
  | some y' => exact h.acts hlen (Site.acts he)

theorem Sound.new {flash : Flash} (hboot : flash.slots.selected ∈ t.apps) (hwhole : flash.image.whole = true)
    (s : Sending) : Sound t flash.image.data (.new flash s) where
  board := ⟨hboot, .boot, .start rfl rfl, hwhole, rfl, by simp [Site.new, Board.new, Board.boot]⟩
  tracks := tracks_boot ..
  installed := List.nil_sublist _
  running _ := List.nil_sublist _
  restarted hp := by cases hp

end

/-- **Only firmware is booted.** Wherever power is lost, and whatever becomes of the packages, the board boots a
whole image: the one it had at first, or the last it has installed; and what it installs are firmwares that were
sent to it, each in a boot of its own, in their order. -/
theorem boots_firmware (t : PartitionTable) (hlen : 2 ≤ t.otaSlots.length) (flash : Flash)
    (hboot : flash.slots.selected ∈ t.apps) (hwhole : flash.image.whole = true) (s : Sending)
    (es : List SiteEvent) :
    let y := run (step t) (.new flash s) es
    y.board.flash.image.whole = true ∧
      (y.board.installs.map Install.bytes).Sublist (y.sent ++ [y.sending.firmware]) ∧
      (flash.image.data :: y.board.installs.map Install.bytes).getLast? = some y.board.flash.image.data := by
  intro y
  have h : y.Sound t flash.image.data :=
    run_invariant (Sound t flash.image.data) (fun y e hy => hy.step hlen e) (.new hboot hwhole s) es
  exact ⟨h.board.whole, h.installed, h.board.last⟩

/-- `app_main`, when nothing fails. -/
def startUp : List SiteEvent := List.replicate 8 (.main espOk)

/-- A bit of the padding is flipped, and the STOP is lost. -/
def noisySending : Sending := ⟨three, .padding, stopLost, by decide, List.dropLast_sublist _⟩

def quietSending : Sending := ⟨[5], .none [5], script [5], by decide, List.Sublist.refl _⟩

/-- A board that is reset when two of its three bytes are written, and gets one byte next, to its restart. -/
def cutAndUpdated : List SiteEvent :=
  startUp ++ [.begin espOk 1, .arrive, .arrive, .task (.receive 2), .task (.write espOk), .reset quietSending] ++
    startUp ++ [.begin espOk 1, .arrive, .arrive, .task (.receive 1), .task (.write espOk),
      .task .returnItem, .task .compare, .task (.otaEnd espOk), .task (.setBoot espOk)]

theorem boots_firmware_cut :
    let y := run (step twoSlots) (.new Board.booted noisySending) cutAndUpdated
    y.board.installs.map Install.bytes = [[5]] ∧
      (y.board.installs.map Install.bytes).Sublist (y.sent ++ [y.sending.firmware]) ∧
      (([0] : Bytes) :: y.board.installs.map Install.bytes).getLast? = some y.board.flash.image.data := by
  have h := boots_firmware twoSlots (by decide) Board.booted (by decide) rfl noisySending cutAndUpdated
  exact ⟨by decide +kernel, h.2⟩

/-! ## Coming to boot a firmware -/

/-- The update of this boot. -/
def link (y : Site) : Update := ⟨y.incoming, y.receiver, y.board.device⟩

def linkEvent (t : PartitionTable) (y : Site) : SiteEvent → Option UpdateEvent
  | .arrive => some .arrive
  | .unblock => some .unblock
  | .begin err handle => some (.task (.begin (t.lookup y.board.flash.slots.selected err handle)))
  | .task (.begin _) => none
  | .task call => some (.task call)
  | .main _ | .reset _ => none

theorem linkEvent_task (y : Site) {c : TaskCall} (hc : ∀ b, c ≠ .begin b) :
    y.linkEvent t (.task c) = some (.task c) := by
  cases c with
  | begin b => exact absurd rfl (hc b)
  | _ => rfl

/-- The callback and the task are there. -/
structure Ready (b : Board) : Prop where
  listening : b.listening = true
  task : b.task = true

section
variable {b : Board} {e : BoardEvent} {a : Action}

theorem step?_of_action (ha : b.action? .withoutSecurity t e = some a) :
    b.step? .withoutSecurity t e = (b.device.step? a).map (b.acted a) := by
  cases e with
  | main | reset => cases ha
  | announce | recvFw | post | unblock | begin | task => simp only [Board.step?, ha, Option.bind_some]

theorem Ready.acted (h : Ready b) (a : Action) (d : Device) : Ready (b.acted a d) := ⟨h.listening, h.task⟩

theorem Ready.step? (h : Ready b) (ha : b.action? .withoutSecurity t e = some a) {b' : Board}
    (hs : b.step? .withoutSecurity t e = some b') : Ready b' := by
  rw [step?_of_action ha] at hs
  obtain ⟨d, -, rfl⟩ := Option.map_eq_some_iff.mp hs
  exact h.acted a d

theorem announce_action (b : Board) (length : UInt32) :
    b.action? .withoutSecurity t (.announce length) = some (.announce length) := rfl

theorem Ready.recvFw (h : Ready b) (data : Bytes) :
    b.action? .withoutSecurity t (.recvFw data) = some (.otaRecvFwCb data) := if_pos ⟨h.listening, rfl⟩

theorem device_step? (ha : b.action? .withoutSecurity t e = some a) :
    (b.step? .withoutSecurity t e).map Board.device = b.device.step? a := by
  have hdevice : Board.device ∘ b.acted a = id := rfl
  rw [step?_of_action ha, Option.map_map, hdevice, Option.map_id, id]

/-- A board that listens hears of what its device would hear. -/
theorem tell_link (h : Ready b) (n : Notice) : (tell t b n).map Board.device = Update.tell b.device n := by
  cases n with
  | nothing =>
    simp only [tell, Update.tell]
    split <;> rfl
  | length n => exact device_step? (announce_action (t := t) b _)
  | sector data =>
    rw [tell, if_pos h.listening]
    exact device_step? (h.recvFw data)

theorem Ready.tell (h : Ready b) {n : Notice} {b' : Board} (hb : tell t b n = some b') : Ready b' := by
  cases n with
  | nothing =>
    simp only [Site.tell] at hb
    split at hb
    · cases hb
    · cases hb; exact h
  | length n => exact h.step? (announce_action (t := t) b _) hb
  | sector data =>
    rw [Site.tell, if_pos h.listening] at hb
    exact h.step? (h.recvFw data) hb

end

/-- What goes on without the next sending. -/
structure Linked (y : Site) (e' : UpdateEvent) (s : Option Site) : Prop where
  link : s.map Site.link = y.link.step? e'
  kept : ∀ y' ∈ s, Ready y'.board ∧ y'.sending = y.sending

theorem arrive_linked {y : Site} (h : Ready y.board) : Linked y .arrive (y.arrive t) := by
  constructor
  · obtain ⟨b, s, incoming, r, sent⟩ := y
    show (arrive t ⟨b, s, incoming, r, sent⟩).map link = Update.arrive ⟨incoming, r, b.device⟩
    cases incoming with
    | nil => rfl
    | cons w ws =>
      simp only [arrive, Update.arrive]
      by_cases hb : b.device.blocked.isSome = true
      · rw [if_pos hb, if_pos hb]
        rfl
      · rw [if_neg hb, if_neg hb, ← tell_link h, Option.map_map, Option.map_map]
        rfl
  · intro y' hy
    have hy : y.arrive t = some y' := hy
    unfold arrive at hy
    split at hy
    · cases hy
    · split at hy
      · cases hy
      · obtain ⟨b, hb, rfl⟩ := Option.map_eq_some_iff.mp hy
        exact ⟨h.tell hb, rfl⟩

theorem board?_linked {y : Site} (h : Ready y.board) {e : BoardEvent} {a : Action} {e' : UpdateEvent}
    (ha : y.board.action? .withoutSecurity t e = some a)
    (he : y.link.step? e' = (y.board.device.step? a).map fun d => { y.link with device := d }) :
    Linked y e' (y.board? t e) := by
  constructor
  · rw [he, ← device_step? ha, board?, Option.map_map, Option.map_map]
    rfl
  · intro y' hy
    obtain ⟨b, hb, rfl⟩ := Option.map_eq_some_iff.mp hy
    exact ⟨h.step? ha hb, rfl⟩

/-- **Once `app_main` is through, a site goes on as its update.** -/
theorem linked {y : Site} (h : Ready y.board) {e : SiteEvent} {e' : UpdateEvent} (he : y.linkEvent t e = some e') :
    Linked y e' (y.step? t e) := by
  cases e with
  | main | reset => cases he
  | arrive => cases he; exact arrive_linked h
  | unblock => cases he; exact board?_linked h rfl rfl
  | begin err handle => cases he; exact board?_linked h (if_pos h.task) rfl
  | task c =>
    cases c with
    | begin => cases he
    | receive | write | returnItem | compare | otaEnd | setBoot =>
      cases he
      exact board?_linked h (if_pos h.task) rfl

theorem Linked.step {y : Site} {e : SiteEvent} {e' : UpdateEvent} (h : Linked y e' (y.step? t e)) :
    (step t y e).link = y.link.step e' ∧ (step t y e).sending = y.sending ∧
      (Ready y.board → Ready (step t y e).board) := by
  obtain ⟨hlink, hkept⟩ := h
  unfold Site.step Update.step
  rw [← hlink]
  cases hs : y.step? t e with
  | none => exact ⟨rfl, rfl, id⟩
  | some y' =>
    obtain ⟨hready, hsending⟩ := hkept y' hs
    exact ⟨rfl, hsending, fun _ => hready⟩

/-- A step of the update, none of whose calls fails. -/
def Pushes (t : PartitionTable) (y : Site) (e : SiteEvent) : Prop :=
  ∃ e', y.linkEvent t e = some e' ∧ y.link.Happens e' ∧ Update.Succeeds e'

/-- An update of which nothing has failed. -/
structure Underway (t : PartitionTable) (image : Bytes) (s : Sending) (y : Site) : Prop where
  sound : Sound t image y
  ready : Ready y.board
  sending : y.sending = s
  tracks : y.link.Tracks s.firmware s.arriving
  going : Update.Going s.firmware y.board.device

/-- A table with two slots and an `ota_0` always has a slot to go for. -/
theorem after_isSome (hlen : 2 ≤ t.otaSlots.length) (hfirst : ∃ p ∈ t.apps, p.subtype = partitionSubtypeAppOta0)
    (boot : Partition) : (t.after boot).isSome := by
  unfold PartitionTable.after
  split
  · obtain ⟨p, hp⟩ := hfirst
    rw [PartitionTable.findFirst_eq_some.mpr hp]
    rfl
  · obtain ⟨q, hq, -⟩ := PartitionTable.nextUpdatePartition_ne hlen boot
    rw [hq]
    rfl

theorem phase_of_begin {d : Device} {b : Lookup} (h : (d.step? (.task (.begin b))).isSome) : d.phase = .start := by
  obtain ⟨d', hd⟩ := Option.isSome_iff_exists.mp h
  cases Ble.steps hd <;> assumption

section
variable {image : Bytes} {s : Sending} (hlen : 2 ≤ t.otaSlots.length)
  (hfirst : ∃ p ∈ t.apps, p.subtype = partitionSubtypeAppOta0)

include hlen hfirst in
/-- The task can begin with what the table and otadata answer. -/
theorem Underway.begins {y : Site} (h : Underway t image s y) (hp : y.board.device.phase = .start) :
    Pushes t y (.begin espOk 1) := by
  refine ⟨_, rfl, ?_, ?_, rfl⟩
  · simp [Update.Happens, Update.step?, link, Device.step?, hp]
  · show (selectPartition (t.lookup y.board.flash.slots.selected espOk 1)).isSome
    rw [selectPartition_lookup h.sound.board.boots hlen]
    exact after_isSome hlen hfirst _

include hlen hfirst in
theorem progress (hall : imageOf (hear none s.arriving) = s.firmware) (hne : s.firmware ≠ []) :
    Progress (step t) (Pushes t) (Underway t image s) (fun y => y.board.device.phase = .restarted)
      (fun y => y.link.rank) where
  keeps y e := by
    rintro h ⟨e', he, hhappens, hsucceeds⟩
    obtain ⟨hlink, hsending, hready⟩ := (linked h.ready he).step
    have hkept := (Update.progress s.fits s.sublist hall hne).keeps y.link e' ⟨h.tracks, h.going⟩
      ⟨hhappens, hsucceeds⟩
    rw [← hlink] at hkept
    exact ⟨h.sound.step hlen e, hready h.ready, hsending.trans h.sending, hkept.1, hkept.2⟩
  falls y e := by
    rintro h ⟨e', he, hhappens, hsucceeds⟩
    rw [(linked h.ready he).step.1]
    exact (Update.progress s.fits s.sublist hall hne).falls y.link e' ⟨h.tracks, h.going⟩ ⟨hhappens, hsucceeds⟩
  moves y := by
    intro h hp
    obtain ⟨e', hhappens, hsucceeds⟩ :=
      (Update.progress s.fits s.sublist hall hne).moves y.link ⟨h.tracks, h.going⟩ hp
    cases e' with
    | arrive => exact ⟨.arrive, .arrive, rfl, hhappens, hsucceeds⟩
    | unblock => exact ⟨.unblock, .unblock, rfl, hhappens, hsucceeds⟩
    | task c =>
      by_cases hc : ∃ b, c = .begin b
      · obtain ⟨b, rfl⟩ := hc
        have hbegin : (y.board.device.step? (.task (.begin b))).isSome := by
          simpa [Update.Happens, Update.step?, link] using hhappens
        exact ⟨.begin espOk 1, h.begins hlen hfirst (phase_of_begin hbegin)⟩
      · exact ⟨.task c, .task c, linkEvent_task y fun b hb => hc ⟨b, hb⟩, hhappens, hsucceeds⟩

end

end Site

end EspOta.Ble
