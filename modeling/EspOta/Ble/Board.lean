/-
The BLE device over its boots: `app_main` statement by statement, in each
configuration, then the task and the component's callbacks, on a flash that
outlives them. A failed check and the loss of power end a boot, at any
statement and in the middle of an update.

Whatever happens the board boots a whole image: the one it had at first, or
what one boot wrote of the bytes handed over in it (`boots_whole`). In one
configuration there is never a task to write any (`task_starts_iff`).
-/
import EspOta.Flash
import EspOta.Nvs
import EspOta.Ble.Protocomm
import EspOta.Ble.TargetPartition

namespace EspOta.Ble

open Lib

/-! ## The configuration -/

/-- `CONFIG_EXAMPLE_OTA_SEC2_DEV_MODE` and `CONFIG_EXAMPLE_OTA_SEC2_PROD_MODE`. -/
inductive OtaMode | dev | prod
  deriving DecidableEq, Repr

inductive SecurityVersion
  | version1
  | version2 (mode : OtaMode)
  deriving DecidableEq, Repr

/-- `EXAMPLE_OTA_TYPE`. -/
inductive OtaType
  | withoutSecurity
  | protocomm (security : SecurityVersion)
  | preEnc
  deriving DecidableEq, Repr

def OtaType.isProtocomm : OtaType → Bool
  | .protocomm _ => true
  | .withoutSecurity | .preEnc => false

/-- What either of the two functions below returns; what it hands out is left aside. -/
def OtaMode.get : OtaMode → EspErr
  | .dev => espOk
  | .prod => espFail

def exampleGetSec2Salt (mode : OtaMode) : EspErr := mode.get
def exampleGetSec2Verifier (mode : OtaMode) : EspErr := mode.get

/-! ## The statements of `app_main` -/

/-- After the storage. -/
inductive Statement
  | ringbufInit
  | netifInit
  | eventLoopCreate
  /-- `event_handler` for `ESP_BLE_OTA_EVENT`, and for `PROTOCOMM_TRANSPORT_BLE_EVENT`. -/
  | registerBleOta
  | registerTransport
  | bleOtaInit
  | getSec2Salt (mode : OtaMode)
  | getSec2Verifier (mode : OtaMode)
  | bleOtaStart
  | memRelease
  | controllerInit
  | controllerEnable
  | hostInit
  | decryptStart
  | recvFwDataCallback
  | otaTaskInit
  deriving DecidableEq, Repr

def SecurityVersion.statements : SecurityVersion → List Statement
  | .version1 => []
  | .version2 mode => [.getSec2Salt mode, .getSec2Verifier mode]

def OtaType.statements : OtaType → List Statement
  | .withoutSecurity =>
    [.ringbufInit, .memRelease, .controllerInit, .controllerEnable, .hostInit, .recvFwDataCallback, .otaTaskInit]
  | .protocomm security =>
    [.ringbufInit, .netifInit, .eventLoopCreate, .registerBleOta, .registerTransport, .bleOtaInit] ++
      security.statements ++ [.bleOtaStart, .otaTaskInit]
  | .preEnc =>
    [.ringbufInit, .memRelease, .controllerInit, .controllerEnable, .hostInit, .decryptStart, .recvFwDataCallback,
      .otaTaskInit]

/-- What an error means to `app_main`: `ESP_ERROR_CHECK` aborts, a check of its own returns, or nobody asks. -/
inductive OnError | aborts | returns | goesOn
  deriving DecidableEq, Repr

namespace Statement

def onError : Statement → OnError
  | .ringbufInit | .controllerInit | .controllerEnable | .hostInit => .returns
  -- `vTaskDelete(NULL)`.
  | .decryptStart => .returns
  | .recvFwDataCallback | .otaTaskInit => .goesOn
  | .netifInit | .eventLoopCreate | .registerBleOta | .registerTransport | .bleOtaInit | .getSec2Salt _
  | .getSec2Verifier _ | .bleOtaStart | .memRelease => .aborts

/-- What the statement is answered, where what it calls is answered `err`; for `otaTaskInit`, `espOk` is `pdPASS`. -/
def answer : Statement → EspErr → EspErr
  | .getSec2Salt mode, _ => exampleGetSec2Salt mode
  | .getSec2Verifier mode, _ => exampleGetSec2Verifier mode
  | _, err => err

end Statement

/-! ## The machine -/

inductive Main
  | nvs (s : NvsInit)
  | body (rest : List Statement)
  deriving DecidableEq, Repr

/-- An image made the one to boot: the bytes written, of those handed over since the device booted. -/
structure Install where
  handed : Bytes
  bytes : Bytes
  deriving DecidableEq, Repr

/-- `ringbuf`, `listening` and `task`: the ring buffer, the callback or the event handler, and the task are there.
Nothing reads what was handed over, nor the installs. -/
structure Board where
  flash : Flash
  main : Main
  ringbuf : Bool
  listening : Bool
  task : Bool
  device : Device
  handed : Bytes
  installs : List Install

inductive BoardEvent
  /-- The next statement of `app_main`, and what it calls answers `err`. -/
  | main (err : EspErr)
  | announce (length : UInt32)
  /-- The component calls the callback it was given, or posts an event. -/
  | recvFw (buf : Bytes)
  | post (e : SystemEvent)
  | unblock
  /-- `ota_task` up to its loop; `esp_ota_begin` answers `err`. -/
  | begin (err : EspErr) (handle : OtaHandle)
  | task (call : TaskCall)
  /-- Power is lost, the device crashes, or `esp_restart` is done. -/
  | reset

namespace Board

def boot (flash : Flash) (installs : List Install) : Board :=
  ⟨flash.reset, .nvs .first, false, false, false, .boot, [], installs⟩

def new (flash : Flash) : Board := boot flash []

def reset (y : Board) : Board := boot y.flash y.installs

/-- A statement that does what it is for. -/
def done (y : Board) : Statement → Board
  | .ringbufInit => { y with ringbuf := true }
  | .registerBleOta | .recvFwDataCallback => { y with listening := true }
  | .otaTaskInit => { y with task := true }
  | _ => y

def main? (type : OtaType) (y : Board) (err : EspErr) : Option Board :=
  match y.main with
  | .nvs s =>
    match s.next err with
    | .ready => some { y with main := .body type.statements }
    | .aborted => some y.reset
    | s' => some { y with main := .nvs s' }
  | .body [] => none
  | .body (st :: rest) =>
    if st.answer err = espOk then some ({ y with main := .body rest }.done st)
    else
      match st.onError with
      | .aborts => some y.reset
      | .returns => some { y with main := .body [] }
      | .goesOn => some { y with main := .body rest }

/-- What the device does. -/
def action? (type : OtaType) (t : PartitionTable) (y : Board) : BoardEvent → Option Action
  | .announce length => some (.announce length)
  | .recvFw buf => if y.listening ∧ !type.isProtocomm then some (.otaRecvFwCb buf) else none
  | .post e => if y.listening ∧ type.isProtocomm then (eventHandler e).map .otaRecvFwCb else none
  | .unblock => some .unblock
  | .begin err handle =>
    if y.task then some (.task (.begin (t.lookup y.flash.slots.selected err handle))) else none
  | .task (.begin _) => none
  | .task call => if y.task then some (.task call) else none
  | .main _ | .reset => none

/-- The calls `d'` has made more than `d`. -/
def newCalls (d d' : Device) : List Call := d'.calls.drop d.calls.length

def acted (y : Board) (a : Action) (d : Device) : Board :=
  let handed := y.handed ++ a.brings
  { y with
    flash := run Flash.call y.flash (newCalls y.device d)
    device := d
    handed
    installs := if d.phase = .restarted then y.installs ++ [⟨handed, d.written⟩] else y.installs }

def step? (type : OtaType) (t : PartitionTable) (y : Board) : BoardEvent → Option Board
  | .main err => y.main? type err
  | .reset => some y.reset
  | e => (y.action? type t e).bind fun a => (y.device.step? a).map (y.acted a)

/-- An event that cannot happen in a state leaves it as it is. -/
def step (type : OtaType) (t : PartitionTable) (y : Board) (e : BoardEvent) : Board := (y.step? type t e).getD y

/-! ## The task and the flash -/

@[simp] theorem newCalls_self (d : Device) {d' : Device} (h : d'.calls = d.calls) : newCalls d d' = [] := by
  simp [newCalls, h]

@[simp] theorem newCalls_snoc (d : Device) {d' : Device} {c : Call} (h : d'.calls = d.calls ++ [c]) :
    newCalls d d' = [c] := by
  simp [newCalls, h]

/-- The slot `ota_task` goes for is not the one otadata boots. -/
theorem after_idle {t : PartitionTable} (hlen : 2 ≤ t.otaSlots.length) {boot p : Partition}
    (h : t.after boot = some p) : p ∈ t.apps ∧ p ≠ boot := by
  unfold PartitionTable.after at h
  split at h
  · rename_i hf
    obtain ⟨hp, hsub⟩ := PartitionTable.findFirst_eq_some.mp h
    refine ⟨hp, fun he => ?_⟩
    rw [he, hf] at hsub
    exact absurd hsub (by decide)
  · obtain ⟨q, hq, hne⟩ := PartitionTable.nextUpdatePartition_ne hlen boot
    obtain rfl : q = p := Option.some.inj (hq.symm.trans h)
    exact ⟨PartitionTable.mem_apps_of_mem_otaSlots (PartitionTable.nextUpdatePartition_mem h), hne⟩

/-- Where the task is with the slot it writes. -/
inductive Under (t : PartitionTable) (f : Flash) (d : Device) : Prop
  | start : d.phase = .start → d.calls = [] → Under t f d
  | out : d.phase = .failed ∨ d.phase = .restarted → Under t f d
  | writing (p : Partition) : d.phase ∈ [.receiving, .writing, .returning, .comparing, .ending] → p ∈ t.apps →
      d.partition = some p → f.handles d.outHandle = some p → f.Holds p ⟨d.written, false⟩ → Under t f d
  | ended (p : Partition) : d.phase = .settingBoot → p ∈ t.apps → d.partition = some p →
      f.Holds p ⟨d.written, true⟩ → Under t f d

section
variable {t : PartitionTable} {f : Flash} {d d' : Device}

theorem Under.of_inLoop (h : Under t f d) (hp : d.phase ∈ [.receiving, .writing, .returning, .comparing, .ending]) :
    ∃ p ∈ t.apps, d.partition = some p ∧ f.handles d.outHandle = some p ∧ f.Holds p ⟨d.written, false⟩ := by
  cases h with
  | start hs => simp [hs] at hp
  | out hout => rcases hout with hout | hout <;> simp [hout] at hp
  | writing p _ hmem hq hh hholds => exact ⟨p, hmem, hq, hh, hholds⟩
  | ended p he => simp [he] at hp

theorem Under.of_start (h : Under t f d) (hp : d.phase = .start) : d.calls = [] := by
  cases h with
  | start _ hcalls => exact hcalls
  | out hout => rcases hout with hout | hout <;> simp [hout] at hp
  | writing p hin => simp [hp] at hin
  | ended p he => simp [hp] at he

theorem Under.of_settingBoot (h : Under t f d) (hp : d.phase = .settingBoot) :
    ∃ p ∈ t.apps, d.partition = some p ∧ f.Holds p ⟨d.written, true⟩ := by
  cases h with
  | start hs => simp [hs] at hp
  | out hout => rcases hout with hout | hout <;> simp [hout] at hp
  | writing p hin => simp [hp] at hin
  | ended p _ hmem hq hholds => exact ⟨p, hmem, hq, hholds⟩

/-- A step that leaves the task and its calls as they are. -/
theorem Under.congr (h : Under t f d) (hphase : d'.phase = d.phase) (hpartition : d'.partition = d.partition)
    (hhandle : d'.outHandle = d.outHandle) (hcalls : d'.calls = d.calls) : Under t f d' := by
  have hwritten : d'.written = d.written := by rw [Device.written, hcalls]; rfl
  cases h with
  | start hs hnone => exact .start (hphase.trans hs) (hcalls.trans hnone)
  | out hout => exact .out (hphase ▸ hout)
  | writing p hin hmem hq hh hholds =>
    exact .writing p (hphase ▸ hin) hmem (hpartition ▸ hq) (hhandle ▸ hh) (hwritten ▸ hholds)
  | ended p he hmem hq hholds => exact .ended p (hphase.trans he) hmem (hpartition.trans hq) (hwritten ▸ hholds)

/-- A step between two states of the loop, without a call. -/
theorem Under.inLoop (h : Under t f d) (hp : d.phase ∈ [.receiving, .writing, .returning, .comparing, .ending])
    (hp' : d'.phase ∈ [.receiving, .writing, .returning, .comparing, .ending]) (hpartition : d'.partition = d.partition)
    (hhandle : d'.outHandle = d.outHandle) (hcalls : d'.calls = d.calls) : Under t f d' := by
  obtain ⟨p, hmem, hq, hh, hholds⟩ := h.of_inLoop hp
  have hwritten : d'.written = d.written := by rw [Device.written, hcalls]; rfl
  exact .writing p hp' hmem (hpartition ▸ hq) (hhandle ▸ hh) (hwritten ▸ hholds)

/-- What a step leaves: what the board boots is as before, until the task sets the boot partition. -/
inductive Left (t : PartitionTable) (f : Flash) (d' : Device) (f' : Flash) : Prop
  | same : d'.phase ≠ .restarted → f'.image = f.image → f'.slots.selected = f.slots.selected → Under t f' d' →
      Left t f d' f'
  | replaced : d'.phase = .restarted → f'.image = ⟨d'.written, true⟩ → f'.slots.selected ∈ t.apps → Left t f d' f'

/-- A step without a call. -/
theorem Left.quiet (hp : d'.phase ≠ .restarted) (hcalls : d'.calls = d.calls) (h : Under t f d') :
    Left t f d' (run Flash.call f (newCalls d d')) := by
  rw [newCalls_self d hcalls]
  exact .same hp rfl rfl h

/-- A step with one careful call, which is not the last. -/
theorem Left.careful {c : Call} (hp : d'.phase ≠ .restarted) (hcalls : d'.calls = d.calls ++ [c]) (hc : f.Careful c)
    (hne : ∀ p, c ≠ .setBootPartition (some p) espOk) (h : Under t (f.call c) d') :
    Left t f d' (run Flash.call f (newCalls d d')) := by
  rw [newCalls_snoc d hcalls]
  exact .same hp (hc.kept hne).1 (hc.kept hne).2 h

/-- **A step of the device keeps what the board boots whole.** -/
theorem Under.step {a : Action} (h : Under t f d) (hs : Steps d a d') (hrunning : d.phase ≠ .restarted)
    (hbegin : ∀ b p, a = .task (.begin b) → selectPartition b = some p → p ∈ t.apps ∧ p ≠ f.slots.selected) :
    Left t f d' (run Flash.call f (newCalls d d')) := by
  cases hs with
  | announced | refused | sent | blocks | unblocked => exact .quiet hrunning rfl (h.congr rfl rfl rfl rfl)
  | notSelected => exact .quiet (by simp) rfl (.out (.inl rfl))
  | notBegun b p _ hsel =>
    obtain ⟨hmem, hne⟩ := hbegin b p rfl hsel
    refine .careful (by simp) rfl (fun op hop => ?_) (by simp) (.out (.inl rfl))
    cases hop
    exact hne
  | begun b p hp hsel =>
    obtain ⟨hmem, hne⟩ := hbegin b p rfl hsel
    have hholds : f.Holds p (f.slots.slot p) := ⟨hne, rfl⟩
    refine .careful (by simp) rfl (fun op hop => ?_) (by simp) ?_
    · cases hop
      exact hne
    · refine .writing p (by simp) hmem rfl (f.handles_begun p b.beginHandle) ?_
      simpa [Device.written, Call.written, h.of_start hp] using hholds.begun espOk b.beginHandle
  | received n r hp hr | returned hp | again hp | complete hp =>
    exact .quiet (by simp) rfl (h.inLoop (by simp [hp]) (by simp) rfl rfl rfl)
  | writeFailed err hp =>
    obtain ⟨p, hmem, hq, hh, hholds⟩ := h.of_inLoop (by simp [hp])
    exact .careful (by simp) rfl (hholds.careful hh _ err).1 (by simp) (.out (.inl rfl))
  | wrote hp =>
    obtain ⟨p, hmem, hq, hh, hholds⟩ := h.of_inLoop (by simp [hp])
    refine .careful (by simp) rfl (hholds.careful hh _ espOk).1 (by simp) (.writing p (by simp) hmem hq hh ?_)
    have hwritten := hholds.written hh d.ring.item
    simpa [Device.written, Call.written] using hwritten
  | endFailed err hp =>
    obtain ⟨p, hmem, hq, hh, hholds⟩ := h.of_inLoop (by simp [hp])
    exact .careful (by simp) rfl (hholds.careful hh [] err).2 (by simp) (.out (.inl rfl))
  | ended hp =>
    obtain ⟨p, hmem, hq, hh, hholds⟩ := h.of_inLoop (by simp [hp])
    refine .careful (by simp) rfl (hholds.careful hh [] espOk).2 (by simp) (.ended p rfl hmem hq ?_)
    simpa [Device.written, Call.written] using hholds.ended hh
  | bootFailed err hp he =>
    refine .careful (by simp) rfl (fun op hop => ?_) (by simp [he]) (.out (.inl rfl))
    simp [Flash.op?, he] at hop
  | bootSet hp =>
    obtain ⟨p, hmem, hq, hholds⟩ := h.of_settingBoot hp
    rw [newCalls_snoc d rfl, hq]
    refine .replaced rfl ?_ hmem
    simpa [Device.written, Call.written] using hholds.booted

theorem phase_of_step {a : Action} (h : d.step? a = some d') : d.phase ≠ .restarted := by
  intro hp
  simp [Device.step?, hp] at h

end

/-! ## Everything a step can be -/

/-- The step is one of `app_main`: the device, the flash and the books are as they were. -/
structure Framed (y y' : Board) : Prop where
  flash : y'.flash = y.flash
  device : y'.device = y.device
  handed : y'.handed = y.handed
  installs : y'.installs = y.installs

inductive Steps (type : OtaType) (t : PartitionTable) (y : Board) : BoardEvent → Board → Prop
  | resets (e : BoardEvent) : Steps type t y e y.reset
  | goesOn (err : EspErr) (y' : Board) : y.main? type err = some y' → Framed y y' → Steps type t y (.main err) y'
  | acts (e : BoardEvent) (a : Action) (d : Device) : y.action? type t e = some a → y.device.step? a = some d →
      Steps type t y e (y.acted a d)

theorem done_framed (y : Board) (rest : List Statement) (st : Statement) :
    Framed y ({ y with main := .body rest }.done st) := by
  cases st <;> exact ⟨rfl, rfl, rfl, rfl⟩

theorem main_steps {type : OtaType} {t : PartitionTable} {y y' : Board} {err : EspErr}
    (h : y.main? type err = some y') : Steps type t y (.main err) y' := by
  have hgoes : Framed y y' → Steps type t y (.main err) y' := .goesOn err y' h
  unfold main? at h
  split at h
  · split at h
    · cases h; exact hgoes ⟨rfl, rfl, rfl, rfl⟩
    · cases h; exact .resets _
    · cases h; exact hgoes ⟨rfl, rfl, rfl, rfl⟩
  · cases h
  · split at h
    · cases h; exact hgoes (done_framed ..)
    · split at h
      · cases h; exact .resets _
      · cases h; exact hgoes ⟨rfl, rfl, rfl, rfl⟩
      · cases h; exact hgoes ⟨rfl, rfl, rfl, rfl⟩

theorem acts_steps {type : OtaType} {t : PartitionTable} {y y' : Board} {e : BoardEvent}
    (h : ((y.action? type t e).bind fun a => (y.device.step? a).map (y.acted a)) = some y') :
    Steps type t y e y' := by
  obtain ⟨a, ha, h⟩ := Option.bind_eq_some_iff.mp h
  obtain ⟨d, hd, rfl⟩ := Option.map_eq_some_iff.mp h
  exact .acts e a d ha hd

/-- **A step is one of these.** -/
theorem steps {type : OtaType} {t : PartitionTable} {y y' : Board} {e : BoardEvent}
    (h : y.step? type t e = some y') : Steps type t y e y' := by
  cases e with
  | main err => exact main_steps h
  | reset => cases h; exact .resets _
  | announce | recvFw | post | unblock | begin | task => exact acts_steps h

/-- What the task begins with is answered from the table and otadata. -/
theorem begin_of_action {type : OtaType} {t : PartitionTable} {y : Board} {e : BoardEvent} {b : Lookup}
    (h : y.action? type t e = some (.task (.begin b))) :
    ∃ err handle, b = t.lookup y.flash.slots.selected err handle := by
  cases e with
  | main | reset | announce | unblock => cases h
  | recvFw buf =>
    simp only [action?] at h
    split at h <;> cases h
  | post e =>
    simp only [action?] at h
    split at h
    · obtain ⟨chunk, -, hchunk⟩ := Option.map_eq_some_iff.mp h
      cases hchunk
    · cases h
  | begin err handle =>
    simp only [action?] at h
    split at h
    · cases h; exact ⟨err, handle, rfl⟩
    · cases h
  | task call =>
    cases call with
    | begin => cases h
    | receive | write | returnItem | compare | otaEnd | setBoot =>
      simp only [action?] at h
      split at h <;> cases h

/-! ## What the board boots -/

/-- The board boots a whole image, the last of those it had at first and installed. -/
structure Sound (t : PartitionTable) (image : Bytes) (y : Board) : Prop where
  boots : y.flash.slots.selected ∈ t.apps
  flow : Flow y.handed y.device
  under : Under t y.flash y.device
  whole : y.flash.image.whole = true
  last : (image :: y.installs.map Install.bytes).getLast? = some y.flash.image.data
  handed : ∀ i ∈ y.installs, i.bytes <+: i.handed

section
variable {type : OtaType} {t : PartitionTable} {image : Bytes} {y y' : Board}

theorem Sound.reset (h : Sound t image y) : Sound t image y.reset where
  boots := h.boots
  flow := .boot
  under := .start rfl rfl
  whole := h.whole
  last := h.last
  handed := h.handed

theorem Sound.acted (h : Sound t image y) (hlen : 2 ≤ t.otaSlots.length) {e : BoardEvent} {a : Action} {d : Device}
    (ha : y.action? type t e = some a) (hd : y.device.step? a = some d) : Sound t image (y.acted a d) := by
  have hs := Ble.steps hd
  have hflow := h.flow.step hs
  have hbegin : ∀ b p, a = .task (.begin b) → selectPartition b = some p →
      p ∈ t.apps ∧ p ≠ y.flash.slots.selected := by
    intro b p hb hsel
    obtain ⟨err, handle, rfl⟩ := begin_of_action (hb ▸ ha)
    rw [selectPartition_lookup h.boots hlen] at hsel
    exact after_idle hlen hsel
  cases h.under.step hs (phase_of_step hd) hbegin with
  | same hp himage hselected hunder =>
    have hinstalls : (y.acted a d).installs = y.installs := if_neg hp
    refine ⟨?_, hflow, hunder, ?_, ?_, ?_⟩
    · exact hselected ▸ h.boots
    · exact himage ▸ h.whole
    · rw [hinstalls]; exact himage ▸ h.last
    · rw [hinstalls]; exact h.handed
  | replaced hp himage hselected =>
    have hinstalls : (y.acted a d).installs = y.installs ++ [⟨y.handed ++ a.brings, d.written⟩] := if_pos hp
    refine ⟨hselected, hflow, .out (.inr hp), ?_, ?_, ?_⟩
    · show (run Flash.call y.flash (newCalls y.device d)).image.whole = true
      rw [himage]
    · show _ = some (run Flash.call y.flash (newCalls y.device d)).image.data
      rw [himage, hinstalls, List.map_append, ← List.cons_append, List.map_singleton, List.getLast?_concat]
    · rw [hinstalls]
      intro i hi
      rcases List.mem_append.mp hi with hi | hi
      · exact h.handed i hi
      · rw [List.mem_singleton.mp hi]
        exact ⟨d.pending, hflow.bytes⟩

theorem Sound.steps (h : Sound t image y) (hlen : 2 ≤ t.otaSlots.length) {e : BoardEvent} (hs : Steps type t y e y') :
    Sound t image y' := by
  cases hs with
  | resets => exact h.reset
  | acts e a d ha hd => exact h.acted hlen ha hd
  | goesOn err y' hmain hframed =>
    obtain ⟨hflash, hdevice, hhanded, hinstalls⟩ := hframed
    refine ⟨hflash ▸ h.boots, ?_, ?_, hflash ▸ h.whole, ?_, hinstalls ▸ h.handed⟩
    · rw [hhanded, hdevice]; exact h.flow
    · rw [hflash, hdevice]; exact h.under
    · rw [hinstalls, hflash]; exact h.last

theorem Sound.step (h : Sound t image y) (hlen : 2 ≤ t.otaSlots.length) (e : BoardEvent) :
    Sound t image (step type t y e) := by
  unfold Board.step
  cases hs : y.step? type t e with
  | none => exact h
  | some y' => exact h.steps hlen (Board.steps hs)

end

/-- **Cut off anywhere, the board boots a whole image**: the one it had at first, or the last that one boot wrote of
the bytes handed over in it, from the first on. -/
theorem boots_whole (type : OtaType) (t : PartitionTable) (hlen : 2 ≤ t.otaSlots.length) (flash : Flash)
    (hboot : flash.slots.selected ∈ t.apps) (hwhole : flash.image.whole = true) (es : List BoardEvent) :
    let y := run (step type t) (.new flash) es
    y.flash.image.whole = true ∧
      (flash.image.data :: y.installs.map Install.bytes).getLast? = some y.flash.image.data ∧
      ∀ i ∈ y.installs, i.bytes <+: i.handed := by
  intro y
  have h : Sound t flash.image.data y := by
    refine run_invariant (Sound t flash.image.data) (fun y e hy => hy.step hlen e) ?_ es
    exact ⟨hboot, .boot, .start rfl rfl, hwhole, rfl, by simp [new, boot]⟩
  exact ⟨h.whole, h.last, h.handed⟩

/-- A boot of the configuration without security, up to its task. -/
def startsTask : List BoardEvent := List.replicate 8 (.main espOk)

/-- One update of two bytes, to its restart; the next is cut off when its bytes are written. -/
def cutUpdate : List BoardEvent :=
  startsTask ++ [.begin espOk 1, .announce 2, .recvFw [1, 2], .task (.receive 2), .task (.write espOk),
    .task .returnItem, .task .compare, .task (.otaEnd espOk), .task (.setBoot espOk), .reset] ++
  startsTask ++ [.begin espOk 1, .announce 2, .recvFw [3, 4], .task (.receive 2), .task (.write espOk), .reset]

/-- `ota_0` holds a whole image of one byte, and is booted. -/
def booted : Flash := ⟨⟨fun _ => ⟨[0], true⟩, ⟨0, 0x10, 0x110000⟩⟩, fun _ => none⟩

theorem boots_whole_cut : (run (step .withoutSecurity twoSlots) (.new booted) cutUpdate).flash.image.data = [1, 2] := by
  have hwhole := boots_whole .withoutSecurity twoSlots (by decide) booted (by decide) rfl cutUpdate
  have hinstalls : (run (step .withoutSecurity twoSlots) (.new booted) cutUpdate).installs = [⟨[1, 2], [1, 2]⟩] := by
    decide +kernel
  have hlast := hwhole.2.1
  rw [hinstalls] at hlast
  exact (Option.some.inj hlast).symm

/-! ## Coming to the task -/

/-- `app_main` ends before it comes to the task. -/
def Barred : List Statement → Prop
  | [] => True
  | st :: rest => (∀ err, st.answer err ≠ espOk ∧ st.onError ≠ .goesOn) ∨ (st ≠ .otaTaskInit ∧ Barred rest)

theorem barred_prod : Barred (OtaType.protocomm (.version2 .prod)).statements := by
  simp [OtaType.statements, SecurityVersion.statements, Barred, Statement.answer, Statement.onError,
    exampleGetSec2Salt, OtaMode.get, espFail, espOk]

structure NoTask (y : Board) : Prop where
  task : y.task = false
  body : ∀ rest, y.main = .body rest → Barred rest

theorem NoTask.main? {type : OtaType} {y y' : Board} {err : EspErr} (htype : Barred type.statements) (h : NoTask y)
    (hs : y.main? type err = some y') : NoTask y' := by
  unfold Board.main? at hs
  split at hs
  · split at hs
    · cases hs
      exact ⟨h.task, fun rest hrest => by cases hrest; exact htype⟩
    · cases hs
      exact ⟨rfl, by simp [Board.reset, Board.boot]⟩
    · cases hs
      exact ⟨h.task, by simp⟩
  · cases hs
  · rename_i st rest hmain
    have hbarred := h.body _ hmain
    split at hs
    · rename_i hok
      cases hs
      rcases hbarred with hstops | ⟨hne, hrest⟩
      · exact absurd hok (hstops err).1
      · cases st with
        | otaTaskInit => exact absurd rfl hne
        | _ => exact ⟨h.task, fun rest' hrest' => by cases hrest'; exact hrest⟩
    · split at hs
      · cases hs
        exact ⟨rfl, by simp [Board.reset, Board.boot]⟩
      · cases hs
        exact ⟨h.task, fun rest' hrest' => by cases hrest'; trivial⟩
      · rename_i hgoes
        cases hs
        rcases hbarred with hstops | ⟨-, hrest⟩
        · exact absurd hgoes (hstops err).2
        · exact ⟨h.task, fun rest' hrest' => by cases hrest'; exact hrest⟩

theorem NoTask.step {type : OtaType} {t : PartitionTable} {y : Board} (htype : Barred type.statements) (h : NoTask y)
    (e : BoardEvent) : NoTask (step type t y e) := by
  unfold Board.step
  cases hs : y.step? type t e with
  | none => exact h
  | some y' =>
    cases Board.steps hs with
    | resets => exact ⟨rfl, by simp [Board.reset, Board.boot]⟩
    | goesOn err y' hmain => exact h.main? htype hmain
    | acts e a d => exact ⟨h.task, h.body⟩

/-- **There is a task to be started in every configuration but one**: in the production mode of security version 2
every boot ends before. -/
theorem task_starts_iff (type : OtaType) (t : PartitionTable) (flash : Flash) :
    (∃ es, (run (step type t) (.new flash) es).task = true) ↔ type ≠ .protocomm (.version2 .prod) := by
  constructor
  · rintro ⟨es, hes⟩ rfl
    have h : NoTask (run (step (.protocomm (.version2 .prod)) t) (.new flash) es) :=
      run_invariant NoTask (fun y e hy => hy.step barred_prod e) ⟨rfl, by simp [new, boot]⟩ es
    rw [h.task] at hes
    cases hes
  · intro hne
    refine ⟨List.replicate (1 + type.statements.length) (.main espOk), ?_⟩
    cases type with
    | withoutSecurity | preEnc => rfl
    | protocomm security =>
      cases security with
      | version1 => rfl
      | version2 mode =>
        cases mode with
        | dev => rfl
        | prod => exact absurd rfl hne

/-! ## The ring buffer -/

/-- The ring buffer is there for whoever uses it, and is what `app_main` begins with. -/
structure Ready (y : Board) : Prop where
  used : y.listening = true ∨ y.task = true → y.ringbuf = true
  body : ∀ rest, y.main = .body rest → y.ringbuf = true ∨ rest = [] ∨ rest.head? = some .ringbufInit

theorem ready_boot (flash : Flash) (installs : List Install) : Ready (boot flash installs) := by
  refine ⟨?_, ?_⟩ <;> simp [boot]

theorem head_statements (type : OtaType) : type.statements.head? = some .ringbufInit := by
  cases type <;> rfl

theorem Ready.done {y : Board} (h : Ready y) {st : Statement} {rest : List Statement} (hmain : y.main = .body (st :: rest)) :
    Ready ({ y with main := .body rest }.done st) := by
  by_cases hst : st = .ringbufInit
  · subst hst
    exact ⟨fun _ => rfl, fun _ _ => .inl rfl⟩
  · have hring : y.ringbuf = true := by
      rcases h.body _ hmain with hring | hnil | hhead
      · exact hring
      · cases hnil
      · exact absurd (Option.some.inj hhead) hst
    have hkept : ({ y with main := .body rest }.done st).ringbuf = true := by
      cases st with
      | ringbufInit => exact absurd rfl hst
      | _ => exact hring
    exact ⟨fun _ => hkept, fun _ _ => .inl hkept⟩

theorem Ready.main? {type : OtaType} {y y' : Board} {err : EspErr} (h : Ready y) (hs : y.main? type err = some y') :
    Ready y' := by
  unfold Board.main? at hs
  split at hs
  · split at hs
    · cases hs
      exact ⟨h.used, fun rest hrest => by cases hrest; exact .inr (.inr (head_statements type))⟩
    · cases hs
      exact ready_boot _ _
    · cases hs
      exact ⟨h.used, by simp⟩
  · cases hs
  · rename_i st rest hmain
    split at hs
    · cases hs
      exact h.done hmain
    · split at hs
      · cases hs
        exact ready_boot _ _
      · cases hs
        exact ⟨h.used, fun rest' hrest' => by cases hrest'; exact .inr (.inl rfl)⟩
      · rename_i hgoes
        cases hs
        refine ⟨h.used, fun _ _ => ?_⟩
        rcases h.body _ hmain with hring | hnil | hhead
        · exact .inl hring
        · cases hnil
        · rw [Option.some.inj hhead] at hgoes
          cases hgoes

/-- **Nobody uses the ring buffer before it is there**: `Device`, which has one, is the device of every run. -/
theorem ringbuf_there (type : OtaType) (t : PartitionTable) (flash : Flash) (es : List BoardEvent) :
    let y := run (step type t) (.new flash) es
    y.listening = true ∨ y.task = true → y.ringbuf = true := by
  have h : Ready (run (step type t) (.new flash) es) := by
    refine run_invariant Ready (fun y e hy => ?_) (ready_boot _ _) es
    unfold Board.step
    cases hs : y.step? type t e with
    | none => exact hy
    | some y' =>
      cases Board.steps hs with
      | resets => exact ready_boot _ _
      | goesOn err y' hmain => exact hy.main? hmain
      | acts e a d => exact ⟨hy.used, hy.body⟩
  exact h.used

end Board

end EspOta.Ble
