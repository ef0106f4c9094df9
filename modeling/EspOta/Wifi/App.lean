/-
The Wi-Fi updater as a whole: `app_main` statement by statement, with
`wifi_start` and `connect_to_wifi`, the event loop's task, `ota_update_task`
and `wifi_shutdown`, over any number of boots. A failed assertion, the end of
the task and the loss of power all end a boot, at any statement.

The parts were looked at by themselves, each under what its callers owe it.
Here are the callers: `app_main` connects once, and `esp_restart` shuts down
once and not before (`app_lawful`); the task runs only for a station that got
an address (`task_connected`); and the device is the one of the boots whose
task came to its end (`app_device`), so it goes back only by an access outside
its array (`app_rising`).

The task is handed `ota_param`, a local of `app_main`, and reads it first of
all. Nothing in the code makes `app_main` wait for that, so what is said of
the device is said of the runs in which the task comes first (`Prompt`).
-/
import EspOta.Nvs
import EspOta.Wifi.Reboots
import EspOta.Wifi.SemaphoreLife

namespace EspOta.Wifi

open Lib

/-! ## The machine -/

/-- The next statement of `app_main`, or of what it calls; `get_sha256_of_partitions` only logs. -/
inductive Main
  | nvs (s : NvsInit)
  | netif
  | eventLoop
  | wifiInit
  | wifiStorage
  | wifiMode
  | wifiStart
  /-- In `wifi_sta_do_connect`. -/
  | connecting
  | registering
  | creating
  | returning
  | returned
  deriving DecidableEq, Repr

/-- `ota_update_task`, before and after it has read `*ota_param`, or what is left of it in `esp_restart`: the
shutdown handler, then the next firmware. -/
inductive Task (V : Type)
  | starting
  | running
  | restarting (next : V)
  deriving DecidableEq, Repr

/-- The device. Nothing reads the ledger of the events since the connection was begun, the boots whose task ran to
its end, what was installed, nor the accesses that went astray. -/
structure App (V : Type) where
  firmware : V
  main : Main
  life : Life
  shutdownHandler : Bool
  task : Option (Task V)
  ledger : Ledger
  ran : List (Boot V)
  installs : List V
  faults : List Fault

inductive AppAction (V : Type)
  /-- The next statement of `app_main`, answered `err`; for `xTaskCreate`, `espOk` is `pdPASS`. -/
  | main (err : EspErr)
  /-- An event, or the next statement of its handler or of `wifi_sta_do_connect`. -/
  | sta (a : WifiAction)
  /-- `ota_update_task` reads `*ota_param`; if that is gone, `astray` is what is installed, if anything. -/
  | begin (astray : Option V)
  /-- `ota_update_task` runs to its end. -/
  | task (b : Boot V)
  /-- The next statement of `wifi_shutdown`. -/
  | close (err : EspErr)
  | powerLoss

/-- The boot whose task an action is the end of. -/
def AppAction.boot? {V : Type} : AppAction V → Option (Boot V)
  | .task b => some b
  | _ => none

namespace App

variable {V : Type}

/-- The firmware of the next boot. -/
def next (y : App V) : V :=
  match y.task with
  | some (.restarting next) => next
  | _ => y.firmware

def boot (firmware : V) (ran : List (Boot V)) (installs : List V) (faults : List Fault) : App V :=
  ⟨firmware, .nvs .first, .boot, false, none, ⟨false, 0, 0⟩, ran, installs, faults⟩

def new (firmware : V) : App V := boot firmware [] [] []

/-- The boot is over. -/
def reset (y : App V) : App V := boot y.next y.ran y.installs y.faults

/-- The boot is over by an access that went astray; it is followed no further than to what it installs. -/
def stray (y : App V) (f : Fault) (astray : Option V) : App V :=
  boot (astray.getD y.firmware) y.ran (y.installs ++ astray.toList) (y.faults ++ [f])

/-- `ESP_ERROR_CHECK` of a statement of `app_main`. -/
def check (y : App V) (err : EspErr) (y' : App V) : App V := if err = espOk then y' else y.reset

def main? (max : Int32) (y : App V) (err : EspErr) : Option (App V) :=
  match y.main with
  | .nvs s =>
    match s.next err with
    | .ready => some { y with main := .netif }
    | .aborted => some y.reset
    | s' => some { y with main := .nvs s' }
  | .netif => some (y.check err { y with main := .eventLoop })
  | .eventLoop => some (y.check err { y with main := .wifiInit })
  | .wifiInit => some (y.check err { y with main := .wifiStorage })
  | .wifiStorage => some (y.check err { y with main := .wifiMode })
  | .wifiMode => some (y.check err { y with main := .wifiStart })
  | .wifiStart =>
    some (y.check err
      { y with main := .connecting, life := Life.step max y.life (.connect true), ledger := ⟨false, 0, 0⟩ })
  | .connecting =>
    -- `connect_to_wifi` makes any error of the call `ESP_FAIL`, which `app_main` does not survive.
    match y.life.sta.caller with
    | .returned err => some (y.check err { y with main := .registering })
    | _ => none
  | .registering => some (y.check err { y with main := .creating, shutdownHandler := true })
  | .creating => some { y with main := .returning, task := if err = espOk then some .starting else none }
  | .returning => some { y with main := .returned }
  | .returned => none

/-- A failed assertion in the event loop's task, the connection or the shutdown ends the boot too. -/
def live (y : App V) (l : Life) : App V :=
  if l.sta.caller = .aborted then y.reset else { y with life := l }

/-- The first statement of `ota_update_task` that reads its parameter. -/
def begin? (y : App V) (astray : Option V) : Option (App V) :=
  match y.task with
  | some .starting =>
    some (if y.main = .returned then y.stray .paramGone astray else { y with task := some .running })
  | _ => none

variable [LinearOrder V]

/-- `ota_update_task`. One that returns runs into `abort`; `esp_restart` runs the shutdown handler first. -/
def task? (parse : CString → Option (Json V)) (max : Int32) (y : App V) (b : Boot V) : Option (App V) :=
  match y.task with
  | some .running =>
    let y : App V := { y with ran := y.ran ++ [b] }
    match otaUpdateTask parse b.response b.httpsOta y.firmware (.zero _) b.binUrl, b.url parse y.firmware with
    | .error f, _ => some (y.stray f b.astray)
    | .ok (.restarted, _), some url =>
      let y : App V := { y with task := some (.restarting (b.binary url)), installs := y.installs ++ [b.binary url] }
      if y.shutdownHandler then some { y with life := Life.step max y.life .shutdown } else some y.reset
    | .ok _, _ => some y.reset
  | _ => none

def close? (max : Int32) (y : App V) (err : EspErr) : Option (App V) :=
  match y.task with
  | some (.restarting _) =>
    match y.life.step? max (.close err) with
    | none => none
    | some l => if l.closing = none then some y.reset else some (y.live l)
  | _ => none

def step? (parse : CString → Option (Json V)) (max : Int32) (y : App V) : AppAction V → Option (App V)
  | .main err => y.main? max err
  | .sta a =>
    match y.life.step? max (.sta a) with
    | none => none
    | some l => some ({ y with ledger := y.ledger.record a }.live l)
  | .begin astray => y.begin? astray
  | .task b => y.task? parse max b
  | .close err => y.close? max err
  | .powerLoss => some y.reset

/-- An action that cannot happen in a state leaves it as it is. -/
def step (parse : CString → Option (Json V)) (max : Int32) (y : App V) (a : AppAction V) : App V :=
  (y.step? parse max a).getD y

/-! ## What a step can be -/

/-- Before `connect_to_wifi` comes to `wifi_sta_do_connect`. -/
def Early : Main → Prop
  | .nvs _ | .netif | .eventLoop | .wifiInit | .wifiStorage | .wifiMode | .wifiStart => True
  | .connecting | .registering | .creating | .returning | .returned => False

/-- A boot that came to the end of its task without an image. -/
def idle (y : App V) (b : Boot V) : App V := { y with ran := y.ran ++ [b] }.reset

/-- Everything a step can be. -/
inductive Steps (parse : CString → Option (Json V)) (max : Int32) (y : App V) : AppAction V → App V → Prop
  | ends (a : AppAction V) : (∀ b, a ≠ .task b) → (∀ astray, a ≠ .begin astray) → Steps parse max y a y.reset
  | goesOn (err : EspErr) (m : Main) : Early y.main → Early m → Steps parse max y (.main err) { y with main := m }
  | connects : y.main = .wifiStart → Steps parse max y (.main espOk)
      { y with main := .connecting, life := Life.step max y.life (.connect true), ledger := ⟨false, 0, 0⟩ }
  | connected (err : EspErr) : y.main = .connecting → y.life.sta.caller = .returned espOk →
      Steps parse max y (.main err) { y with main := .registering }
  | registered : y.main = .registering →
      Steps parse max y (.main espOk) { y with main := .creating, shutdownHandler := true }
  | created (err : EspErr) : y.main = .creating → Steps parse max y (.main err)
      { y with main := .returning, task := if err = espOk then some .starting else none }
  | finished (err : EspErr) : y.main = .returning → Steps parse max y (.main err) { y with main := .returned }
  | began (astray : Option V) : y.task = some .starting → y.main ≠ .returned →
      Steps parse max y (.begin astray) { y with task := some .running }
  | late (astray : Option V) : y.task = some .starting → y.main = .returned →
      Steps parse max y (.begin astray) (y.stray .paramGone astray)
  | sta (a : WifiAction) (l : Life) : y.life.step? max (.sta a) = some l → l.sta.caller ≠ .aborted →
      Steps parse max y (.sta a) { y with life := l, ledger := y.ledger.record a }
  | faulted (b : Boot V) (f : Fault) : y.task = some .running →
      otaUpdateTask parse b.response b.httpsOta y.firmware (.zero _) b.binUrl = .error f →
      Steps parse max y (.task b) ({ y with ran := y.ran ++ [b] }.stray f b.astray)
  | installed (b : Boot V) (buf : RcvBuffer) (url : CString) : y.task = some .running →
      otaUpdateTask parse b.response b.httpsOta y.firmware (.zero _) b.binUrl = .ok (.restarted, buf) →
      b.url parse y.firmware = some url → y.shutdownHandler = true →
      Steps parse max y (.task b) { y with
        ran := y.ran ++ [b], task := some (.restarting (b.binary url)), installs := y.installs ++ [b.binary url],
        life := Life.step max y.life .shutdown }
  /-- Without a shutdown handler the restart is at once. -/
  | installedBare (b : Boot V) (buf : RcvBuffer) (url : CString) : y.task = some .running →
      otaUpdateTask parse b.response b.httpsOta y.firmware (.zero _) b.binUrl = .ok (.restarted, buf) →
      b.url parse y.firmware = some url → y.shutdownHandler = false →
      Steps parse max y (.task b) { y with
        ran := y.ran ++ [b], task := some (.restarting (b.binary url)),
        installs := y.installs ++ [b.binary url] }.reset
  | returned (b : Boot V) (r : Exit × RcvBuffer) : y.task = some .running →
      otaUpdateTask parse b.response b.httpsOta y.firmware (.zero _) b.binUrl = .ok r →
      (r.1 = .restarted → b.url parse y.firmware = none) → Steps parse max y (.task b) (y.idle b)
  | closes (err : EspErr) (l : Life) (next : V) : y.task = some (.restarting next) →
      y.life.step? max (.close err) = some l → l.closing ≠ none → l.sta.caller ≠ .aborted →
      Steps parse max y (.close err) { y with life := l }

section
variable {parse : CString → Option (Json V)} {max : Int32} {y y' : App V}

theorem check_steps {err : EspErr} (h : err = espOk → Steps parse max y (.main err) y') :
    Steps parse max y (.main err) (y.check err y') := by
  unfold check
  split
  · exact h ‹_›
  · exact .ends _ (by simp) (by simp)

theorem main_steps {err : EspErr} (h : y.main? max err = some y') : Steps parse max y (.main err) y' := by
  unfold main? at h
  cases hm : y.main with
  | nvs s =>
    rw [hm] at h
    dsimp only at h
    split at h
    · cases h
      exact .goesOn err .netif (by simp [hm, Early]) trivial
    · cases h
      exact .ends _ (by simp) (by simp)
    · cases h
      exact .goesOn err (.nvs _) (by simp [hm, Early]) trivial
  | netif | eventLoop | wifiInit | wifiStorage | wifiMode =>
    rw [hm] at h
    cases h
    exact check_steps fun _ => .goesOn err _ (by simp [hm, Early]) trivial
  | wifiStart =>
    rw [hm] at h
    cases h
    refine check_steps fun he => ?_
    subst he
    exact .connects hm
  | connecting =>
    rw [hm] at h
    dsimp only at h
    split at h
    · rename_i e hc
      cases h
      unfold check
      split
      · rename_i he
        exact .connected err hm (by rw [hc, he])
      · exact .ends _ (by simp) (by simp)
    · cases h
  | registering =>
    rw [hm] at h
    cases h
    refine check_steps fun he => ?_
    subst he
    exact .registered hm
  | creating =>
    rw [hm] at h
    cases h
    exact .created err hm
  | returning =>
    rw [hm] at h
    cases h
    exact .finished err hm
  | returned =>
    rw [hm] at h
    cases h

theorem task_steps {b : Boot V} (h : y.task? parse max b = some y') : Steps parse max y (.task b) y' := by
  unfold task? at h
  split at h
  · rename_i hrunning
    dsimp only at h
    split at h
    · rename_i f hota
      cases h
      exact .faulted b f hrunning hota
    · rename_i buf url hota hurl
      split at h
      · rename_i hhandler
        cases h
        exact .installed b buf url hrunning hota hurl hhandler
      · rename_i hhandler
        cases h
        exact .installedBare b buf url hrunning hota hurl (eq_false_of_ne_true hhandler)
    · rename_i r hota hnone
      cases h
      refine .returned b r hrunning hota fun hr => ?_
      by_contra hurl
      obtain ⟨url, hurl⟩ := Option.ne_none_iff_exists'.mp hurl
      exact hnone r.2 url hurl (by rw [← hr])
  · cases h

/-- **A step is one of these.** -/
theorem steps {a : AppAction V} (h : y.step? parse max a = some y') : Steps parse max y a y' := by
  cases a with
  | main err => exact main_steps h
  | task b => exact task_steps h
  | powerLoss => cases h; exact .ends _ (by simp) (by simp)
  | begin astray =>
    dsimp only [step?, begin?] at h
    split at h
    · rename_i hstarting
      split at h
      · cases h; exact .late astray hstarting ‹_›
      · cases h; exact .began astray hstarting ‹_›
    · cases h
  | sta a =>
    dsimp only [step?] at h
    split at h
    · cases h
    · rename_i l hl
      cases h
      unfold live
      split
      · exact .ends _ (by simp) (by simp)
      · exact .sta a l hl ‹_›
  | close err =>
    dsimp only [step?, close?] at h
    split at h
    · rename_i next hnext
      split at h
      · cases h
      · rename_i l hl
        split at h
        · cases h; exact .ends _ (by simp) (by simp)
        · rename_i hclosing
          cases h
          unfold live
          split
          · exact .ends _ (by simp) (by simp)
          · exact .closes err l next hnext hl hclosing ‹_›
    · cases h

/-! ## The callers keep their part -/

/-- What the callers have done so far. -/
structure Sound (y : App V) : Prop where
  quiet : y.life.Quiet
  early : Early y.main → y.life = .boot ∧ y.task = none
  task : y.task.isSome → y.main = .returning ∨ y.main = .returned
  /-- Until `esp_restart`, nothing is shut down, and no semaphore deleted. -/
  before : (∀ next, y.task ≠ some (.restarting next)) → y.life.closing = none ∧ y.life.record.last ≠ .deleted

omit [LinearOrder V] in
theorem Sound.boot (firmware : V) (ran : List (Boot V)) (installs : List V) (faults : List Fault) :
    Sound (boot firmware ran installs faults) where
  quiet := Life.Quiet.boot
  early _ := ⟨rfl, rfl⟩
  task := by simp [App.boot]
  before _ := ⟨rfl, by simp [App.boot, Life.boot]⟩

/-- Before the connection nothing happens to the tasks. -/
theorem sta_boot {a : WifiAction} {l : Life} (h : Life.boot.step? max (.sta a) = some l) : l = .boot := by
  cases a with
  | disconnected | gotIp => cases h; rfl
  | handler | caller => cases h

/-- A statement of either task leaves the shutdown alone, and deletes nothing. -/
theorem record_sta {w l : Life} {a : WifiAction} (h : w.step? max (.sta a) = some l) :
    l.closing = w.closing ∧ (l.record.last = w.record.last ∨ l.record.last ≠ .deleted) := by
  unfold Life.step? at h
  split at h
  · cases h
  · obtain ⟨s, -, rfl⟩ := Option.map_eq_some_iff.mp h
    refine ⟨rfl, ?_⟩
    unfold Life.recorded
    split
    · rename_i ok
      cases ok <;> simp [Record.create]
    · exact .inl rfl

omit [LinearOrder V] in
/-- A step of the tasks or of the shutdown. -/
theorem Sound.life_step (h : Sound y) {a : LifeAction} {l : Life} (hs : y.life.step? max a = some l)
    (ha : Life.CallsInOrder y.life a) : l.Quiet := by
  have hstep : (Life.step max y.life a).Quiet := h.quiet.step ha
  rwa [Life.step, hs] at hstep

omit [LinearOrder V] in
/-- Once the task is there, `app_main` is past its calls. -/
theorem Sound.not_early (h : Sound y) {t : Task V} (ht : y.task = some t) : ¬ Early y.main := by
  rcases h.task (by rw [ht]; rfl) with hm | hm <;> rw [hm] <;> exact id

omit [LinearOrder V] in
theorem Sound.not_connecting (h : Sound y) {t : Task V} (ht : y.task = some t) : y.main ≠ .connecting := by
  rcases h.task (by rw [ht]; rfl) with hm | hm <;> rw [hm] <;> simp

omit [LinearOrder V] in
theorem Sound.no_task (h : Sound y) (hm : y.main ≠ .returning ∧ y.main ≠ .returned) : ¬ y.task.isSome :=
  fun ht => (h.task ht).elim hm.1 hm.2

theorem Sound.step {a : AppAction V} (h : Sound y) (hs : Steps parse max y a y') : Sound y' := by
  cases hs with
  | ends | installedBare | returned | late | faulted => exact .boot _ _ _ _
  | goesOn err m hearly hm =>
    obtain ⟨hlife, htask⟩ := h.early hearly
    exact ⟨h.quiet, fun _ => ⟨hlife, htask⟩, by simp [htask], h.before⟩
  | connects hm =>
    obtain ⟨hlife, htask⟩ := h.early (hm ▸ trivial)
    have horder : Life.CallsInOrder y.life (.connect true) := by
      rw [hlife]
      decide
    refine ⟨h.quiet.step horder, False.elim, by simp [htask], fun _ => ?_⟩
    show (Life.step max y.life (.connect true)).closing = none ∧ _
    rw [hlife]
    exact ⟨rfl, by intro hlast; cases hlast⟩
  | connected err hm =>
    exact ⟨h.quiet, False.elim, fun ht => (h.no_task (by simp [hm]) ht).elim, h.before⟩
  | registered hm =>
    exact ⟨h.quiet, False.elim, fun ht => (h.no_task (by simp [hm]) ht).elim, h.before⟩
  | created err hm =>
    refine ⟨h.quiet, False.elim, fun _ => .inl rfl, fun _ => h.before fun next ht => ?_⟩
    exact h.no_task (by simp [hm]) (by rw [ht]; rfl)
  | finished err hm => exact ⟨h.quiet, False.elim, fun _ => .inr rfl, h.before⟩
  | began astray ht =>
    refine ⟨h.quiet, (absurd · (h.not_early ht)), fun _ => h.task (by simp [ht]), fun _ => h.before ?_⟩
    simp [ht]
  | sta a l hl =>
    obtain ⟨hclosing, hlast⟩ := record_sta hl
    refine ⟨h.life_step hl trivial, fun hearly => ?_, h.task, fun hnext => ?_⟩
    · obtain ⟨hlife, htask⟩ := h.early hearly
      exact ⟨sta_boot (hlife ▸ hl), htask⟩
    · obtain ⟨hopen, hkept⟩ := h.before hnext
      refine ⟨hclosing.trans hopen, ?_⟩
      rcases hlast with hlast | hlast
      · rwa [hlast]
      · exact hlast
  | installed b buf url ht =>
    have hlast := (h.before (by simp [ht])).2
    exact ⟨h.quiet.step hlast, (absurd · (h.not_early ht)), fun _ => h.task (by simp [ht]), fun hnext =>
      absurd rfl (hnext _)⟩
  | closes err l next ht hl =>
    exact ⟨h.life_step hl trivial, (absurd · (h.not_early ht)), h.task, fun hnext => absurd ht (hnext next)⟩

/-- An invariant of everything a step can be is one of the runs. -/
theorem meets_step {P : App V → AppAction V → Prop}
    {I : App V → Prop} (hsteps : ∀ y a y', I y → P y a → Steps parse max y a y' → I y')
    (y : App V) (a : AppAction V) (hy : I y) (ha : P y a) : I (step parse max y a) := by
  unfold step
  cases hs : y.step? parse max a with
  | none => exact hy
  | some y' => exact hsteps y a y' hy ha (steps hs)

/-! ## The semaphore -/

/-- What the step does with the semaphore is lawful; a call by itself does nothing with it. -/
def Lawful (max : Int32) (y : App V) : AppAction V → Prop
  | .sta a => Life.Lawful max y.life (.sta a)
  | .close err => Life.Lawful max y.life (.close err)
  | .main _ | .begin _ | .task _ | .powerLoss => True

omit [LinearOrder V] in
theorem Sound.lawful (h : Sound y) (max : Int32) (a : AppAction V) : Lawful max y a := by
  cases a with
  | main | begin | task | powerLoss => trivial
  | sta a => exact (h.quiet.tied.lawful_iff_ordered max _).mpr (h.quiet.ordered max _)
  | close err => exact (h.quiet.tied.lawful_iff_ordered max _).mpr (h.quiet.ordered max _)

/-- **The updater keeps its semaphore**, in every run: no deleted one is given, taken or deleted, and none is
lost, whatever the events and wherever a boot ends. -/
theorem app_lawful (parse : CString → Option (Json V)) (max : Int32) (firmware : V) (es : List (AppAction V)) :
    Meets (step parse max) (Lawful max) (.new firmware) es :=
  meets_of_invariant Sound (fun y a hy => meets_step (P := fun _ _ => True)
    (fun _ _ _ hy _ hs => hy.step hs) y a hy trivial) (fun _ a hy => hy.lawful max a) (.boot _ _ _ _) es

/-! ## The address -/

/-- The event is none of those the connection confuses, while it lasts. -/
def Clean (max : Int32) (y : App V) : AppAction V → Prop
  | .sta a => y.main = .connecting → ConnectRun.Clean max ⟨y.life.sta, y.ledger⟩ a
  | .main _ | .begin _ | .task _ | .close _ | .powerLoss => True

instance (max : Int32) (y : App V) (a : AppAction V) : Decidable (Clean max y a) := by
  unfold Clean; split <;> infer_instance

/-- The call that connects is truthful, or has failed; after it there is an address. -/
structure Addressed (max : Int32) (y : App V) : Prop where
  sound : Sound y
  connecting : y.main = .connecting → y.life.wait = true ∧
    (ConnectRun.Truthful max ⟨y.life.sta, y.ledger⟩ ∨ ∃ err, err ≠ espOk ∧ y.life.sta.caller = .returned err)
  after : y.main = .registering ∨ y.main = .creating ∨ y.main = .returning ∨ y.main = .returned →
    y.ledger.ours = true

omit [LinearOrder V] in
theorem Addressed.boot (max : Int32) (firmware : V) (ran : List (Boot V)) (installs : List V)
    (faults : List Fault) : Addressed max (App.boot firmware ran installs faults) where
  sound := .boot _ _ _ _
  connecting := by simp [App.boot]
  after := by simp [App.boot]

theorem record_ours {l : Ledger} (h : l.ours = true) (a : WifiAction) : (l.record a).ours = true := by
  unfold Ledger.record
  split
  · exact h
  · split
    · rfl
    · exact h
  · exact h

/-- A call that returned does nothing more. -/
theorem returned_step {max : Int32} {s s' : Sta} {a : WifiAction} {err : EspErr} (hs : s.step? max true a = some s')
    (hc : s.caller = .returned err) : s'.caller = .returned err ∨ s'.caller = .aborted := by
  cases Sta.acts hs with
  | sees _ hsees => cases hsees <;> exact .inl hc
  | handles err' hhandles =>
    cases hhandles with
    | exceeded | reconnected | gaveUp | gotOurs | gotOther => exact .inl hc
    | aborted => exact .inr rfl
  | calls statement hcalls =>
    cases hcalls with
    | aborted => exact .inr rfl
    | cleared h => rcases h with h | ⟨h, -⟩ <;> rw [h] at hc <;> cases hc
    | created h | notCreated h | watching h | registered h | configured h | connected h | notConnected _ h | taken h
    | read h => rw [h] at hc; cases hc

theorem not_connects {a : WifiAction} (h : ¬ ConnectRun.Connects a) :
    ∃ err, a = .caller (.connect err) ∧ err ≠ espOk := by
  unfold ConnectRun.Connects at h
  split at h
  · rename_i err
    exact ⟨err, rfl, h⟩
  · exact absurd trivial h

/-- An `esp_wifi_connect` of the call that fails is its end. -/
theorem connect_step {max : Int32} {s s' : Sta} {err : EspErr}
    (hs : s.step? max true (.caller (.connect err)) = some s') (herr : err ≠ espOk) (hlive : s'.caller ≠ .aborted) :
    s'.caller = .returned err := by
  cases Sta.calls hs with
  | connected => exact absurd rfl herr
  | notConnected => rfl
  | aborted => exact absurd rfl hlive

omit [LinearOrder V] in
/-- A statement of the call or of a handler, or an event, while the call lasts. -/
theorem Addressed.sta {max : Int32} (h : Addressed max y) {a : WifiAction} (hclean : Clean max y (.sta a)) {l : Life}
    (hl : y.life.step? max (.sta a) = some l) (hlive : l.sta.caller ≠ .aborted) (hm : y.main = .connecting) :
    l.wait = true ∧ (ConnectRun.Truthful max ⟨l.sta, y.ledger.record a⟩ ∨
      ∃ err, err ≠ espOk ∧ l.sta.caller = .returned err) := by
  obtain ⟨hwait, hcall⟩ := h.connecting hm
  unfold Life.step? at hl
  split at hl
  · cases hl
  · obtain ⟨s, hs, rfl⟩ := Option.map_eq_some_iff.mp hl
    rw [hwait] at hs
    refine ⟨hwait, ?_⟩
    rcases hcall with htruth | ⟨err, herr, hreturned⟩
    · by_cases hconnects : ConnectRun.Connects a
      · have hnext := htruth.step hconnects (hclean hm)
        rw [ConnectRun.step, hs] at hnext
        exact .inl hnext
      -- Its `esp_wifi_connect` fails.
      · obtain ⟨err, rfl, herr⟩ := not_connects hconnects
        exact .inr ⟨err, herr, connect_step hs herr hlive⟩
    · exact .inr ⟨err, herr, (returned_step hs hreturned).resolve_right hlive⟩

theorem Addressed.step {max : Int32} {a : AppAction V} (h : Addressed max y) (hclean : Clean max y a)
    (hs : Steps parse max y a y') : Addressed max y' := by
  have hsound := h.sound.step hs
  cases hs with
  | ends | installedBare | returned | late | faulted => exact .boot _ _ _ _ _
  | goesOn err m hearly hm =>
    refine ⟨hsound, fun hc => ?_, fun hlater => ?_⟩
    · rw [show m = .connecting from hc] at hm
      exact hm.elim
    · rcases hlater with hc | hc | hc | hc
      all_goals
        rw [show m = _ from hc] at hm
        exact hm.elim
  | connects hm =>
    obtain ⟨hlife, -⟩ := h.sound.early (hm ▸ trivial)
    refine ⟨hsound, fun _ => ?_, by simp⟩
    rw [hlife]
    exact ⟨rfl, .inl (.start max Life.boot.sta)⟩
  | connected err hm hc =>
    refine ⟨hsound, by simp, fun _ => ?_⟩
    rcases (h.connecting hm).2 with htruth | ⟨err', herr, hfailed⟩
    · exact htruth.ok hc
    · rw [hfailed] at hc
      cases hc
      exact absurd rfl herr
  | registered hm => exact ⟨hsound, by simp, fun _ => h.after (.inl hm)⟩
  | created err hm => exact ⟨hsound, by simp, fun _ => h.after (.inr (.inl hm))⟩
  | sta a l hl hlive =>
    exact ⟨hsound, fun hm => h.sta hclean hl hlive hm, fun hm => record_ours (h.after hm) a⟩
  | finished err hm => exact ⟨hsound, by simp, fun _ => h.after (.inr (.inr (.inl hm)))⟩
  | began astray ht | installed b _ _ ht | closes err l next ht =>
    exact ⟨hsound, fun hc => (h.sound.not_connecting ht hc).elim, h.after⟩

/-- **The update task runs only for a station that got an address** since its boot began to connect, in every run
whose events the connection does not confuse. -/
theorem task_connected (parse : CString → Option (Json V)) (max : Int32) (firmware : V) (es : List (AppAction V))
    (h : Meets (step parse max) (Clean max) (.new firmware) es)
    (ht : (run (step parse max) (.new firmware) es).task.isSome) :
    (run (step parse max) (.new firmware) es).ledger.ours = true := by
  have hinv : Addressed max (run (step parse max) (.new firmware) es) :=
    h.invariant (Addressed max) (meets_step fun _ _ _ hy ha hs => hy.step ha hs) (.boot _ _ _ _ _)
  exact hinv.after (.inr (.inr (hinv.sound.task ht)))

/-- A boot up to its task, with the address got at once. -/
def createsTask {V : Type} : List (AppAction V) :=
  List.replicate 7 (.main espOk) ++ (ConnectRun.toWait ++ Life.gotAddress).map .sta ++
    List.replicate 3 (.main espOk)

/-- The task comes before the end of `app_main`. -/
def startsTask {V : Type} : List (AppAction V) := createsTask ++ [.begin none, .main espOk]

theorem task_connected_at_once : (run (step parse2 5) (.new 1) startsTask).ledger.ours = true :=
  task_connected parse2 5 1 startsTask (by decide +kernel) (by decide +kernel)

/-! ## The device -/

/-- If the task comes to read `ota_param`, that is still there. -/
def Prompt (y : App V) : AppAction V → Prop
  | .begin _ => y.task = some .starting → y.main ≠ .returned
  | .main _ | .sta _ | .task _ | .close _ | .powerLoss => True

instance (y : App V) (a : AppAction V) : Decidable (Prompt y a) := by
  unfold Prompt; split <;> infer_instance

/-- What the boots leave, while one is under way. -/
def device (y : App V) : Device V := ⟨y.next, y.installs, y.faults⟩

omit [LinearOrder V] in
theorem device_reset (y : App V) : y.reset.device = y.device := rfl

omit [LinearOrder V] in
theorem device_running (ht : y.task = some .running) : y.device = ⟨y.firmware, y.installs, y.faults⟩ := by
  simp [device, next, ht]

/-- Only the end of the task is a boot to the device. -/
theorem device_step {a : AppAction V} (h : Sound y) (hprompt : Prompt y a) (hs : Steps parse max y a y') :
    y'.device = run (Wifi.boot parse) y.device a.boot?.toList ∧ y'.ran = y.ran ++ a.boot?.toList := by
  cases hs with
  | ends _ ha hb =>
    cases a with
    | task b => exact absurd rfl (ha b)
    | begin astray => exact absurd rfl (hb astray)
    | main | sta | close | powerLoss => exact ⟨device_reset y, (List.append_nil _).symm⟩
  | goesOn | connects | connected | registered | finished | sta | closes => exact ⟨rfl, (List.append_nil _).symm⟩
  | created err hm =>
    have htask : y.task = none := Option.not_isSome_iff_eq_none.mp (h.no_task (by simp [hm]))
    refine ⟨?_, (List.append_nil _).symm⟩
    by_cases he : err = espOk <;> simp [device, next, htask, he, AppAction.boot?]
  | began astray ht =>
    refine ⟨?_, (List.append_nil _).symm⟩
    simp [device, next, ht, AppAction.boot?]
  | late astray ht hm => exact absurd hm (hprompt ht)
  | faulted b f ht hota =>
    refine ⟨?_, rfl⟩
    rw [device_running ht]
    simp [AppAction.boot?, Wifi.boot, hota, device, stray, App.boot, next, Device.stray]
  | installed b buf url ht hota hurl =>
    refine ⟨?_, rfl⟩
    rw [device_running ht]
    simp [AppAction.boot?, Wifi.boot, hota, hurl, device, next, Device.install]
  | installedBare b buf url ht hota hurl =>
    refine ⟨?_, rfl⟩
    rw [device_running ht]
    simp [AppAction.boot?, Wifi.boot, hota, hurl, device, reset, App.boot, next, Device.install]
  | returned b r ht hota hnone =>
    refine ⟨?_, rfl⟩
    rw [device_running ht]
    obtain ⟨exit, buf⟩ := r
    cases exit with
    | restarted => simp [AppAction.boot?, Wifi.boot, hota, hnone rfl, device, idle, reset, App.boot, next, ht]
    | returned => simp [AppAction.boot?, Wifi.boot, hota, device, idle, reset, App.boot, next, ht]

/-- The device is the one its boots leave. -/
structure Refines (parse : CString → Option (Json V)) (firmware : V) (es : List (AppAction V)) (y : App V) : Prop where
  sound : Sound y
  device : y.device = run (Wifi.boot parse) (.new firmware) y.ran
  ran : y.ran.Sublist (es.filterMap AppAction.boot?)

theorem Refines.new (parse : CString → Option (Json V)) (firmware : V) : Refines parse firmware [] (.new firmware) :=
  ⟨.boot _ _ _ _, rfl, .slnil⟩

theorem Refines.step {max : Int32} {firmware : V} {es : List (AppAction V)} {a : AppAction V}
    (h : Refines parse firmware es y) (hprompt : Prompt y a) :
    Refines parse firmware (es ++ [a]) (step parse max y a) := by
  have hkept : y.ran.Sublist ((es ++ [a]).filterMap AppAction.boot?) := by
    rw [List.filterMap_append]
    exact h.ran.trans (List.sublist_append_left _ _)
  unfold App.step
  cases hs : y.step? parse max a with
  | none => exact ⟨h.sound, h.device, hkept⟩
  | some y' =>
    have hsteps := steps hs
    obtain ⟨hdevice, hran⟩ := device_step h.sound hprompt hsteps
    refine ⟨h.sound.step hsteps, ?_, ?_⟩
    · rw [Option.getD_some, hdevice, hran, run_append, ← h.device]
    · have hnext : [a].filterMap AppAction.boot? = a.boot?.toList := by cases a <;> rfl
      rw [Option.getD_some, hran, List.filterMap_append, hnext]
      exact h.ran.append (List.Sublist.refl _)

theorem refines {firmware : V} {es : List (AppAction V)} (h : Meets (App.step parse max) Prompt (.new firmware) es) :
    Refines parse firmware es (run (App.step parse max) (.new firmware) es) :=
  h.history (Refines parse firmware) (fun _ _ _ hr hprompt => hr.step hprompt) (.new parse firmware)

/-- **The updater is its boots**: whatever its tasks do, and wherever its boots end, the firmware, what was
installed and the accesses that went astray are those of the boots whose task came to its end. -/
theorem app_device (parse : CString → Option (Json V)) (max : Int32) (firmware : V) (es : List (AppAction V))
    (h : Meets (App.step parse max) Prompt (.new firmware) es) :
    let y := run (App.step parse max) (.new firmware) es
    (⟨y.next, y.installs, y.faults⟩ : Device V) = run (Wifi.boot parse) (.new firmware) y.ran ∧
      y.ran.Sublist (es.filterMap AppAction.boot?) :=
  ⟨(refines h).device, (refines h).ran⟩

/-- Version 2 is offered, and a fragment of its download is as long as the client's own buffer; firmware 0 comes
of that. -/
def offered2Full : Boot Nat := { offered2 with httpsOta := fun _ => fragmented [full], astray := some 0 }

/-- Power is lost before the task comes to its end; the next boot's download goes astray, and the one after it
is as it should be. -/
def wentAstray : List (AppAction Nat) :=
  startsTask ++ [.powerLoss] ++ startsTask ++ [.task offered2Full] ++ startsTask ++ [.task offered2]

theorem app_device_went_astray :
    (run (App.step parse2 5) (.new 1) wentAstray).next = 2 ∧
      ∃ bs, bs.length = 2 ∧ run (Wifi.boot parse2) (.new 1) bs = ⟨2, [0, 2], [.rcvBufferOverflow]⟩ := by
  have h := (app_device parse2 5 1 wentAstray (by decide +kernel)).1
  have hran : (run (App.step parse2 5) (.new 1) wentAstray).ran.length = 2 := by decide +kernel
  have hnext : (run (App.step parse2 5) (.new 1) wentAstray).next = 2 := by decide +kernel
  have hinstalls : (run (App.step parse2 5) (.new 1) wentAstray).installs = [0, 2] := by decide +kernel
  have hfaults : (run (App.step parse2 5) (.new 1) wentAstray).faults = [.rcvBufferOverflow] := by decide +kernel
  refine ⟨hnext, _, hran, ?_⟩
  rw [← h, hnext, hinstalls, hfaults]

theorem sound_run (h : Sound y) (es : List (AppAction V)) : Sound (run (App.step parse max) y es) :=
  run_invariant Sound (fun y a hy => meets_step (P := fun _ _ => True) (fun _ _ _ hy _ hs => hy.step hs) y a hy
    trivial) h es

theorem device_of_boot?_none {a : AppAction V} (h : Sound y) (hprompt : Prompt y a) (ha : a.boot? = none) :
    (App.step parse max y a).device = y.device := by
  unfold App.step
  cases hs : y.step? parse max a with
  | none => rfl
  | some y' =>
    have hdevice := (device_step h hprompt (steps hs)).1
    rw [ha] at hdevice
    exact hdevice

/-- Until the task ends, the device is as it was. -/
theorem device_run (h : Sound y) {es : List (AppAction V)} (hprompt : Meets (App.step parse max) Prompt y es)
    (hes : ∀ a ∈ es, a.boot? = none) : (run (App.step parse max) y es).device = y.device := by
  induction es generalizing y with
  | nil => rfl
  | cons a es ih =>
    have hstep : Sound (App.step parse max y a) := sound_run h [a]
    rw [run_cons, ih hstep hprompt.2 fun b hb => hes b (List.mem_cons_of_mem _ hb)]
    exact device_of_boot?_none h hprompt.1 (hes a List.mem_cons_self)

theorem isOurNetif_sta : isOurNetif netifDescSta netifDescSta = true := by decide +kernel

variable (parse) in
/-- `app_main` of any firmware can create the task. -/
theorem run_createsTask (hmax : 0 ≤ max) (firmware : V) (ran : List (Boot V)) (installs : List V)
    (faults : List Fault) :
    (run (App.step parse max) (App.boot firmware ran installs faults) createsTask).main = .returning ∧
      (run (App.step parse max) (App.boot firmware ran installs faults) createsTask).task = some .starting := by
  have hle : ¬ max < 0 := Int32.not_lt.mpr hmax
  have hnvs : NvsInit.next .first espOk = .ready := rfl
  simp [createsTask, ConnectRun.toWait, Life.gotAddress, List.replicate, App.step, App.step?, App.main?, App.check,
    App.boot, hnvs, Life.step, Life.step?, Life.boot, Life.free, Sta.step?, Sta.call?, Sta.check, Sta.handle?,
    Sta.give, isOurNetif_sta, App.live, Life.recorded, Ledger.record, Record.create, hle]

omit [LinearOrder V] in
theorem prompt_of_ne_begin {a : AppAction V} (ha : ∀ astray, a ≠ .begin astray) (y : App V) : Prompt y a := by
  cases a with
  | begin astray => exact absurd rfl (ha astray)
  | main | sta | task | close | powerLoss => trivial

variable (parse) in
/-- The task can be there before the end of `app_main`. -/
theorem startsTask_prompt (hmax : 0 ≤ max) (firmware : V) (ran : List (Boot V)) (installs : List V)
    (faults : List Fault) :
    Meets (App.step parse max) Prompt (App.boot firmware ran installs faults) startsTask ∧
      (run (App.step parse max) (App.boot firmware ran installs faults) startsTask).task = some .running := by
  obtain ⟨hmain, htask⟩ := run_createsTask parse hmax firmware ran installs faults
  rw [startsTask, meets_append, run_append]
  generalize run (App.step parse max) (App.boot firmware ran installs faults) createsTask = y at hmain htask
  have hbegin : App.step parse max y (.begin none) = { y with task := some .running } := by
    simp [App.step, App.step?, begin?, htask, hmain]
  refine ⟨⟨meets_of_forall fun z a ha => prompt_of_ne_begin ?_ z, fun _ => by simp [hmain], trivial, trivial⟩, ?_⟩
  · simp only [createsTask, List.mem_append, List.mem_map, List.mem_replicate] at ha
    rcases ha with (⟨-, rfl⟩ | ⟨w, -, rfl⟩) | ⟨-, rfl⟩ <;> simp
  · rw [run_cons, hbegin]
    simp [App.step, App.step?, App.main?, hmain]

/-- A power cycle, and a boot that nothing disturbs. -/
def cycle (b : Boot V) : List (AppAction V) := .powerLoss :: (startsTask ++ [.task b])

omit [LinearOrder V] in
theorem boot?_startsTask {a : AppAction V} (ha : a ∈ startsTask) : a.boot? = none := by
  simp only [startsTask, createsTask, List.mem_append, List.mem_map, List.mem_replicate, List.mem_cons,
    List.not_mem_nil, or_false] at ha
  rcases ha with ((⟨-, rfl⟩ | ⟨w, -, rfl⟩) | ⟨-, rfl⟩) | rfl | rfl <;> rfl

variable (parse) (max) in
theorem step?_task_isSome (ht : y.task = some .running) (b : Boot V) :
    (y.step? parse max (.task b)).isSome := by
  simp only [App.step?, task?, ht]
  split
  · rfl
  · split <;> rfl
  · rfl

variable (parse) in
/-- **From wherever it is, the updater can go through any boot.** -/
theorem device_cycle (hmax : 0 ≤ max) (y : App V) (b : Boot V) :
    Meets (App.step parse max) Prompt y (cycle b) ∧
      (run (App.step parse max) y (cycle b)).device = Wifi.boot parse y.device b := by
  obtain ⟨hprompt, htask⟩ := startsTask_prompt parse hmax y.next y.ran y.installs y.faults
  have hreset : App.step parse max y .powerLoss = y.reset := rfl
  have hsound : Sound (run (App.step parse max) y.reset startsTask) := sound_run (.boot _ _ _ _) startsTask
  have hdevice : (run (App.step parse max) y.reset startsTask).device = y.device :=
    (device_run (.boot _ _ _ _) hprompt fun _ ha => boot?_startsTask ha).trans (device_reset y)
  rw [cycle, meets_cons, run_cons, hreset, meets_append, run_append]
  refine ⟨⟨trivial, hprompt, trivial, trivial⟩, ?_⟩
  change (run (App.step parse max) y.reset startsTask).task = some .running at htask
  generalize run (App.step parse max) y.reset startsTask = z at hsound hdevice htask
  obtain ⟨z', hz⟩ := Option.isSome_iff_exists.mp (step?_task_isSome parse max htask b)
  rw [run_cons, run_nil, App.step, hz, Option.getD_some, ← hdevice]
  have hprompt : Prompt z (.task b) := trivial
  exact (device_step hsound hprompt (steps hz)).1

theorem device_boots (hmax : 0 ≤ max) (y : App V) (bs : List (Boot V)) :
    ∃ es, Meets (App.step parse max) Prompt y es ∧
      (run (App.step parse max) y es).device = run (Wifi.boot parse) y.device bs := by
  induction bs generalizing y with
  | nil => exact ⟨[], trivial, rfl⟩
  | cons b bs ih =>
    obtain ⟨hprompt, hdevice⟩ := device_cycle parse hmax y b
    obtain ⟨es, hes, hrun⟩ := ih (run (App.step parse max) y (cycle b))
    refine ⟨cycle b ++ es, meets_append.mpr ⟨hprompt, hes⟩, ?_⟩
    rw [run_append, hrun, hdevice, run_cons]

/-- **The boots are exactly what the updater does**: what it can leave on the device, in any run, is what some boots
leave, and there is a run for any boots. -/
theorem app_device_iff (parse : CString → Option (Json V)) {max : Int32} (hmax : 0 ≤ max) (firmware : V)
    (d : Device V) :
    (∃ es, Meets (App.step parse max) Prompt (.new firmware) es ∧
      (run (App.step parse max) (.new firmware) es).device = d) ↔
      ∃ bs, run (Wifi.boot parse) (.new firmware) bs = d := by
  constructor
  · rintro ⟨es, hprompt, rfl⟩
    exact ⟨_, (refines hprompt).device.symm⟩
  · rintro ⟨bs, rfl⟩
    exact device_boots hmax (.new firmware) bs

theorem app_device_iff_offered : ∃ es, (run (App.step parse2 5) (.new 1) es).installs = [0, 2] := by
  have hinstalls : (run (Wifi.boot parse2) (.new 1) [offered2Full, offered2]).installs = [0, 2] := by decide +kernel
  obtain ⟨es, -, hes⟩ := (app_device_iff parse2 (by decide : (0 : Int32) ≤ 5) 1 _).mpr
    ⟨[offered2Full, offered2], rfl⟩
  exact ⟨es, (congrArg Device.installs hes).trans hinstalls⟩

/-- A task that comes to its end was served a document that fits. -/
def Kept (parse : CString → Option (Json V)) (y : App V) : AppAction V → Prop
  | .task b => y.task = some .running → b.Kept parse y.device
  | .main _ | .sta _ | .begin _ | .close _ | .powerLoss => True

theorem Steps.running {b : Boot V} (hs : Steps parse max y (.task b) y') : y.task = some .running := by
  cases hs with
  | ends _ ha => exact absurd rfl (ha b)
  | faulted _ _ ht | installed _ _ _ ht | installedBare _ _ _ ht | returned _ _ ht => exact ht

/-- **No power loss, no abort and no disconnection takes the updater back**: the versions installed rise strictly,
and the next boot runs the last of them. -/
theorem app_rising (parse : CString → Option (Json V)) (hempty : parse (.ofTerminated []) = none) (max : Int32)
    (firmware : V) (es : List (AppAction V))
    (h : Meets (App.step parse max) (fun y a => Prompt y a ∧ Kept parse y a) (.new firmware) es) :
    let y := run (App.step parse max) (.new firmware) es
    (firmware :: y.installs).Pairwise (· < ·) ∧ (firmware :: y.installs).getLast? = some y.next := by
  intro y
  have hstart : Rising firmware (new firmware).device :=
    ⟨List.pairwise_singleton _ _, rfl, by simp [device, new, App.boot, next]⟩
  have hrising : Sound y ∧ Rising firmware y.device := by
    refine h.invariant (fun y => Sound y ∧ Rising firmware y.device) (meets_step ?_) ⟨.boot _ _ _ _, hstart⟩
    rintro y a y' ⟨hsound, hr⟩ ⟨hprompt, hkept⟩ hs
    refine ⟨hsound.step hs, ?_⟩
    rw [(device_step hsound hprompt hs).1]
    cases a with
    | task b =>
      obtain ⟨served, hserves, hfits⟩ := hkept hs.running
      exact hr.boot hempty hserves hfits
    | main | sta | begin | close | powerLoss => exact hr
  exact ⟨hrising.2.sorted, hrising.2.last⟩

/-- Version 2 is downloaded, and power is lost as the Wi-Fi shuts down; the next boot is offered it again. -/
def cutShutdown : List (AppAction Nat) :=
  startsTask ++ [.task offered2, .close espOk, .close espOk, .powerLoss] ++ startsTask ++ [.task offered2]

theorem app_rising_cut_shutdown :
    (run (App.step parse2 5) (.new 1) cutShutdown).installs = [2] ∧
      (run (App.step parse2 5) (.new 1) cutShutdown).next = 2 := by
  have hinstalls : (run (App.step parse2 5) (.new 1) cutShutdown).installs = [2] := by decide +kernel
  have hprompt : Meets (App.step parse2 5) Prompt (.new 1) cutShutdown := by decide +kernel
  have hkept : ∀ a ∈ cutShutdown, ∀ y, Kept parse2 y a := by
    intro a ha y
    cases a with
    | task b =>
      obtain rfl : b = offered2 := by simpa [cutShutdown, startsTask, createsTask] using ha
      exact fun _ => ⟨_, serves_offered2, fits_offered2 _⟩
    | main | sta | begin | close | powerLoss => trivial
  have hrising := app_rising parse2 (by decide +kernel) 5 1 cutShutdown ((hprompt.and_forall hkept).imp
    (fun _ => True) (fun _ _ _ _ => trivial) (fun y _ _ h => ⟨h.2, h.1 y⟩) trivial)
  refine ⟨hinstalls, ?_⟩
  have hlast := hrising.2
  rw [hinstalls] at hlast
  exact (Option.some.inj hlast).symm

end

end App

end EspOta.Wifi
