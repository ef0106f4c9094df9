/-
How the Zigbee devices come to their network: the `esp_zb_app_signal_handler`
of the server and that of the client, with every call they make. Any signal may
come at any time and any alarm may run.

Nothing but the next answer keeps a device going, and an answer that is not
final leads to exactly one more start or alarm. With a stack that answers each
start once and runs each alarm once (`AnswersOnce`), none is ever lost or
doubled: until the device is done, or the stack refuses a start, exactly one
is on its way (`awaits_one`). `attempts_paced` bounds how often a device that
finds no network tries again.
-/
import EspOta.Zigbee.Network

namespace EspOta.Zigbee

/-! ## The signal handlers -/

/-- `ESP_ZB_BDB_MODE_INITIALIZATION` and so on. -/
inductive BdbMode
  | initialization
  | networkFormation
  | networkSteering
  deriving DecidableEq, Repr

/-- `esp_zb_app_signal_type_t`: those a handler names, or any other. -/
inductive SignalType
  | skipStartup
  | deviceFirstStart
  | deviceReboot
  | formation
  | steering
  | deviceAnnce
  | permitJoinStatus
  | other (sigType : UInt32)
  deriving DecidableEq, Repr

/-- `esp_zb_app_signal_t`, and what `esp_zb_bdb_is_factory_new` answers when it is handled. -/
structure Signal where
  sigType : SignalType
  errStatus : EspErr
  factoryNew : Bool
  deriving DecidableEq, Repr

/-- A call of the stack; an alarm runs `bdb_start_top_level_commissioning_cb` after `time` ms. -/
inductive StackCall
  | startTopLevelCommissioning (mode : BdbMode)
  | openNetwork (permitDuration : UInt8)
  | schedulerAlarm (mode : BdbMode) (time : Nat)
  | otaUpgradeServerNotifyReq (req : NotifyReq)
  deriving DecidableEq, Repr

def bdbStartTopLevelCommissioningCb (mode : BdbMode) : List StackCall := [.startTopLevelCommissioning mode]

/-- The server's `esp_zb_app_signal_handler`. -/
def Server.appSignalHandler (rom : Rom) (s : Server) (g : Signal) : List StackCall :=
  match g.sigType with
  | .skipStartup => [.startTopLevelCommissioning .initialization]
  | .deviceFirstStart | .deviceReboot =>
    if g.errStatus = espOk then
      if g.factoryNew then [.startTopLevelCommissioning .networkFormation] else [.openNetwork 180]
    else []
  | .formation =>
    if g.errStatus = espOk then [.startTopLevelCommissioning .networkSteering]
    else [.schedulerAlarm .networkFormation 1000]
  | .steering => []
  | .deviceAnnce =>
    if s.sOtaImageOffset = 0 then [.otaUpgradeServerNotifyReq (zbOtaUpgradeSrvSendNotifyImage rom true)] else []
  | .permitJoinStatus => []
  | .other _ => []

/-- The client's `esp_zb_app_signal_handler`. -/
def Client.appSignalHandler (g : Signal) : List StackCall :=
  match g.sigType with
  | .skipStartup => [.startTopLevelCommissioning .initialization]
  | .deviceFirstStart | .deviceReboot =>
    if g.errStatus = espOk then
      if g.factoryNew then [.startTopLevelCommissioning .networkSteering] else []
    else []
  | .steering => if g.errStatus = espOk then [] else [.schedulerAlarm .networkSteering 5000]
  | .formation | .deviceAnnce | .permitJoinStatus | .other _ => []

/-- The notify request of a call. -/
def StackCall.notify : StackCall → Option NotifyReq
  | .otaUpgradeServerNotifyReq req => some req
  | _ => none

/-- Something comes of the call: a signal, or the alarm. -/
def StackCall.prompts : StackCall → Bool
  | .startTopLevelCommissioning _ | .schedulerAlarm _ _ => true
  | .openNetwork _ | .otaUpgradeServerNotifyReq _ => false

/-- The notify requests are those of the handler seen from OTA, whatever number `sigType` any other signal has. -/
theorem notify_of_signal (rom : Rom) (s : Server) (g : Signal) (sigType : UInt32) :
    (s.appSignalHandler rom g).filterMap StackCall.notify =
      (espZbAppSignalHandler rom s (if g.sigType = .deviceAnnce then .deviceAnnce else .other sigType)).toList := by
  unfold Server.appSignalHandler
  cases g.sigType with
  | deviceAnnce =>
    by_cases h : s.sOtaImageOffset = 0 <;> simp [h, espZbAppSignalHandler, StackCall.notify]
  | skipStartup | steering | permitJoinStatus | other => simp [espZbAppSignalHandler, StackCall.notify]
  | deviceFirstStart | deviceReboot =>
    by_cases he : g.errStatus = espOk <;> cases g.factoryNew <;> simp [he, espZbAppSignalHandler, StackCall.notify]
  | formation => by_cases he : g.errStatus = espOk <;> simp [he, espZbAppSignalHandler, StackCall.notify]

namespace Commissioning

open Lib

/-! ## The machine -/

/-- The two programs; the handler of the server reads the counter. -/
inductive Role
  | server (rom : Rom)
  | client

def Role.handler (r : Role) (counter : Server) (g : Signal) : List StackCall :=
  match r with
  | .server rom => counter.appSignalHandler rom g
  | .client => Client.appSignalHandler g

/-- The commissioning a device tries until it succeeds, and the time between two tries, in ms. -/
def Role.mode : Role → BdbMode
  | .server _ => .networkFormation
  | .client => .networkSteering

def Role.pause : Role → Nat
  | .server _ => 1000
  | .client => 5000

/-- What is on its way from the stack: the first signal after `esp_zb_start(false)`, the answer to a commissioning
it started, or an alarm. -/
inductive Await
  | startup
  | commissioning (mode : BdbMode)
  | alarm (mode : BdbMode) (time : Nat)
  deriving DecidableEq, Repr

/-- What a signal of this type answers, if anything. -/
def answered : SignalType → Option Await
  | .skipStartup => some .startup
  | .deviceFirstStart | .deviceReboot => some (.commissioning .initialization)
  | .formation => some (.commissioning .networkFormation)
  | .steering => some (.commissioning .networkSteering)
  | .deviceAnnce | .permitJoinStatus | .other _ => none

/-- What will come of a call: the stack may refuse to start a commissioning, and then nothing does. -/
def awaited (accepts : Bool) : StackCall → List Await
  | .startTopLevelCommissioning mode => if accepts then [.commissioning mode] else []
  | .schedulerAlarm mode time => [.alarm mode time]
  | .openNetwork _ | .otaUpgradeServerNotifyReq _ => []

/-- The device with its stack. Nothing reads the last six: what is on its way, whether a start was refused, the
answers since boot and the calls made, the latest first, the alarms that ran and how long they took. -/
structure World where
  counter : Server
  awaits : List Await
  refused : Bool
  answers : List Signal
  calls : List StackCall
  fired : Nat
  elapsed : Nat

inductive Event
  /-- A signal, and whether the stack accepts what the handler starts then. -/
  | signal (g : Signal) (accepts : Bool)
  /-- An alarm of `time` ms runs, `late` ms after its time. -/
  | fire (mode : BdbMode) (time late : Nat) (accepts : Bool)
  /-- The OTA handlers leave the counter at `s`. -/
  | ota (s : Server)

namespace World

def boot : World := ⟨.boot, [.startup], false, [], [], 0, 0⟩

def startsOf : StackCall → Option BdbMode
  | .startTopLevelCommissioning mode => some mode
  | _ => none

/-- The modes started, the latest first. -/
def started (y : World) : List BdbMode := y.calls.filterMap startsOf

/-- The calls of a handler. -/
def call (y : World) (calls : List StackCall) (accepts : Bool) : World :=
  { y with awaits := y.awaits ++ calls.flatMap (awaited accepts),
           refused := y.refused || (!accepts && (calls.filterMap startsOf).length != 0),
           calls := calls ++ y.calls }

/-- A signal comes: what it answers is no longer on its way. -/
def hear (y : World) (g : Signal) : World :=
  match answered g.sigType with
  | some w => { y with awaits := y.awaits.erase w, answers := g :: y.answers }
  | none => y

/-- An alarm runs. -/
def ring (y : World) (mode : BdbMode) (time late : Nat) : World :=
  { y with awaits := y.awaits.erase (.alarm mode time), fired := y.fired + 1, elapsed := y.elapsed + time + late }

end World

def step (r : Role) (y : World) : Event → World
  | .signal g accepts => (y.hear g).call (r.handler y.counter g) accepts
  | .fire mode time late accepts => (y.ring mode time late).call (bdbStartTopLevelCommissioningCb mode) accepts
  | .ota s => { y with counter := s }

/-- What is assumed of the stack: it answers each start it accepted at most once, and nothing that was not started,
and it runs an alarm only once it was scheduled, once. -/
def AnswersOnce (y : World) : Event → Prop
  | .signal g _ => ∀ w ∈ answered g.sigType, w ∈ y.awaits
  | .fire mode time _ _ => .alarm mode time ∈ y.awaits
  | .ota _ => True

instance (y : World) (e : Event) : Decidable (AnswersOnce y e) := by
  unfold AnswersOnce; split <;> infer_instance

/-! ## One answer -/

/-- The answer ends the commissioning: nothing is started, or only steering was left. -/
def Role.final (r : Role) (g : Signal) : Bool :=
  match g.sigType, r with
  | .deviceFirstStart, _ | .deviceReboot, _ => g.errStatus != espOk || !g.factoryNew
  | .formation, .client | .steering, .server _ => true
  | .steering, .client => g.errStatus == espOk
  | _, _ => false

/-- An answer leads to one call that something comes of, unless it is final; any other signal to none. -/
theorem prompts_of_signal (r : Role) (counter : Server) (g : Signal) :
    (r.handler counter g).countP StackCall.prompts + (r.final g).toNat = (answered g.sigType).isSome.toNat := by
  obtain ⟨sigType, err, factoryNew⟩ := g
  cases r with
  | client =>
    cases sigType with
    | deviceFirstStart | deviceReboot | steering =>
      by_cases he : err = espOk <;> cases factoryNew <;>
        simp [Role.handler, Client.appSignalHandler, Role.final, answered, StackCall.prompts, he]
    | skipStartup | formation | deviceAnnce | permitJoinStatus | other =>
      simp [Role.handler, Client.appSignalHandler, Role.final, answered, StackCall.prompts]
  | server rom =>
    cases sigType with
    | deviceFirstStart | deviceReboot | formation =>
      by_cases he : err = espOk <;> cases factoryNew <;>
        simp [Role.handler, Server.appSignalHandler, Role.final, answered, StackCall.prompts, he]
    | deviceAnnce =>
      by_cases hc : counter.sOtaImageOffset = 0 <;>
        simp [Role.handler, Server.appSignalHandler, Role.final, answered, StackCall.prompts, hc]
    | skipStartup | steering | permitJoinStatus | other =>
      simp [Role.handler, Server.appSignalHandler, Role.final, answered, StackCall.prompts]

/-- What a device can wait for. -/
def Role.Expects (r : Role) : Await → Prop
  | .startup | .commissioning .initialization => True
  | .commissioning mode => mode = r.mode ∨ r ≠ .client
  | .alarm mode time => mode = r.mode ∧ time = r.pause

/-- Everything an answer can lead to. -/
inductive Leads (r : Role) (g : Signal) : Await → List StackCall → Prop
  | initializes : Leads r g .startup [.startTopLevelCommissioning .initialization]
  | tries : Leads r g (.commissioning .initialization) [.startTopLevelCommissioning r.mode]
  | retries : Leads r g (.commissioning r.mode) [.schedulerAlarm r.mode r.pause]
  | steers : r ≠ .client → Leads r g (.commissioning r.mode) [.startTopLevelCommissioning .networkSteering]
  | ends (w : Await) (calls : List StackCall) : r.final g → (∀ k ∈ calls, k = .openNetwork 180) → Leads r g w calls

theorem leads (r : Role) (counter : Server) {w : Await} (hw : r.Expects w) {g : Signal}
    (hg : answered g.sigType = some w) : Leads r g w (r.handler counter g) := by
  obtain ⟨sigType, err, factoryNew⟩ := g
  cases sigType with
  | skipStartup =>
    obtain rfl : Await.startup = w := by simpa [answered] using hg
    cases r <;> exact .initializes
  | deviceFirstStart | deviceReboot =>
    obtain rfl : Await.commissioning .initialization = w := by simpa [answered] using hg
    by_cases he : err = espOk ∧ factoryNew = true
    · obtain ⟨rfl, rfl⟩ := he
      cases r <;> exact .tries
    · have hends : err = espOk → factoryNew = false := by simpa using he
      refine .ends _ _ ?_ ?_
      · by_cases hok : err = espOk
        · simp [Role.final, hends hok]
        · simp [Role.final, hok]
      · by_cases hok : err = espOk
        · cases r <;> simp [Role.handler, Server.appSignalHandler, Client.appSignalHandler, hok, hends hok]
        · cases r <;> simp [Role.handler, Server.appSignalHandler, Client.appSignalHandler, hok]
  | formation =>
    obtain rfl : Await.commissioning .networkFormation = w := by simpa [answered] using hg
    cases r with
    | client => simp [Role.Expects, Role.mode] at hw
    | server rom =>
      by_cases he : err = espOk
      · have hcalls : (Role.server rom).handler counter ⟨.formation, err, factoryNew⟩ =
            [.startTopLevelCommissioning .networkSteering] := by
          simp [Role.handler, Server.appSignalHandler, he]
        rw [hcalls]
        exact .steers (by simp)
      · have hcalls : (Role.server rom).handler counter ⟨.formation, err, factoryNew⟩ =
            [.schedulerAlarm .networkFormation 1000] := by
          simp [Role.handler, Server.appSignalHandler, he]
        rw [hcalls]
        exact .retries
  | steering =>
    obtain rfl : Await.commissioning .networkSteering = w := by simpa [answered] using hg
    cases r with
    | server rom => exact .ends _ _ (by simp [Role.final]) (by simp [Role.handler, Server.appSignalHandler])
    | client =>
      by_cases he : err = espOk
      · exact .ends _ _ (by simp [Role.final, he]) (by simp [Role.handler, Client.appSignalHandler, he])
      · have hcalls : Role.client.handler counter ⟨.steering, err, factoryNew⟩ =
            [.schedulerAlarm .networkSteering 5000] := by
          simp [Role.handler, Client.appSignalHandler, he]
        rw [hcalls]
        exact .retries
  | deviceAnnce | permitJoinStatus | other => simp [answered] at hg

/-! ## Every run -/

/-- Whatever the stack does, what was started or scheduled and the final answers are as many as the answers and the
alarms together. -/
theorem prompts_accounted (r : Role) (es : List Event) :
    let y := run (step r) .boot es
    y.calls.countP StackCall.prompts + y.answers.countP r.final = y.answers.length + y.fired := by
  refine run_invariant (fun y : World =>
    y.calls.countP StackCall.prompts + y.answers.countP r.final = y.answers.length + y.fired) ?_ rfl es
  intro y e h
  cases e with
  | ota s => exact h
  | fire mode time late accepts =>
    simp only [step, World.call, World.ring, bdbStartTopLevelCommissioningCb, List.cons_append, List.nil_append,
      List.countP_cons, StackCall.prompts, if_true]
    omega
  | signal g accepts =>
    have hprompts := prompts_of_signal r y.counter g
    cases ha : answered g.sigType with
    | none =>
      simp only [ha, Option.isSome_none, Bool.toNat_false] at hprompts
      simp only [step, World.call, World.hear, ha, List.countP_append]
      omega
    | some w =>
      simp only [ha, Option.isSome_some, Bool.toNat_true] at hprompts
      have hfinal : (if r.final g = true then 1 else 0) = (r.final g).toNat := by cases r.final g <;> rfl
      simp only [step, World.call, World.hear, ha, List.countP_append, List.countP_cons, List.length_cons, hfinal]
      omega

/-- What the steps keep with a stack that answers once. -/
structure Keeps (r : Role) (y : World) : Prop where
  awaits : (∃ w, y.awaits = [w] ∧ r.Expects w) ∨
    y.awaits = [] ∧ (y.refused = true ∨ ∃ g ∈ y.answers.head?, r.final g)
  paced : y.started.count r.mode * r.pause ≤ y.elapsed + r.pause
  early : ∀ w, y.awaits = [w] → w = .startup ∨ w = .commissioning .initialization → y.started.count r.mode = 0

theorem Keeps.boot (r : Role) : Keeps r .boot where
  awaits := .inl ⟨.startup, rfl, trivial⟩
  paced := by simp [World.boot, World.started]
  early _ _ _ := rfl

theorem call_start (y : World) (mode : BdbMode) : y.call [.startTopLevelCommissioning mode] true =
    { y with awaits := y.awaits ++ [.commissioning mode],
             calls := .startTopLevelCommissioning mode :: y.calls } := by
  simp [World.call, awaited, World.startsOf]

theorem call_refused (y : World) (mode : BdbMode) : y.call [.startTopLevelCommissioning mode] false =
    { y with refused := true, calls := .startTopLevelCommissioning mode :: y.calls } := by
  simp [World.call, awaited, World.startsOf]

theorem call_alarm (y : World) (mode : BdbMode) (time : Nat) (accepts : Bool) :
    y.call [.schedulerAlarm mode time] accepts =
      { y with awaits := y.awaits ++ [.alarm mode time], calls := .schedulerAlarm mode time :: y.calls } := by
  simp [World.call, awaited, World.startsOf, List.filterMap_cons]

/-- Calls that nothing comes of change nothing but the record of them. -/
theorem call_idle {y : World} {calls : List StackCall} {accepts : Bool}
    (h : ∀ k ∈ calls, awaited accepts k = [] ∧ World.startsOf k = none) :
    y.call calls accepts = { y with calls := calls ++ y.calls } ∧ (y.call calls accepts).started = y.started := by
  have hawaits : calls.flatMap (awaited accepts) = [] := by
    rw [List.flatMap_eq_nil_iff]
    exact fun k hk => (h k hk).1
  have hstarts : calls.filterMap World.startsOf = [] := by
    rw [List.filterMap_eq_nil_iff]
    exact fun k hk => (h k hk).2
  constructor
  · simp [World.call, hawaits, hstarts]
  · simp [World.call, World.started, hstarts]

theorem Keeps.call_idle {r : Role} {y : World} (h : Keeps r y) {calls : List StackCall} {accepts : Bool}
    (hk : ∀ k ∈ calls, awaited accepts k = [] ∧ World.startsOf k = none) : Keeps r (y.call calls accepts) := by
  obtain ⟨heq, hstarted⟩ := Commissioning.call_idle (y := y) hk
  have hpaced := h.paced
  have hearly := h.early
  rw [← hstarted, heq] at hpaced hearly
  rw [heq]
  exact ⟨h.awaits, hpaced, hearly⟩

/-- A start with nothing else on its way. -/
theorem Keeps.start {r : Role} {y : World} (hawaits : y.awaits = []) {mode : BdbMode} (accepts : Bool)
    (hmode : r.Expects (.commissioning mode))
    (hpaced : (mode :: y.started).count r.mode * r.pause ≤ y.elapsed + r.pause)
    (hearly : mode = .initialization → (mode :: y.started).count r.mode = 0) :
    Keeps r (y.call [.startTopLevelCommissioning mode] accepts) := by
  cases accepts with
  | true =>
    rw [call_start]
    refine ⟨.inl ⟨.commissioning mode, by simp [hawaits], hmode⟩, hpaced, fun w hw hfirst => hearly ?_⟩
    have : w = .commissioning mode := by simpa [hawaits] using hw.symm
    subst this
    simpa using hfirst
  | false =>
    rw [call_refused]
    exact ⟨.inr ⟨hawaits, .inl rfl⟩, hpaced, fun w hw => by simp [hawaits] at hw⟩

theorem count_cons_ne {r : Role} {mode : BdbMode} (h : mode ≠ r.mode) (started : List BdbMode) :
    (mode :: started).count r.mode = started.count r.mode := by
  rw [List.count_cons, if_neg (by simpa using h), Nat.add_zero]

theorem Keeps.answer {r : Role} {y : World} (h : Keeps r y) {w : Await} (hw : w ∈ y.awaits) {g : Signal}
    (hg : answered g.sigType = some w) (accepts : Bool) : Keeps r ((y.hear g).call (r.handler y.counter g) accepts) := by
  obtain ⟨w', hawaits, hexpects⟩ | ⟨hnone, -⟩ := h.awaits
  · obtain rfl : w = w' := by simpa [hawaits] using hw
    have hhear : y.hear g = { y with awaits := [], answers := g :: y.answers } := by
      simp [World.hear, hg, hawaits]
    rw [hhear]
    have hlead := leads r y.counter hexpects hg
    generalize r.handler y.counter g = calls at hlead
    cases hlead with
    | initializes =>
      have hcount := h.early _ hawaits (.inl rfl)
      have hne : BdbMode.initialization ≠ r.mode := by cases r <;> simp [Role.mode]
      refine Keeps.start rfl accepts trivial ?_ fun _ => ?_
      · rw [count_cons_ne hne]
        exact h.paced
      · rw [count_cons_ne hne]
        exact hcount
    | tries =>
      have hcount : y.started.count r.mode = 0 := h.early _ hawaits (.inr rfl)
      have hmode : r.Expects (.commissioning r.mode) := by cases r <;> simp [Role.Expects, Role.mode]
      refine Keeps.start rfl accepts hmode ?_ fun hinit => ?_
      · change (r.mode :: y.started).count r.mode * r.pause ≤ y.elapsed + r.pause
        simp [hcount]
      · cases r <;> cases hinit
    | retries =>
      rw [call_alarm]
      exact ⟨.inl ⟨.alarm r.mode r.pause, rfl, rfl, rfl⟩, h.paced, fun w hw => by
        obtain rfl : Await.alarm r.mode r.pause = w := by simpa using hw
        simp⟩
    | steers hr =>
      have hne : BdbMode.networkSteering ≠ r.mode := by cases r <;> simp [Role.mode] at hr ⊢
      refine Keeps.start rfl accepts (.inr hr) ?_ fun hinit => by cases hinit
      rw [count_cons_ne hne]
      exact h.paced
    | ends _ _ hfinal hopens =>
      have hkeeps : Keeps r { y with awaits := [], answers := g :: y.answers } :=
        ⟨.inr ⟨rfl, .inr ⟨g, rfl, hfinal⟩⟩, h.paced, fun w hw => by cases hw⟩
      exact hkeeps.call_idle fun k hk => by rw [hopens k hk]; exact ⟨rfl, rfl⟩
  · rw [hnone] at hw
    cases hw

theorem Keeps.fire {r : Role} {y : World} (h : Keeps r y) {mode : BdbMode} {time : Nat}
    (hw : .alarm mode time ∈ y.awaits) (late : Nat) (accepts : Bool) :
    Keeps r ((y.ring mode time late).call (bdbStartTopLevelCommissioningCb mode) accepts) := by
  obtain ⟨w', hawaits, hexpects⟩ | ⟨hnone, -⟩ := h.awaits
  · obtain rfl : Await.alarm mode time = w' := by simpa [hawaits] using hw
    obtain ⟨rfl, rfl⟩ := hexpects
    have hpaced := h.paced
    have hmode : r.Expects (.commissioning r.mode) := by cases r <;> simp [Role.Expects, Role.mode]
    refine Keeps.start (by simp [World.ring, hawaits]) accepts hmode ?_ fun hinit => ?_
    · change (r.mode :: y.started).count r.mode * r.pause ≤ y.elapsed + r.pause + late + r.pause
      rw [List.count_cons_self, Nat.succ_mul]
      omega
    · cases r <;> cases hinit
  · rw [hnone] at hw
    cases hw

/-- A signal that answers nothing starts nothing. -/
theorem idle_of_unanswered (r : Role) (counter : Server) {g : Signal} (hg : answered g.sigType = none) :
    ∀ k ∈ r.handler counter g, ∀ accepts, awaited accepts k = [] ∧ World.startsOf k = none := by
  have hprompts := prompts_of_signal r counter g
  rw [hg, Option.isSome_none, Bool.toNat_false, Nat.add_eq_zero_iff, List.countP_eq_zero] at hprompts
  intro k hk accepts
  have := hprompts.1 k hk
  cases k with
  | startTopLevelCommissioning | schedulerAlarm => simp [StackCall.prompts] at this
  | openNetwork | otaUpgradeServerNotifyReq => exact ⟨rfl, rfl⟩

theorem Keeps.step {r : Role} {y : World} {e : Event} (h : Keeps r y) (once : AnswersOnce y e) :
    Keeps r (step r y e) := by
  cases e with
  | ota s => exact ⟨h.awaits, h.paced, h.early⟩
  | fire mode time late accepts => exact h.fire once late accepts
  | signal g accepts =>
    cases hg : answered g.sigType with
    | some w => exact h.answer (once w hg) hg accepts
    | none =>
      have hhear : y.hear g = y := by rw [World.hear, hg]
      rw [Commissioning.step, hhear]
      exact h.call_idle fun k hk => idle_of_unanswered r y.counter hg k hk accepts

theorem run_keeps {r : Role} {es : List Event} (once : Meets (step r) AnswersOnce .boot es) :
    Keeps r (run (step r) .boot es) :=
  once.invariant (Keeps r) (fun _ _ h ho => h.step ho) (.boot r)

/-- **Never lost, never twice.** In every run whatsoever each answer that is not final, and each alarm, led to exactly
one more start or alarm. So where the stack answers once, exactly one answer or alarm is on its way to the device,
until the stack refused a start or the latest answer was final. -/
theorem awaits_one (r : Role) (es : List Event) :
    let y := run (step r) .boot es
    y.calls.countP StackCall.prompts + y.answers.countP r.final = y.answers.length + y.fired ∧
    (Meets (step r) AnswersOnce .boot es →
      (∃ w, y.awaits = [w]) ∨ y.awaits = [] ∧ (y.refused = true ∨ ∃ g ∈ y.answers.head?, r.final g)) := by
  intro y
  refine ⟨prompts_accounted r es, fun once => ?_⟩
  rcases (run_keeps once).awaits with ⟨w, hw, -⟩ | hnone
  · exact .inl ⟨w, hw⟩
  · exact .inr hnone

/-- A client whose first steering fails: an announcement in between, a retry 20 ms after its time, and it joins. -/
def retried : List Event :=
  [.signal ⟨.skipStartup, espOk, true⟩ true, .signal ⟨.deviceFirstStart, espOk, true⟩ true,
   .signal ⟨.steering, espFail, true⟩ true, .signal ⟨.deviceAnnce, espOk, true⟩ true,
   .fire .networkSteering 5000 20 true, .signal ⟨.steering, espOk, true⟩ true]

theorem awaits_one_retried :
    let y := run (step .client) .boot (retried.take 4)
    (∃ w, y.awaits = [w]) ∨ y.awaits = [] ∧ (y.refused = true ∨ ∃ g ∈ y.answers.head?, Role.client.final g) :=
  (awaits_one .client (retried.take 4)).2 (by decide)

/-- **Paced.** Where the stack answers once, the tries of forming, or of joining, a network are a second, or five,
apart: there is at most one more of them than such pauses have gone by. -/
theorem attempts_paced (r : Role) (es : List Event) (once : Meets (step r) AnswersOnce .boot es) :
    let y := run (step r) .boot es
    y.started.count r.mode ≤ y.elapsed / r.pause + 1 := by
  intro y
  have hpaced : y.started.count r.mode * r.pause ≤ y.elapsed + r.pause := (run_keeps once).paced
  have hpos : 0 < r.pause := by cases r <;> simp [Role.pause]
  rw [← Nat.add_div_right _ hpos]
  exact (Nat.le_div_iff_mul_le hpos).mpr hpaced

theorem attempts_paced_retried :
    let y := run (step .client) .boot retried
    y.started.count .networkSteering = 2 ∧ y.started.count .networkSteering ≤ y.elapsed / 5000 + 1 :=
  ⟨by decide, attempts_paced .client retried (by decide)⟩

end Commissioning

end EspOta.Zigbee
