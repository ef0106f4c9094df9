/-
How often the station reconnects: what the handler of a disconnection does
over any sequence of events, from the statement of `wifi_sta_do_connect` that
clears the counter on, whatever the call itself still has to do.

The tally beside the tasks counts the disconnections in a row that found their
handler registered, and marks where among the calls of `esp_wifi_connect` the
row began; `Bounded` relates both to the static counter. A GOT_IP of any
interface clears the counter before its handler looks whose it is, so nothing
depends on the interface here.
-/
import EspOta.Wifi.ConnectRuns

namespace EspOta.Wifi

open Lib

/-- The tasks, and the tally since the last GOT_IP that was handled, or the start. -/
structure Reconnects where
  sta : Sta
  /-- WIFI_EVENT_STA_DISCONNECTED events handled. -/
  row : Nat
  /-- How many calls of `esp_wifi_connect` were made before. -/
  before : Nat
  deriving DecidableEq, Repr

def ConnectCall.ofHandler : ConnectCall → Bool
  | .handler _ => true
  | .caller _ => false

def isEvent : WifiAction → Bool
  | .disconnected | .gotIp _ => true
  | .handler _ | .caller _ => false

namespace Reconnects

def start (s : Sta) : Reconnects := ⟨s, 0, s.connects.length⟩

/-- The handler's calls of `esp_wifi_connect` in the row. -/
def attempts (w : Reconnects) : Nat := (w.sta.connects.drop w.before).countP ConnectCall.ofHandler

def tally (w : Reconnects) (s : Sta) : WifiAction → Reconnects
  | .disconnected => ⟨s, if w.sta.onDisconnect then w.row + 1 else w.row, w.before⟩
  | .gotIp _ => if w.sta.onGotIp then ⟨s, 0, s.connects.length⟩ else ⟨s, w.row, w.before⟩
  | .handler _ | .caller _ => ⟨s, w.row, w.before⟩

/-- An action that cannot happen in a state leaves it as it is. -/
def step (max : Int32) (wait : Bool) (w : Reconnects) (a : WifiAction) : Reconnects :=
  match w.sta.step? max wait a with
  | some s => w.tally s a
  | none => w

/-- `wifi_sta_do_connect` has cleared the counter, and no handler is at work. -/
structure Ready (s : Sta) : Prop where
  retryNum : s.retryNum = 0
  handler : s.handler = .idle
  caller : s.caller ≠ .entered ∧ s.caller ≠ .created

/-- What the handler has attempted, by where it is. -/
def expected (limit row : Nat) : Handler → Nat
  | .disconnected => min (row - 1) limit
  | .idle | .givingUp | .gotIp _ => min row limit

structure Bounded (max : Int32) (w : Reconnects) : Prop where
  caller : w.sta.caller ≠ .entered ∧ w.sta.caller ≠ .created
  before : w.before ≤ w.sta.connects.length
  count : w.sta.retryNum.toInt = w.row
  attempts : w.attempts = expected max.toInt.toNat w.row w.sta.handler
  row : w.sta.handler = .disconnected → 0 < w.row
  exceeded : w.sta.handler = .givingUp → max.toInt < w.row

theorem attempts_start (s : Sta) (row : Nat) : attempts ⟨s, row, s.connects.length⟩ = 0 := by
  simp [attempts]

theorem Ready.bounded {s : Sta} (h : Ready s) (max : Int32) : Bounded max (start s) where
  caller := h.caller
  before := Nat.le_refl _
  count := by rw [start, h.retryNum]; rfl
  attempts := by rw [start, attempts_start, h.handler]; simp [expected]
  row hh := by simp [start, h.handler] at hh
  exceeded hh := by simp [start, h.handler] at hh

/-- A call more. -/
theorem attempts_snoc {s s' : Sta} (row : Nat) {row' before : Nat} (hle : before ≤ s.connects.length) {k : ConnectCall}
    (hs : s'.connects = s.connects ++ [k]) :
    attempts ⟨s', row', before⟩ = attempts ⟨s, row, before⟩ + k.ofHandler.toNat := by
  rw [attempts, attempts, hs, List.drop_append_of_le_length hle, List.countP_append]
  cases k <;> rfl

section
variable {max : Int32} {wait : Bool} {w : Reconnects} (h : Bounded max w)
include h

theorem Bounded.sees {a : WifiAction} {s : Sta} (hs : w.sta.Sees a s) (hroom : w.row + 1 < 2 ^ 31) :
    Bounded max (w.tally s a) := by
  cases hs with
  | unseen _ hu => rcases hu with ⟨rfl, hoff⟩ | ⟨desc, rfl, hoff⟩ <;> simpa [tally, hoff] using h
  | counted hi hreg =>
    have hcount := h.count
    have hattempts := h.attempts
    simp only [tally, hreg, if_true]
    refine ⟨h.caller, h.before, ?_, ?_, fun _ => Nat.succ_pos _, by simp⟩
    · dsimp only
      rw [ConnectRun.toInt_succ (by omega) (by omega)]
      omega
    · rw [hi] at hattempts
      exact hattempts
  | reset desc hi hreg =>
    simp only [tally, hreg, if_true]
    exact ⟨h.caller, Nat.le_refl _, rfl, attempts_start _ _, by simp, by simp⟩

/-- The statement of the handler that attempts. -/
theorem Bounded.attempt (hh : w.sta.handler = .disconnected) (hle : w.sta.retryNum ≤ max) {s : Sta} {err : EspErr}
    (hs : s.connects = w.sta.connects ++ [.handler err]) :
    Reconnects.attempts ⟨s, w.row, w.before⟩ = min w.row max.toInt.toNat := by
  have hcount := h.count
  have hattempts := h.attempts
  have hpos := h.row hh
  have hsnoc : Reconnects.attempts ⟨s, w.row, w.before⟩ = w.attempts + 1 := attempts_snoc w.row h.before hs
  rw [hh, expected] at hattempts
  rw [Int32.le_iff_toInt_le] at hle
  omega

theorem Bounded.handles (h0 : 0 ≤ max) {err : EspErr} {s : Sta} (hs : w.sta.Handles max err s) :
    Bounded max (w.tally s (.handler err)) := by
  have hcount := h.count
  have hattempts := h.attempts
  have hmax : 0 ≤ max.toInt := Int32.le_iff_toInt_le.mp h0
  cases hs with
  | exceeded hh hlt =>
    rw [Int32.lt_iff_toInt_lt] at hlt
    rw [hh, expected] at hattempts
    refine ⟨h.caller, h.before, hcount, ?_, by simp [tally], fun _ => ?_⟩
    · show w.attempts = min w.row max.toInt.toNat
      omega
    · show max.toInt < w.row
      omega
  | reconnected hh hle =>
    refine ⟨h.caller, ?_, hcount, h.attempt hh hle rfl, by simp [tally], by simp [tally]⟩
    exact Nat.le_trans h.before (List.prefix_append _ _).length_le
  | aborted hh hle =>
    refine ⟨by simp [tally], ?_, hcount, h.attempt hh hle rfl, by simp [tally], by simp [tally]⟩
    exact Nat.le_trans h.before (List.prefix_append _ _).length_le
  | gaveUp hh | gotOurs desc hh | gotOther desc hh =>
    rw [hh] at hattempts
    exact ⟨h.caller, h.before, hcount, hattempts, by simp [tally, Sta.give], by simp [tally, Sta.give]⟩

/-- A call of `wifi_sta_do_connect` is none of the handler. -/
theorem Bounded.connect {s : Sta} (hcaller : s.caller ≠ .entered ∧ s.caller ≠ .created) {err : EspErr}
    (hconnects : s.connects = w.sta.connects ++ [.caller err]) (hn : s.retryNum = w.sta.retryNum)
    (hh : s.handler = w.sta.handler) : Bounded max ⟨s, w.row, w.before⟩ := by
  refine ⟨hcaller, ?_, ?_, ?_, ?_, ?_⟩
  · dsimp only
    rw [hconnects]
    exact Nat.le_trans h.before (List.prefix_append _ _).length_le
  · dsimp only
    rw [hn]
    exact h.count
  · have hsnoc : Reconnects.attempts ⟨s, w.row, w.before⟩ = w.attempts := attempts_snoc w.row h.before hconnects
    dsimp only
    rw [hsnoc, hh]
    exact h.attempts
  · dsimp only
    rw [hh]
    exact h.row
  · dsimp only
    rw [hh]
    exact h.exceeded

theorem Bounded.calls {statement : Statement} {s : Sta} (hs : w.sta.Calls max wait statement s) :
    Bounded max (w.tally s (.caller statement)) := by
  cases hs with
  | created hc => exact absurd hc h.caller.1
  | notCreated hc => exact absurd hc h.caller.1
  | cleared hc =>
    rcases hc with hc | ⟨hc, -⟩
    · exact absurd hc h.caller.2
    · exact absurd hc h.caller.1
  | connected =>
    refine h.connect ?_ rfl rfl rfl
    cases wait <;> simp
  | notConnected => exact h.connect (by simp) rfl rfl rfl
  | watching | registered | configured | taken | read | aborted =>
    exact ⟨by simp [tally], h.before, h.count, h.attempts, h.row, h.exceeded⟩

theorem Bounded.step (h0 : 0 ≤ max) (a : WifiAction) (hroom : isEvent a = true → w.row + 1 < 2 ^ 31) :
    Bounded max (step max wait w a) := by
  unfold Reconnects.step
  cases hs : w.sta.step? max wait a with
  | none => exact h
  | some s =>
    cases Sta.acts hs with
    | sees _ hsees =>
      refine h.sees hsees (hroom ?_)
      cases hsees with
      | unseen _ hu => rcases hu with ⟨rfl, -⟩ | ⟨desc, rfl, -⟩ <;> rfl
      | counted | reset => rfl
    | handles err hhandles => exact h.handles h0 hhandles
    | calls statement hcalls => exact h.calls hcalls

end

/-! ## A run -/

/-- How many events there are. -/
def events (es : List WifiAction) : Nat := es.countP isEvent

theorem row_step (max : Int32) (wait : Bool) (w : Reconnects) (a : WifiAction) :
    (step max wait w a).row ≤ w.row + (isEvent a).toNat := by
  unfold step
  split
  · cases a with
    | disconnected =>
      simp only [tally, isEvent, Bool.toNat_true]
      split <;> omega
    | gotIp desc =>
      simp only [tally]
      split <;> simp
    | handler err | caller statement => exact Nat.le_refl _
  · exact Nat.le_add_right _ _

/-- As many events in a row as there were at most, so the counter does not overflow. -/
theorem run_bounded {max : Int32} (h0 : 0 ≤ max) (wait : Bool) {s : Sta} (hs : Ready s) {es : List WifiAction}
    (hfew : events es < 2 ^ 31 - 1) : Bounded max (run (step max wait) (start s) es) := by
  refine (run_history (fun fs w => events fs < 2 ^ 31 - 1 → Bounded max w ∧ w.row ≤ events fs) ?_ ?_ es hfew).1
  · intro fs w a ih hroom
    have happend : events (fs ++ [a]) = events fs + (isEvent a).toNat := by
      cases ha : isEvent a <;> simp [events, ha]
    have hrow := row_step max wait w a
    obtain ⟨hw, hle⟩ := ih (by omega)
    refine ⟨hw.step h0 a fun ha => ?_, by omega⟩
    rw [ha, Bool.toNat_true] at happend
    omega
  · intro _
    exact ⟨hs.bounded max, Nat.zero_le _⟩

theorem expected_le (limit row : Nat) (handler : Handler) : expected limit row handler ≤ limit := by
  cases handler with
  | disconnected => exact Nat.min_le_right _ _
  | idle | givingUp | gotIp => exact Nat.min_le_right _ _

/-- The statement of the call that makes a state ready. -/
theorem ready_of_call (max : Int32) (wait : Bool) {s : Sta} (hi : s.handler = .idle)
    (hc : s.caller = .created ∨ s.caller = .entered ∧ wait = false) :
    Ready (step max wait (start s) (.caller .clearRetryNum)).sta := by
  have hstep : (step max wait (start s) (.caller .clearRetryNum)).sta = { s with retryNum := 0, caller := .cleared } := by
    rcases hc with hc | ⟨hc, rfl⟩
    all_goals simp [step, Sta.step?, start, hc, Sta.call?, tally]
  rw [hstep]
  exact ⟨rfl, hi, by simp⟩

theorem connects_of_le {max : Int32} (wait : Bool) {s : Sta} (hh : s.handler = .disconnected)
    (hle : ¬ s.retryNum > max) (err : EspErr) :
    ∃ s', s.step? max wait (.handler err) = some s' ∧ s'.connects = s.connects ++ [.handler err] := by
  simp only [Sta.step?, Sta.handle?, hh, if_neg hle]
  split
  · exact ⟨_, rfl, rfl⟩
  · refine ⟨_, rfl, ?_⟩
    unfold Sta.check
    split <;> rfl

/-- **Bounded reconnection.** Among the disconnections in a row the handler attempts the first `limit` and no
other; it gives up each later one, and gives the semaphore if there is one. A GOT_IP starts the row anew. -/
theorem reconnect_bounded {max : Int32} (h0 : 0 ≤ max) (wait : Bool) {s : Sta} (hs : Ready s)
    {es : List WifiAction} (hfew : events es < 2 ^ 31 - 1) :
    let w := run (step max wait) (start s) es
    let limit := max.toInt.toNat
    w.attempts ≤ limit ∧ (w.sta.handler ≠ .disconnected → w.attempts = min w.row limit) ∧
      (w.sta.handler = .idle →
        (w.sta.onDisconnect = true → step max wait w .disconnected =
          ⟨{ w.sta with retryNum := w.sta.retryNum + 1, handler := .disconnected }, w.row + 1, w.before⟩) ∧
        (w.sta.onGotIp = true → ∀ desc, step max wait w (.gotIp desc) =
            ⟨{ w.sta with retryNum := 0, handler := .gotIp desc }, 0, w.sta.connects.length⟩ ∧
          (step max wait w (.gotIp desc)).attempts = 0)) ∧
      (w.sta.handler = .disconnected → ∀ err,
        (w.row ≤ limit →
          (step max wait w (.handler err)).sta.connects = w.sta.connects ++ [.handler err] ∧
          (step max wait w (.handler err)).attempts = w.attempts + 1) ∧
        (limit < w.row → step max wait w (.handler err) = { w with sta := { w.sta with handler := .givingUp } })) ∧
      (w.sta.handler = .givingUp → ∀ err, limit < w.row ∧ step max wait w (.handler err) =
        { w with sta := { w.sta with handler := .idle, semaphore := w.sta.semaphore.map fun _ => true } }) := by
  intro w limit
  have hw : Bounded max w := run_bounded h0 wait hs hfew
  have hmax : 0 ≤ max.toInt := Int32.le_iff_toInt_le.mp h0
  have hcount := hw.count
  refine ⟨?_, ?_, ?_, ?_, ?_⟩
  · rw [hw.attempts]
    exact expected_le _ _ _
  · intro hh
    rw [hw.attempts]
    cases hhandler : w.sta.handler with
    | disconnected => exact absurd hhandler hh
    | idle | givingUp | gotIp => rfl
  · intro hh
    constructor
    · intro hreg
      simp [step, Sta.step?, hh, hreg, tally]
    · intro hreg desc
      have hstep : step max wait w (.gotIp desc) =
          ⟨{ w.sta with retryNum := 0, handler := .gotIp desc }, 0, w.sta.connects.length⟩ := by
        simp [step, Sta.step?, hh, hreg, tally]
      exact ⟨hstep, by rw [hstep]; exact attempts_start { w.sta with retryNum := 0, handler := .gotIp desc } 0⟩
  · intro hh err
    constructor
    · intro hle
      have hwithin : ¬ w.sta.retryNum > max := by
        rw [gt_iff_lt, Int32.lt_iff_toInt_lt]
        omega
      obtain ⟨s', hs', hconnects⟩ := connects_of_le wait hh hwithin err
      have hstep : step max wait w (.handler err) = ⟨s', w.row, w.before⟩ := by simp [step, hs', tally]
      rw [hstep]
      exact ⟨hconnects, attempts_snoc w.row hw.before hconnects⟩
    · intro hlt
      have hexceeded : w.sta.retryNum > max := by
        rw [gt_iff_lt, Int32.lt_iff_toInt_lt]
        omega
      simp [step, Sta.step?, Sta.handle?, hh, hexceeded, tally]
  · intro hh err
    have hexceeded := hw.exceeded hh
    refine ⟨by omega, ?_⟩
    simp [step, Sta.step?, Sta.handle?, hh, tally, Sta.give]

/-- Limit 1: a disconnection before GOT_IP has its handler is reconnected, and a second one given up. -/
def betweenRegistrations : List WifiAction :=
  [.caller (.registerDisconnect espOk), .disconnected, .handler espOk, .caller (.registerGotIp espOk), .disconnected,
    .handler espOk]

/-- The call just after it has cleared the counter. -/
def clearedOne : Sta := { ConnectRun.fresh with caller := .cleared, semaphore := some false }

theorem reconnect_bounded_one :
    let w := run (step 1 true) (start clearedOne) betweenRegistrations
    w.attempts = 1 ∧ step 1 true w (.handler espOk) =
      { w with sta := { w.sta with handler := .idle, semaphore := some true } } := by
  have h := @reconnect_bounded 1 (by decide) true clearedOne ⟨rfl, rfl, by decide⟩ betweenRegistrations (by decide)
  have hh : (run (step 1 true) (start clearedOne) betweenRegistrations).sta.handler = .givingUp := by decide +kernel
  have hrow : (run (step 1 true) (start clearedOne) betweenRegistrations).row = 2 := by decide +kernel
  have hsemaphore : (run (step 1 true) (start clearedOne) betweenRegistrations).sta.semaphore = some false := by
    decide +kernel
  generalize run (step 1 true) (start clearedOne) betweenRegistrations = w at h hh hrow hsemaphore
  obtain ⟨-, hattempts, -, -, hgives⟩ := h
  refine ⟨?_, ?_⟩
  · rw [hattempts (by simp [hh]), hrow]
    rfl
  · rw [(hgives hh espOk).2, hsemaphore]
    rfl

end Reconnects

end EspOta.Wifi
