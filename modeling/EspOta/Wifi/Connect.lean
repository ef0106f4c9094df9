/-
Connecting the station, `wifi.c`: `wifi_sta_do_connect` and the two event
handlers it registers.

The caller and the event loop's task run concurrently and share the retry
counter and a binary semaphore, so the model is a machine whose actions are
the statements that touch these: an event that finds the event loop idle is
handled, and the handler goes on, statement by statement, between those of
the caller. What the handlers and the call only log is not modelled, nor is
`handler_on_wifi_connect`, which does nothing.
-/
import EspOta.Esp
import EspOta.Lib.CString
import EspOta.Lib.Run

namespace EspOta.Wifi

open Lib

def espErrNoMem : EspErr := 0x101
def espErrWifiNotStarted : EspErr := 0x3002

/-- `NETIF_DESC_STA`. -/
def netifDescSta : CString := ⟨"netif_sta".toList.map fun c => UInt8.ofNat c.toNat, by decide +kernel⟩

/-- `is_our_netif`, for an interface described as `desc`. -/
def isOurNetif (name desc : CString) : Bool := name.strncmp desc (UInt32.ofNat name.bytes.length - 1).toNat

/-- The event loop's task, between the statements of a handler: `s_retry_num` is counted, the limit is
exceeded, or `s_retry_num` is cleared. -/
inductive Handler
  | idle
  | disconnected
  | givingUp
  | gotIp (desc : CString)
  deriving DecidableEq, Repr

/-- Where the call of `wifi_sta_do_connect` is. -/
inductive Caller
  | entered
  | created
  | cleared
  | watching
  | registered
  | configured
  | waiting
  | taken
  | returned (err : EspErr)
  | aborted
  deriving DecidableEq, Repr

/-- A call of `esp_wifi_connect`, in the handler of a disconnection or in `wifi_sta_do_connect`, and its answer. -/
inductive ConnectCall
  | handler (err : EspErr)
  | caller (err : EspErr)
  deriving DecidableEq, Repr

/-- The static variables, the handlers registered, and the two tasks. `semaphore` is the semaphore's handle,
or null, and whether it is given. No statement reads `connects`, the calls made so far. -/
structure Sta where
  retryNum : Int32
  semaphore : Option Bool
  onDisconnect : Bool
  onGotIp : Bool
  handler : Handler
  caller : Caller
  connects : List ConnectCall
  deriving DecidableEq, Repr

/-- What the call does next, with the answer it gets. -/
inductive Statement
  | createSemaphore (ok : Bool)
  | clearRetryNum
  | registerDisconnect (err : EspErr)
  | registerGotIp (err : EspErr)
  /-- `esp_wifi_set_config`, after the handler that does nothing is registered. -/
  | configure (err : EspErr)
  | connect (err : EspErr)
  | takeSemaphore
  | readRetryNum
  deriving DecidableEq, Repr

inductive WifiAction
  /-- `WIFI_EVENT_STA_DISCONNECTED`. -/
  | disconnected
  /-- `IP_EVENT_STA_GOT_IP`, for an interface described as `desc`. -/
  | gotIp (desc : CString)
  /-- The next statement of the handler; `err` is what `esp_wifi_connect` answers if it is called. -/
  | handler (err : EspErr)
  | caller (statement : Statement)
  deriving DecidableEq, Repr

namespace Sta

/-- `xSemaphoreGive`, unless the handle is null. -/
def give (s : Sta) : Sta := { s with semaphore := s.semaphore.map fun _ => true }

/-- `ESP_ERROR_CHECK`. -/
def check (s : Sta) (err : EspErr) (s' : Sta) : Sta := if err = espOk then s' else { s with caller := .aborted }

/-- `handler_on_wifi_disconnectwifi_sta_do_connect` and `handler_on_sta_got_ip`, each after its first statement. -/
def handle? (max : Int32) (s : Sta) (err : EspErr) : Option Sta :=
  let s' := { s with handler := .idle }
  match s.handler with
  | .idle => none
  | .disconnected =>
    if s.retryNum > max then some { s with handler := .givingUp }
    else
      let s' : Sta := { s' with connects := s.connects ++ [.handler err] }
      if err = espErrWifiNotStarted then some s' else some (s'.check err s')
  | .givingUp => some s'.give
  | .gotIp desc => some (if isOurNetif netifDescSta desc then s'.give else s')

/-- `wifi_sta_do_connect`. -/
def call? (max : Int32) (wait : Bool) (s : Sta) (statement : Statement) : Option Sta :=
  match s.caller, statement with
  | .entered, .createSemaphore ok =>
    if !wait then none
    else if ok then some { s with semaphore := some false, caller := .created }
    else some { s with semaphore := none, caller := .returned espErrNoMem }
  | .entered, .clearRetryNum => if wait then none else some { s with retryNum := 0, caller := .cleared }
  | .created, .clearRetryNum => some { s with retryNum := 0, caller := .cleared }
  | .cleared, .registerDisconnect err => some (s.check err { s with onDisconnect := true, caller := .watching })
  | .watching, .registerGotIp err => some (s.check err { s with onGotIp := true, caller := .registered })
  | .registered, .configure err => some (s.check err { s with caller := .configured })
  | .configured, .connect err =>
    let s : Sta := { s with connects := s.connects ++ [.caller err] }
    if err ≠ espOk then some { s with caller := .returned err }
    else some { s with caller := if wait then .waiting else .returned espOk }
  | .waiting, .takeSemaphore =>
    -- portMAX_DELAY: it waits until the semaphore is given.
    if s.semaphore = some true then some { s with semaphore := some false, caller := .taken } else none
  | .taken, .readRetryNum => some { s with caller := .returned (if s.retryNum > max then espFail else espOk) }
  | _, _ => none

def step? (max : Int32) (wait : Bool) (s : Sta) : WifiAction → Option Sta
  | .disconnected =>
    if s.handler ≠ .idle then none
    else if s.onDisconnect then some { s with retryNum := s.retryNum + 1, handler := .disconnected }
    else some s
  | .gotIp desc =>
    if s.handler ≠ .idle then none
    else if s.onGotIp then some { s with retryNum := 0, handler := .gotIp desc }
    else some s
  | .handler err => s.handle? max err
  | .caller statement => s.call? max wait statement

end Sta

/-! ## What a step can be -/

theorem check_eq (s : Sta) (err : EspErr) (s' : Sta) :
    err = espOk ∧ s.check err s' = s' ∨ s.check err s' = { s with caller := .aborted } := by
  unfold Sta.check
  split
  · exact .inl ⟨‹_›, rfl⟩
  · exact .inr rfl

/-- Everything a statement of a handler can be; `err` is what `esp_wifi_connect` answers if it is called. -/
inductive Sta.Handles (max : Int32) (s : Sta) (err : EspErr) : Sta → Prop
  | exceeded : s.handler = .disconnected → max < s.retryNum → Handles max s err { s with handler := .givingUp }
  | reconnected : s.handler = .disconnected → s.retryNum ≤ max → err = espOk ∨ err = espErrWifiNotStarted →
      Handles max s err { s with handler := .idle, connects := s.connects ++ [.handler err] }
  /-- A failing `ESP_ERROR_CHECK`. -/
  | aborted : s.handler = .disconnected → s.retryNum ≤ max →
      Handles max s err
        { s with handler := .idle, caller := .aborted, connects := s.connects ++ [.handler err] }
  | gaveUp : s.handler = .givingUp → Handles max s err { s with handler := .idle }.give
  | gotOurs (desc : CString) : s.handler = .gotIp desc → isOurNetif netifDescSta desc = true →
      Handles max s err { s with handler := .idle }.give
  | gotOther (desc : CString) : s.handler = .gotIp desc → isOurNetif netifDescSta desc = false →
      Handles max s err { s with handler := .idle }

theorem Sta.handles {max : Int32} {s s' : Sta} {err : EspErr} (h : s.handle? max err = some s') :
    s.Handles max err s' := by
  unfold Sta.handle? at h
  split at h
  · cases h
  · split at h
    · cases h; exact .exceeded ‹_› ‹_›
    · rename_i hh hle
      have hle : s.retryNum ≤ max := Int32.not_lt.mp hle
      split at h
      · cases h; exact .reconnected hh hle (.inr ‹_›)
      · cases h
        rcases check_eq { s with handler := .idle, connects := s.connects ++ [.handler err] } err
          { s with handler := .idle, connects := s.connects ++ [.handler err] } with ⟨he, heq⟩ | heq
        · rw [heq]; exact .reconnected hh hle (.inl he)
        · rw [heq]; exact .aborted hh hle
  · cases h; exact .gaveUp ‹_›
  · cases h
    split
    · exact .gotOurs _ ‹_› ‹_›
    · exact .gotOther _ ‹_› (eq_false_of_ne_true ‹_›)

/-- Everything a statement of the call can be. -/
inductive Sta.Calls (max : Int32) (wait : Bool) (s : Sta) : Statement → Sta → Prop
  | created : s.caller = .entered → wait = true →
      Calls max wait s (.createSemaphore true) { s with semaphore := some false, caller := .created }
  | notCreated : s.caller = .entered → wait = true →
      Calls max wait s (.createSemaphore false) { s with semaphore := none, caller := .returned espErrNoMem }
  | cleared : s.caller = .created ∨ (s.caller = .entered ∧ wait = false) →
      Calls max wait s .clearRetryNum { s with retryNum := 0, caller := .cleared }
  | watching : s.caller = .cleared →
      Calls max wait s (.registerDisconnect espOk) { s with onDisconnect := true, caller := .watching }
  | registered : s.caller = .watching →
      Calls max wait s (.registerGotIp espOk) { s with onGotIp := true, caller := .registered }
  | configured : s.caller = .registered → Calls max wait s (.configure espOk) { s with caller := .configured }
  | connected : s.caller = .configured →
      Calls max wait s (.connect espOk)
        { s with caller := if wait then .waiting else .returned espOk, connects := s.connects ++ [.caller espOk] }
  | notConnected (err : EspErr) : s.caller = .configured → err ≠ espOk →
      Calls max wait s (.connect err)
        { s with caller := .returned err, connects := s.connects ++ [.caller err] }
  | taken : s.caller = .waiting → s.semaphore = some true →
      Calls max wait s .takeSemaphore { s with semaphore := some false, caller := .taken }
  | read : s.caller = .taken →
      Calls max wait s .readRetryNum { s with caller := .returned (if s.retryNum > max then espFail else espOk) }
  /-- A failing `ESP_ERROR_CHECK`. -/
  | aborted (statement : Statement) : (∃ err, statement = .registerDisconnect err ∨
      statement = .registerGotIp err ∨ statement = .configure err) →
      Calls max wait s statement { s with caller := .aborted }

theorem Sta.calls {max : Int32} {wait : Bool} {s s' : Sta} {statement : Statement}
    (h : s.call? max wait statement = some s') : s.Calls max wait statement s' := by
  unfold Sta.call? at h
  split at h
  · rename_i ok hc
    cases wait with
    | false => cases h
    | true =>
      cases ok <;> cases h
      · exact .notCreated hc rfl
      · exact .created hc rfl
  · rename_i hc
    cases wait with
    | false => cases h; exact .cleared (.inr ⟨hc, rfl⟩)
    | true => cases h
  · cases h; exact .cleared (.inl ‹_›)
  · rename_i err hc
    cases h
    rcases check_eq s err { s with onDisconnect := true, caller := .watching } with ⟨rfl, heq⟩ | heq <;> rw [heq]
    · exact .watching hc
    · exact .aborted _ ⟨err, .inl rfl⟩
  · rename_i err hc
    cases h
    rcases check_eq s err { s with onGotIp := true, caller := .registered } with ⟨rfl, heq⟩ | heq <;> rw [heq]
    · exact .registered hc
    · exact .aborted _ ⟨err, .inr (.inl rfl)⟩
  · rename_i err hc
    cases h
    rcases check_eq s err { s with caller := .configured } with ⟨rfl, heq⟩ | heq <;> rw [heq]
    · exact .configured hc
    · exact .aborted _ ⟨err, .inr (.inr rfl)⟩
  · rename_i err hc
    split at h
    · cases h; exact .notConnected err hc ‹_›
    · rename_i he
      obtain rfl : err = espOk := Decidable.not_not.mp he
      cases h; exact .connected hc
  · split at h
    · cases h; exact .taken ‹_› ‹_›
    · cases h
  · cases h; exact .read ‹_›
  · cases h

/-- Everything an event can be. -/
inductive Sta.Sees (s : Sta) : WifiAction → Sta → Prop
  | unseen (a : WifiAction) : (a = .disconnected ∧ s.onDisconnect = false) ∨
      (∃ desc, a = .gotIp desc ∧ s.onGotIp = false) → Sees s a s
  | counted : s.handler = .idle → s.onDisconnect = true →
      Sees s .disconnected { s with retryNum := s.retryNum + 1, handler := .disconnected }
  | reset (desc : CString) : s.handler = .idle → s.onGotIp = true →
      Sees s (.gotIp desc) { s with retryNum := 0, handler := .gotIp desc }

/-- Everything a step can be. -/
inductive Sta.Acts (max : Int32) (wait : Bool) (s s' : Sta) : WifiAction → Prop
  | sees (a : WifiAction) : s.Sees a s' → Acts max wait s s' a
  | handles (err : EspErr) : s.Handles max err s' → Acts max wait s s' (.handler err)
  | calls (statement : Statement) : s.Calls max wait statement s' → Acts max wait s s' (.caller statement)

theorem Sta.acts {max : Int32} {wait : Bool} {s s' : Sta} {a : WifiAction} (h : s.step? max wait a = some s') :
    s.Acts max wait s' a := by
  unfold Sta.step? at h
  split at h
  · split at h
    · cases h
    · rename_i hi
      have hi := Decidable.not_not.mp hi
      split at h
      · cases h; exact .sees _ (.counted hi ‹_›)
      · cases h; exact .sees _ (.unseen _ (.inl ⟨rfl, eq_false_of_ne_true ‹_›⟩))
  · split at h
    · cases h
    · rename_i hi
      have hi := Decidable.not_not.mp hi
      split at h
      · cases h; exact .sees _ (.reset _ hi ‹_›)
      · cases h; exact .sees _ (.unseen _ (.inr ⟨_, rfl, eq_false_of_ne_true ‹_›⟩))
  · exact .handles _ (Sta.handles h)
  · exact .calls _ (Sta.calls h)

end EspOta.Wifi
