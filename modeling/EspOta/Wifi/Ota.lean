/-
The Wi-Fi updater, `ota.c`: the HTTP event handler with the global buffer it
fills, `get_last_firmware_version`, which parses that buffer, and
`ota_update_task`.

A write or a read outside its array, or of a local of a function that has
returned, stops the model with a `Fault`: in C anything may follow. `cJSON_Parse` is a parameter; a number it reads is an
element of any linear order. The URL of the version file and what the code
only logs are not modelled.
-/
import EspOta.Esp
import EspOta.Lib.CString
import EspOta.Lib.Loops

namespace EspOta.Wifi

open Lib

/-- An access outside its array, or to a local that is gone. -/
inductive Fault
  | rcvBufferOverflow
  | rcvBufferUnterminated
  | urlOverflow
  /-- The task reads `ota_param` when `app_main` has returned. -/
  | paramGone
  deriving DecidableEq, Repr

/-! ## The receive buffer -/

abbrev httpRcvBufferSize : Nat := 500

/-- `http_rcv_buffer`. -/
abbrev RcvBuffer := CArray httpRcvBufferSize

/-- `esp_http_client_event_id_t`. -/
inductive HttpEventId
  | error | onConnected | headerSent | onHeader | onData | onFinish | disconnected | redirect
  deriving DecidableEq, Repr

/-- `esp_http_client_event_t`, with what `esp_http_client_is_chunked_response` answers for its client. -/
structure HttpEvent where
  eventId : HttpEventId
  data : List UInt8
  chunked : Bool
  deriving DecidableEq, Repr

/-- `_http_event_handler`, which always returns `ESP_OK`. -/
def httpEventHandler (buf : RcvBuffer) (evt : HttpEvent) : Except Fault RcvBuffer :=
  match evt.eventId with
  | .onData =>
    if !evt.chunked then
      match buf.strncpy? evt.data with
      | some buf => .ok buf
      | none => .error .rcvBufferOverflow
    else .ok buf
  | _ => .ok buf

/-- A request: the events the client reports to the handler, and what the call returns. -/
structure Response where
  events : List HttpEvent
  err : EspErr
  deriving DecidableEq, Repr

/-- `esp_http_client_perform`, and `esp_https_ota` as far as the handler sees it. -/
def perform (r : Response) (buf : RcvBuffer) : Except Fault RcvBuffer := r.events.foldlM httpEventHandler buf

/-! ## The version document -/

/-- A member of a JSON object; `V` are the numbers. -/
inductive JsonValue (V : Type)
  | number (value : V)
  | string (value : CString)
  | other
  deriving DecidableEq, Repr

/-- A parsed document by its members, in order; one that is not an object has none. -/
structure Json (V : Type) where
  members : List (String × JsonValue V)

variable {V : Type}

/-- `cJSON_GetObjectItemCaseSensitive`. -/
def Json.getObjectItem (json : Json V) (name : String) : Option (JsonValue V) :=
  (json.members.find? (·.1 = name)).map (·.2)

def jsonFormatVersionAttribute : String := "last_version"
def jsonFormatBinlocationAttribute : String := "bin_url"

/-- `char bin_url[200]`. -/
abbrev binUrlSize : Nat := 200

abbrev BinUrl := CArray binUrlSize

variable [LinearOrder V]

/-- What `get_last_firmware_version` decides from the parsed document. -/
def Json.newVersionUrl (json : Json V) (firmwareVersion : V) : Option CString :=
  match json.getObjectItem jsonFormatVersionAttribute with
  | some (.number newVersion) =>
    if newVersion > firmwareVersion then
      match json.getObjectItem jsonFormatBinlocationAttribute with
      | some (.string url) => some url
      | _ => none
    else none
  | _ => none

/-- `get_last_firmware_version`: what it returns and leaves in `http_rcv_buffer` and `new_version_url`. -/
def getLastFirmwareVersion (parse : CString → Option (Json V)) (response : Response) (firmwareVersion : V)
    (buf : RcvBuffer) (newVersionUrl : BinUrl) : Except Fault (EspErr × RcvBuffer × BinUrl) := do
  let buf ← perform response buf
  if response.err ≠ espOk then return (response.err, buf, newVersionUrl)
  match buf.read? with
  | none => .error .rcvBufferUnterminated
  | some text =>
    match parse text with
    | none => return (espFail, buf, newVersionUrl)
    | some json =>
      match json.newVersionUrl firmwareVersion with
      | none => return (espFail, buf, newVersionUrl)
      | some url =>
        match newVersionUrl.strcpy? url with
        | none => .error .urlOverflow
        | some newVersionUrl => return (espOk, buf, newVersionUrl)

/-- How `ota_update_task` ends: in `esp_restart`, or by returning. -/
inductive Exit | restarted | returned
  deriving DecidableEq, Repr

/-- `ota_update_task`. `binUrl` is its array before anything writes it, `httpsOta` what `esp_https_ota`
does with a URL. -/
def otaUpdateTask (parse : CString → Option (Json V)) (response : Response) (httpsOta : CString → Response)
    (firmware : V) (buf : RcvBuffer) (binUrl : BinUrl) : Except Fault (Exit × RcvBuffer) := do
  let (err, buf, binUrl) ← getLastFirmwareVersion parse response firmware buf binUrl
  if err = espOk then
    match binUrl.read? with
    | none => .error .urlOverflow
    | some url =>
      let buf ← perform (httpsOta url) buf
      if (httpsOta url).err = espOk then return (.restarted, buf) else return (.returned, buf)
  else return (.returned, buf)

end EspOta.Wifi
