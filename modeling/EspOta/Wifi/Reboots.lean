/-
The Wi-Fi updater over its reboots. Each boot runs `ota_update_task` once,
against a version document and binaries that may have changed since; the
firmware is the binary last installed. As long as no boot leaves its arrays it
only ever goes up, and against one document at most once (`no_rollback`); a
boot that does leave them may install anything.
-/
import EspOta.Lib.Run
import EspOta.Wifi.Exits

namespace EspOta.Wifi

open Lib

variable {V : Type} [LinearOrder V]

/-- What a boot meets: the request's outcome, what `esp_https_ota` does with each URL, the version each binary is
compiled with, and what the task's stack held in `bin_url`. -/
structure Boot (V : Type) where
  response : Response
  httpsOta : CString → Response
  binary : CString → V
  binUrl : BinUrl
  /-- What is installed after an access outside its array, if anything: there anything may follow. -/
  astray : Option V

/-- The device: its firmware, what was installed so far, in order, and the accesses outside their arrays. -/
structure Device (V : Type) where
  firmware : V
  installs : List V
  faults : List Fault

namespace Device

omit [LinearOrder V]

def new (firmware : V) : Device V := ⟨firmware, [], []⟩

def install (d : Device V) (version : V) : Device V := ⟨version, d.installs ++ [version], d.faults⟩

/-- The rest of a boot after an access outside its array. -/
def stray (d : Device V) (f : Fault) (astray : Option V) : Device V :=
  ⟨astray.getD d.firmware, d.installs ++ astray.toList, d.faults ++ [f]⟩

end Device

/-- The URL the version fetch of a boot leaves. -/
def Boot.url (parse : CString → Option (Json V)) (firmware : V) (b : Boot V) : Option CString :=
  match getLastFirmwareVersion parse b.response firmware (.zero _) b.binUrl with
  | .ok (_, _, binUrl) => binUrl.read?
  | .error _ => none

/-- One boot. A restart comes back with the binary that was downloaded. -/
def boot (parse : CString → Option (Json V)) (d : Device V) (b : Boot V) : Device V :=
  match otaUpdateTask parse b.response b.httpsOta d.firmware (.zero _) b.binUrl, b.url parse d.firmware with
  | .error f, _ => d.stray f b.astray
  | .ok (.restarted, _), some url => d.install (b.binary url)
  | .ok _, _ => d

/-- The document arrives in one `HTTP_EVENT_ON_DATA` event. -/
def Boot.Delivers (b : Boot V) (document : List UInt8) : Prop :=
  (∃ chunked, b.response.events.filter (·.eventId = .onData) = [⟨.onData, document, chunked⟩]) ∧
    document.length ≤ 499

/-- Every binary the document advertises is compiled with the version it is advertised with. -/
def Boot.Advertised (parse : CString → Option (Json V)) (b : Boot V) (document : List UInt8) : Prop :=
  ∀ json version url, parse (.ofTerminated document) = some json →
    json.getObjectItem "last_version" = some (.number version) →
    json.getObjectItem "bin_url" = some (.string url) → b.binary url = version

/-- What a boot meets when its document is this one. -/
structure Boot.Serves (parse : CString → Option (Json V)) (b : Boot V) (document : List UInt8) : Prop where
  delivers : b.Delivers document
  advertised : b.Advertised parse document

/-- A URL the document offers `firmware` has room in `bin_url`, and the fragments of its download in
`http_rcv_buffer`. -/
def Boot.Fits (parse : CString → Option (Json V)) (b : Boot V) (document : List UInt8) (firmware : V) : Prop :=
  ∀ url, Offers parse firmware (.ofTerminated document) url →
    url.bytes.length ≤ 199 ∧ ∀ data ∈ stored (b.httpsOta url).events, data.length ≤ 500

/-! ## The text of a document -/

/-- Only `HTTP_EVENT_ON_DATA` stores anything. -/
theorem stored_filter (events : List HttpEvent) :
    stored events = stored (events.filter (·.eventId = .onData)) := by
  induction events with
  | nil => rfl
  | cons evt events ih =>
    rw [stored, List.flatMap_cons, ← stored, ih]
    by_cases he : evt.eventId = .onData
    · rw [List.filter_cons, if_pos (decide_eq_true he)]; rfl
    · rw [List.filter_cons, if_neg (by simpa using he), HttpEvent.stored, if_neg fun h => he h.1]; rfl

omit [LinearOrder V] in
/-- What a boot parses: the document up to a NUL, if it has one, or nothing, if its reply came in chunks. -/
theorem Boot.Delivers.fetchedText {b : Boot V} {document : List UInt8} (h : b.Delivers document) :
    fetchedText (.zero _) (stored b.response.events) = some (.ofTerminated document) ∨
      fetchedText (.zero _) (stored b.response.events) = some (.ofTerminated []) := by
  obtain ⟨⟨chunked, hevents⟩, hlen⟩ := h
  have hlt : document.length < httpRcvBufferSize := Nat.lt_succ_of_le hlen
  rw [stored_filter, hevents]
  cases chunked with
  | true =>
    have hperf : perform ⟨[], espOk⟩ (.zero httpRcvBufferSize) = .ok (.zero _) := rfl
    exact .inr ((read_perform hperf).symm.trans (by decide +kernel))
  | false =>
    obtain ⟨a, ha⟩ := Option.isSome_iff_exists.mp
      (CArray.strncpy?_isSome (a := .zero httpRcvBufferSize).mpr (Nat.le_of_lt hlt))
    have hperf : perform ⟨[⟨.onData, document, false⟩], espOk⟩ (.zero httpRcvBufferSize) = .ok a := by
      rw [perform_eq]
      show store _ document >>= pure = _
      rw [store, ha]; rfl
    exact .inl ((read_perform hperf).symm.trans (CArray.read?_strncpy_zero ha hlt))

theorem not_offers_empty {parse : CString → Option (Json V)} (hempty : parse (.ofTerminated []) = none)
    (firmware : V) (url : CString) : ¬ Offers parse firmware (.ofTerminated []) url := by
  rintro ⟨json, -, hparse, -⟩
  rw [hempty] at hparse
  cases hparse

/-- **A boot that is served a document that fits stays in its arrays.** -/
theorem Boot.Fits.inBounds {parse : CString → Option (Json V)} (hempty : parse (.ofTerminated []) = none) {b : Boot V}
    {document : List UInt8} {firmware : V} (hdoc : b.Delivers document) (h : b.Fits parse document firmware) :
    InBounds parse b.response b.httpsOta firmware (.zero _) := by
  have hfetch : ∀ data ∈ stored b.response.events, data.length ≤ 500 := by
    obtain ⟨⟨chunked, hevents⟩, hlen⟩ := hdoc
    intro data hdata
    have hle := length_le_body hdata
    have hbody : body b.response.events = document := by simp [body, hevents]
    rw [hbody] at hle
    omega
  refine ⟨hfetch, fun _ => ?_, fun _ text url htext ho => ?_⟩
  · obtain ⟨a, hperf⟩ := (perform_ok_iff b.response (.zero _)).mpr hfetch
    refine (read_isSome hperf).mp ?_
    rw [read_perform hperf]
    rcases hdoc.fetchedText with htext | htext <;> rw [htext] <;> rfl
  · rcases hdoc.fetchedText with hfetched | hfetched
    · obtain rfl := Option.some.inj (htext.symm.trans hfetched)
      exact h url ho
    · obtain rfl := Option.some.inj (htext.symm.trans hfetched)
      exact absurd ho (not_offers_empty hempty firmware url)

/-! ## One boot -/

/-- The document advertises `version`. -/
def Advertises (parse : CString → Option (Json V)) (document : List UInt8) (version : V) : Prop :=
  ∃ json, parse (.ofTerminated document) = some json ∧
    json.getObjectItem "last_version" = some (.number version)

variable {parse : CString → Option (Json V)} {document : List UInt8}

/-- The URL a restarting run has downloaded. -/
theorem Boot.url_of_installs {b : Boot V} {firmware : V} {r : Exit × RcvBuffer}
    (h : otaUpdateTask parse b.response b.httpsOta firmware (.zero _) b.binUrl = .ok r)
    (hinst : Installs parse b.response b.httpsOta firmware (.zero _)) :
    ∃ url, b.url parse firmware = some url ∧ Downloads parse b.response firmware (.zero _) url := by
  obtain ⟨url, hdown, -⟩ := hinst
  obtain ⟨⟨err, b₁, after⟩, hfetch, -⟩ := bind_eq_ok.mp h
  rcases fetch_downloads hfetch with ⟨url', hdown', -, hread⟩ | ⟨hnone, -⟩
  · exact ⟨url', by rw [Boot.url, hfetch]; exact hread, hdown'⟩
  · exact absurd hdown (hnone url)

/-- **A boot installs the version its document advertises, a greater one, or nothing.** -/
theorem boot_cases (hempty : parse (.ofTerminated []) = none) {b : Boot V} (hserves : b.Serves parse document)
    (d : Device V) (hfits : b.Fits parse document d.firmware) :
    boot parse d b = d ∨
      ∃ version, Advertises parse document version ∧ d.firmware < version ∧ boot parse d b = d.install version := by
  unfold boot
  split
  · rename_i f _ hrun
    obtain ⟨r, hr⟩ := (hfits.inBounds hempty hserves.delivers).ok b.binUrl
    rw [hrun] at hr
    cases hr
  · rename_i b₁ url hrun hurl
    obtain ⟨url', hurl', -, text, htext, ho⟩ := Boot.url_of_installs hrun ((exit_restarted_iff hrun).mp rfl)
    obtain rfl : url' = url := Option.some.inj (hurl'.symm.trans hurl)
    rcases hserves.delivers.fetchedText with hfetched | hfetched
    · obtain rfl := Option.some.inj (htext.symm.trans hfetched)
      obtain ⟨json, version, hparse, hversion, hlt, hbin⟩ := ho
      obtain rfl := hserves.advertised json version url' hparse hversion hbin
      exact .inr ⟨_, ⟨json, hparse, hversion⟩, hlt, rfl⟩
    · obtain rfl := Option.some.inj (htext.symm.trans hfetched)
      exact absurd ho (not_offers_empty hempty _ _)
  · exact .inl rfl

/-! ## Runs -/

/-- The versions installed rise from `firmware`, and the last of them runs. -/
structure Rising (firmware : V) (d : Device V) : Prop where
  sorted : (firmware :: d.installs).Pairwise (· < ·)
  last : (firmware :: d.installs).getLast? = some d.firmware
  le : ∀ version ∈ firmware :: d.installs, version ≤ d.firmware

theorem Rising.boot {firmware : V} {d : Device V} (hempty : parse (.ofTerminated []) = none)
    (h : Rising firmware d) {b : Boot V} (hb : b.Serves parse document) (hfits : b.Fits parse document d.firmware) :
    Rising firmware (boot parse d b) := by
  rcases boot_cases hempty hb d hfits with hd | ⟨version, -, hlt, hd⟩
  · rwa [hd]
  · rw [hd]
    refine ⟨?_, ?_, ?_⟩
    · rw [Device.install, ← List.cons_append, List.pairwise_append]
      refine ⟨h.sorted, List.pairwise_singleton _ _, fun x hx y hy => ?_⟩
      rw [List.mem_singleton.mp hy]
      exact lt_of_le_of_lt (h.le x hx) hlt
    · rw [Device.install, ← List.cons_append, List.getLast?_concat]
    · intro x hx
      rw [Device.install, ← List.cons_append, List.mem_append, List.mem_singleton] at hx
      rcases hx with hx | rfl
      · exact (lt_of_le_of_lt (h.le x hx) hlt).le
      · exact le_rfl

/-- The document advertises nothing newer than the firmware. -/
def UpToDate (parse : CString → Option (Json V)) (document : List UInt8) (d : Device V) : Prop :=
  ∀ version, Advertises parse document version → ¬ d.firmware < version

theorem UpToDate.boot {d : Device V} (hempty : parse (.ofTerminated []) = none) (h : UpToDate parse document d)
    {b : Boot V} (hb : b.Serves parse document) (hfits : b.Fits parse document d.firmware) :
    Wifi.boot parse d b = d := by
  rcases boot_cases hempty hb d hfits with hd | ⟨version, hv, hlt, -⟩
  · exact hd
  · exact absurd hlt (h version hv)

/-- A boot is served this document, and it fits. -/
def Boot.KeptTo (parse : CString → Option (Json V)) (document : List UInt8) (d : Device V) (b : Boot V) : Prop :=
  b.Serves parse document ∧ b.Fits parse document d.firmware

/-- A boot is served a document that fits. -/
def Boot.Kept (parse : CString → Option (Json V)) (d : Device V) (b : Boot V) : Prop :=
  ∃ document, b.KeptTo parse document d

/-- Against one document, an up-to-date device installs nothing. -/
theorem UpToDate.run {d : Device V} (hempty : parse (.ofTerminated []) = none) (h : UpToDate parse document d)
    {bs : List (Boot V)} (hbs : Meets (Wifi.boot parse) (Boot.KeptTo parse document) d bs) :
    run (Wifi.boot parse) d bs = d := by
  induction bs with
  | nil => rfl
  | cons b bs ih =>
    obtain ⟨⟨hb, hfits⟩, hrest⟩ := hbs
    have hd := h.boot hempty hb hfits
    rw [hd] at hrest
    rw [run_cons, hd, ih hrest]

/-- **Against one document at most one install takes place.** -/
theorem installs_le (hempty : parse (.ofTerminated []) = none) (d : Device V) {bs : List (Boot V)}
    (hbs : Meets (boot parse) (Boot.KeptTo parse document) d bs) :
    (run (boot parse) d bs).installs.length ≤ d.installs.length + 1 := by
  induction bs generalizing d with
  | nil => exact Nat.le_succ _
  | cons b bs ih =>
    obtain ⟨⟨hb, hfits⟩, hrest⟩ := hbs
    rw [run_cons]
    rcases boot_cases hempty hb d hfits with hd | ⟨version, hv, -, hd⟩
    · rw [hd] at hrest ⊢
      exact ih d hrest
    -- The document's version runs now, and it advertises no other.
    · have hup : UpToDate parse document (boot parse d b) := by
        rintro version' ⟨json', hparse', hv'⟩
        obtain ⟨json, hparse, hv⟩ := hv
        obtain rfl := Option.some.inj (hparse'.symm.trans hparse)
        cases Option.some.inj (hv'.symm.trans hv)
        rw [hd]
        exact lt_irrefl _
      rw [hup.run hempty hrest, hd, Device.install, List.length_append, List.length_singleton]

/-- **No rollback, and convergence.** In a run whose documents all fit, the versions installed over all boots rise
strictly, from the firmware at first, and the last one runs; and over the boots of `ds`, against a document that no
longer changes, at most one more is installed. -/
theorem no_rollback (parse : CString → Option (Json V)) (hempty : parse (.ofTerminated []) = none) (firmware : V)
    (document : List UInt8) (cs ds : List (Boot V)) (hcs : Meets (boot parse) (Boot.Kept parse) (.new firmware) cs)
    (hds : Meets (boot parse) (Boot.KeptTo parse document) (run (boot parse) (.new firmware) cs) ds) :
    let before := run (boot parse) (.new firmware) cs
    let after := run (boot parse) (.new firmware) (cs ++ ds)
    (firmware :: after.installs).Pairwise (· < ·) ∧
      (firmware :: after.installs).getLast? = some after.firmware ∧
      after.installs.length ≤ before.installs.length + 1 := by
  intro before after
  have hafter : after = run (boot parse) before ds := run_append _ _ _ _
  have hstart : Rising firmware (.new firmware) :=
    ⟨List.pairwise_singleton _ _, rfl, by simp [Device.new]⟩
  have hbefore : Rising firmware before :=
    hcs.invariant (Rising firmware) (fun d b h ⟨_, hb, hfits⟩ => h.boot hempty hb hfits) hstart
  have hrising : Rising firmware after := by
    rw [hafter]
    exact hds.invariant (Rising firmware) (fun d b h ⟨hb, hfits⟩ => h.boot hempty hb hfits) hbefore
  refine ⟨hrising.sorted, hrising.last, ?_⟩
  rw [hafter]
  exact installs_le hempty before hds

/-- A boot that is offered version 2, and downloads it in two fragments. -/
def offered2 : Boot Nat :=
  ⟨fragmented [version2.bytes], fun _ => fragmented [[1, 2], [3]], fun _ => 2, .zero 200, none⟩

theorem serves_offered2 : offered2.Serves parse2 version2.bytes where
  delivers := ⟨⟨false, rfl⟩, by decide +kernel⟩
  advertised json version url hparse hversion _ := by
    unfold parse2 at hparse
    split at hparse
    · cases hparse
      exact JsonValue.number.inj (Option.some.inj hversion)
    · cases hparse

theorem fits_offered2 (firmware : Nat) : offered2.Fits parse2 version2.bytes firmware := by
  rintro url ⟨json, version, hparse, -, -, hurl⟩
  refine ⟨?_, ?_⟩
  · have hversion2 : CString.ofTerminated version2.bytes = version2 := by decide +kernel
    rw [hversion2, parse2, if_pos rfl] at hparse
    cases hparse
    obtain rfl : urlU = url := by simpa [Json.getObjectItem] using hurl
    decide
  · intro data hdata
    have hmem : data ∈ ([[1, 2], [3]] : List (List UInt8)) := by
      rwa [← stored_fragmented [[1, 2], [3]]]
    simp only [List.mem_cons, List.not_mem_nil, or_false] at hmem
    rcases hmem with rfl | rfl <;> decide

theorem no_rollback_offered2 :
    (run (boot parse2) (.new 1) [offered2]).installs = [2] ∧
      (run (boot parse2) (.new 1) [offered2, offered2, offered2]).installs.length ≤ 2 := by
  have hinstalls : (run (boot parse2) (.new 1) [offered2]).installs = [2] := by decide +kernel
  have hkept : ∀ d, Boot.KeptTo parse2 version2.bytes d offered2 := fun d => ⟨serves_offered2, fits_offered2 _⟩
  have hone := (no_rollback parse2 (by decide +kernel) 1 version2.bytes [offered2] [offered2, offered2]
    ⟨⟨_, hkept _⟩, trivial⟩ ⟨hkept _, hkept _, trivial⟩).2.2
  rw [hinstalls] at hone
  exact ⟨hinstalls, hone⟩

/-! ## A URL without room -/

def longUrl : CString := ⟨List.replicate 200 117, by decide +kernel⟩

/-- A document that offers version 2 at a URL of 200 bytes. -/
def longVersion2 : CString :=
  ⟨ascii "\x7b\"last_version\":2,\"bin_url\":\"" ++ longUrl.bytes ++ ascii "\"\x7d", by decide +kernel⟩

/-- A parser, as far as that document goes. -/
def parseLong (text : CString) : Option (Json Nat) :=
  if text = longVersion2 then some ⟨[("last_version", .number 2), ("bin_url", .string longUrl)]⟩ else none

/-- A boot that is offered it; the URL leaves `bin_url`, and firmware 0 is installed. -/
def offeredLong : Boot Nat :=
  ⟨fragmented [longVersion2.bytes], fun _ => ⟨[], espOk⟩, fun _ => 2, .zero 200, some 0⟩

theorem serves_offeredLong : offeredLong.Serves parseLong longVersion2.bytes where
  delivers := ⟨⟨false, rfl⟩, by decide +kernel⟩
  advertised json version url hparse hversion _ := by
    unfold parseLong at hparse
    split at hparse
    · cases hparse
      exact JsonValue.number.inj (Option.some.inj hversion)
    · cases hparse

theorem no_rollback_long_url :
    ¬ ∀ (V : Type) (_ : LinearOrder V) (parse : CString → Option (Json V)) (firmware : V) (bs : List (Boot V)),
      parse (.ofTerminated []) = none → (∀ b ∈ bs, ∃ document, b.Serves parse document) →
      (firmware :: (run (boot parse) (.new firmware) bs).installs).Pairwise (· < ·) := by
  intro h
  have hrising := h Nat inferInstance parseLong 1 [offeredLong] (by decide +kernel)
    (by simpa using ⟨_, serves_offeredLong⟩)
  have hinstalls : (run (boot parseLong) (.new 1) [offeredLong]).installs = [0] := by decide +kernel
  rw [hinstalls] at hrising
  exact absurd hrising (by decide)

end EspOta.Wifi
