/-
What a request leaves in `http_rcv_buffer`, and what
`get_last_firmware_version` makes of it.

The handler copies each fragment of a reply that is not chunked to the front
of the buffer, so a byte of the buffer is that of the last fragment long
enough to reach it (`get_perform`). What is decided is the text this leaves,
whatever was sent: `version_decision_iff` says when that comes to what the
document asks for.
-/
import EspOta.Wifi.Ota

namespace EspOta.Wifi

open Lib

/-! ## The buffer after a request -/

/-- The fragment an event has for the buffer: none in a chunked reply. -/
def HttpEvent.stored (evt : HttpEvent) : List (List UInt8) :=
  if evt.eventId = .onData ∧ !evt.chunked then [evt.data] else []

/-- The fragments the handler copies, in order. -/
def stored (events : List HttpEvent) : List (List UInt8) := events.flatMap HttpEvent.stored

/-- The copy of one fragment. -/
def store (buf : RcvBuffer) (data : List UInt8) : Except Fault RcvBuffer :=
  match buf.strncpy? data with
  | some buf => .ok buf
  | none => .error .rcvBufferOverflow

/-- The byte `strncpy` writes at `i` for a fragment longer than that. -/
def copied (data : List UInt8) (i : Nat) : UInt8 := if 0 ∈ data.take (i + 1) then 0 else data.getD i 0

/-- The byte at `i` after the fragments: that of the last one longer than `i`, or what was there. -/
def lastByte (buf : RcvBuffer) (fragments : List (List UInt8)) (i : Nat) : UInt8 :=
  match fragments.reverse.find? (i < ·.length) with
  | some data => copied data i
  | none => buf.get i

theorem httpEventHandler_eq (buf : RcvBuffer) (evt : HttpEvent) :
    httpEventHandler buf evt = evt.stored.foldlM store buf := by
  obtain ⟨eventId, data, chunked⟩ := evt
  cases eventId with
  | onData =>
    cases chunked with
    | false =>
      have hstored : (HttpEvent.mk .onData data false).stored = [data] := rfl
      have hstore : httpEventHandler buf ⟨.onData, data, false⟩ = store buf data := rfl
      rw [hstored, hstore, List.foldlM_cons]
      cases store buf data <;> rfl
    | true => rfl
  | _ => rfl

theorem perform_eq (r : Response) (buf : RcvBuffer) : perform r buf = (stored r.events).foldlM store buf :=
  foldlM_flatMap (fun evt _ buf => httpEventHandler_eq buf evt) buf

theorem store_ok_iff (buf : RcvBuffer) (data : List UInt8) :
    (∃ b, store buf data = .ok b) ↔ data.length ≤ httpRcvBufferSize := by
  rw [← CArray.strncpy?_isSome (a := buf), store]
  cases buf.strncpy? data <;> simp

theorem get_store {buf b : RcvBuffer} {data : List UInt8} (h : store buf data = .ok b) (i : Nat) :
    b.get i = if i < data.length then copied data i else buf.get i := by
  unfold store at h
  split at h
  · cases h; exact CArray.get_strncpy ‹_› i
  · cases h

/-- **A request stays inside the buffer** just when every fragment it stores fits. -/
theorem perform_ok_iff (r : Response) (buf : RcvBuffer) :
    (∃ b, perform r buf = .ok b) ↔ ∀ data ∈ stored r.events, data.length ≤ httpRcvBufferSize := by
  rw [perform_eq]
  exact foldlM_ok_iff store_ok_iff

/-- **Every byte of the buffer after a request.** -/
theorem get_perform {r : Response} {buf b : RcvBuffer} (h : perform r buf = .ok b) (i : Nat) :
    b.get i = lastByte buf (stored r.events) i := by
  rw [perform_eq] at h
  generalize stored r.events = fragments at h
  induction fragments generalizing buf with
  | nil => cases h; rfl
  | cons data fragments ih =>
    rw [List.foldlM_cons, bind_eq_ok] at h
    obtain ⟨b₁, hd, hrest⟩ := h
    rw [ih hrest, lastByte, lastByte, List.reverse_cons, List.find?_append]
    cases fragments.reverse.find? (i < ·.length) with
    | some later => rfl
    | none =>
      rw [get_store hd]
      by_cases hi : i < data.length <;> simp [hi]

/-- The text the version fetch leaves: the bytes before the first NUL, if there is one, where each byte is
that of the last fragment that reaches it. -/
def fetchedText (buf : RcvBuffer) (fragments : List (List UInt8)) : Option CString :=
  (⟨(List.range 500).map (lastByte buf fragments), by simp⟩ : RcvBuffer).read?

theorem read_perform {r : Response} {buf b : RcvBuffer} (h : perform r buf = .ok b) :
    b.read? = fetchedText buf (stored r.events) := by
  have hb : b.bytes = (List.range 500).map (lastByte buf (stored r.events)) := by
    rw [CArray.bytes_eq_map_get]
    exact List.map_congr_left fun i _ => get_perform h i
  simp only [fetchedText, CArray.read?, hb]

/-- A version fetch inside the buffer leaves a text just when it leaves a NUL. -/
theorem read_isSome {r : Response} {buf b : RcvBuffer} (h : perform r buf = .ok b) :
    b.read?.isSome ↔ ∃ i < 500, lastByte buf (stored r.events) i = 0 := by
  simp only [CArray.read?_isSome, get_perform h]

/-- The body of a reply. -/
def body (events : List HttpEvent) : List UInt8 := (events.filter (·.eventId = .onData)).flatMap (·.data)

/-- A fragment is part of the body. -/
theorem length_le_body {events : List HttpEvent} {data : List UInt8} (h : data ∈ stored events) :
    data.length ≤ (body events).length := by
  obtain ⟨evt, hevt, hdata⟩ := List.mem_flatMap.mp h
  unfold HttpEvent.stored at hdata
  split at hdata
  · rename_i hon
    obtain rfl := List.mem_singleton.mp hdata
    have hmem : evt ∈ events.filter (·.eventId = .onData) := List.mem_filter.mpr ⟨hevt, decide_eq_true hon.1⟩
    rw [body, List.flatMap_def]
    exact (List.sublist_flatten_of_mem (List.mem_map.mpr ⟨evt, hmem, rfl⟩)).length_le
  · cases hdata

/-! ## The decision -/

variable {V : Type} [LinearOrder V] {parse : CString → Option (Json V)} {firmwareVersion : V}

/-- The text offers `url`: it parses, its `last_version` is a number greater than the firmware's, and its
`bin_url` is that string. -/
def Offers (parse : CString → Option (Json V)) (firmwareVersion : V) (text url : CString) : Prop :=
  ∃ json newVersion, parse text = some json ∧
    json.getObjectItem "last_version" = some (.number newVersion) ∧ firmwareVersion < newVersion ∧
    json.getObjectItem "bin_url" = some (.string url)

theorem newVersionUrl_eq_some {json : Json V} {url : CString} :
    json.newVersionUrl firmwareVersion = some url ↔
      ∃ newVersion, json.getObjectItem "last_version" = some (.number newVersion) ∧
        firmwareVersion < newVersion ∧ json.getObjectItem "bin_url" = some (.string url) := by
  simp only [Json.newVersionUrl, jsonFormatVersionAttribute, jsonFormatBinlocationAttribute]
  constructor
  · intro h
    split at h
    · rename_i newVersion hv
      split at h
      · rename_i hlt
        split at h
        · rename_i hu; cases h; exact ⟨newVersion, hv, hlt, hu⟩
        · cases h
      · cases h
    · cases h
  · rintro ⟨newVersion, hv, hlt, hu⟩
    simp [hv, hlt, hu]

theorem offers_iff {text url : CString} :
    Offers parse firmwareVersion text url ↔
      (parse text).bind (·.newVersionUrl firmwareVersion) = some url := by
  simp only [Offers, Option.bind_eq_some_iff, newVersionUrl_eq_some]
  constructor
  · rintro ⟨json, v, hp, h⟩; exact ⟨json, hp, v, h⟩
  · rintro ⟨json, hp, v, h⟩; exact ⟨json, v, hp, h⟩

/-- The result of a fetch is what `text` decides: success and the URL it offers, or failure and the URL
array left alone. -/
structure Decides (parse : CString → Option (Json V)) (firmwareVersion : V) (text : CString) (before : BinUrl)
    (err : EspErr) (after : BinUrl) : Prop where
  offered : ∀ url, Offers parse firmwareVersion text url → err = espOk ∧ after.read? = some url
  otherwise : (∀ url, ¬ Offers parse firmwareVersion text url) → err ≠ espOk ∧ after = before

/-- A successful request that leaves `text` in the buffer is decided by it. -/
theorem decides_of_read {response : Response} {buf b : RcvBuffer} {text : CString} (before : BinUrl)
    (herr : response.err = espOk) (hperf : perform response buf = .ok b) (hread : b.read? = some text)
    (hfits : ∀ url, Offers parse firmwareVersion text url → url.bytes.length < binUrlSize) :
    ∃ err after, getLastFirmwareVersion parse response firmwareVersion buf before = .ok (err, b, after) ∧
      Decides parse firmwareVersion text before err after := by
  have hno : ¬ espFail = espOk := by decide
  simp only [getLastFirmwareVersion, hperf, ok_bind, herr, ne_eq, not_true_eq_false, if_false, hread]
  simp only [offers_iff] at hfits
  cases hp : parse text with
  | none => exact ⟨espFail, before, rfl, by simp [offers_iff, hp], fun _ => ⟨hno, rfl⟩⟩
  | some json =>
    rw [hp] at hfits
    simp only
    cases hu : json.newVersionUrl firmwareVersion with
    | none => exact ⟨espFail, before, rfl, by simp [offers_iff, hp, hu], fun _ => ⟨hno, rfl⟩⟩
    | some url =>
      obtain ⟨after, ha⟩ := Option.isSome_iff_exists.mp (CArray.strcpy?_isSome.mpr (hfits url hu))
      have hread' := CArray.read?_strcpy (a := before) ha
      refine ⟨espOk, after, by simp only [ha]; rfl, fun url' h => ?_, fun h => ?_⟩
      · obtain rfl : url = url' := by simpa [offers_iff, hp, hu] using h
        exact ⟨rfl, hread'⟩
      · exact absurd (offers_iff.mpr (by simp [hp, hu])) (h url)

/-- What a fetch that stays in bounds has done. -/
theorem fetch_cases {response : Response} {buf b : RcvBuffer} {before after : BinUrl} {err : EspErr}
    (h : getLastFirmwareVersion parse response firmwareVersion buf before = .ok (err, b, after)) :
    perform response buf = .ok b ∧
      ((response.err ≠ espOk ∧ err = response.err) ∨
        (response.err = espOk ∧ ∃ text, b.read? = some text ∧
          Decides parse firmwareVersion text before err after ∧
          ∀ url, Offers parse firmwareVersion text url → url.bytes.length < binUrlSize)) := by
  unfold getLastFirmwareVersion at h
  obtain ⟨b', hperf, h⟩ := bind_eq_ok.mp h
  by_cases herr : response.err = espOk
  · cases hread : b'.read? with
    | none => simp only [herr, ne_eq, not_true_eq_false, if_false, hread] at h; cases h
    | some text =>
      have hfits : ∀ url, Offers parse firmwareVersion text url → url.bytes.length < binUrlSize := by
        intro url ho
        obtain ⟨json, hp, hu⟩ := Option.bind_eq_some_iff.mp (offers_iff.mp ho)
        by_contra hlong
        have hnone : before.strcpy? url = none := by
          rw [← Option.not_isSome_iff_eq_none, CArray.strcpy?_isSome]; exact hlong
        simp only [herr, ne_eq, not_true_eq_false, if_false, hread, hp, hu, hnone] at h
        cases h
      obtain ⟨err', after', hrun, hd⟩ := decides_of_read before herr hperf hread hfits
      have heq : getLastFirmwareVersion parse response firmwareVersion buf before = .ok (err, b, after) := by
        unfold getLastFirmwareVersion; rw [hperf, ok_bind]; exact h
      obtain ⟨rfl, rfl, rfl⟩ : err' = err ∧ b' = b ∧ after' = after := by simpa [hrun] using heq
      exact ⟨hperf, .inr ⟨herr, text, hread, hd, hfits⟩⟩
  · simp only [ne_eq, herr, not_false_eq_true, if_true] at h
    cases h
    exact ⟨hperf, .inl ⟨herr, rfl⟩⟩

/-- A fetch decided by two texts is offered the same by both. -/
theorem Decides.offers {text text' : CString} {before after : BinUrl} {err : EspErr}
    (h : Decides parse firmwareVersion text before err after)
    (h' : Decides parse firmwareVersion text' before err after) {url : CString}
    (ho : Offers parse firmwareVersion text url) : Offers parse firmwareVersion text' url := by
  obtain ⟨herr, hread⟩ := h.offered url ho
  by_cases ho' : ∃ url', Offers parse firmwareVersion text' url'
  · obtain ⟨url', ho'⟩ := ho'
    obtain rfl : url = url' := Option.some.inj (hread.symm.trans (h'.offered url' ho').2)
    exact ho'
  · exact absurd herr (h'.otherwise fun url' hu => ho' ⟨url', hu⟩).1

/-- The text the copies leave offers what the document does, or like it nothing, and a URL it offers fits. -/
def OffersAlike (parse : CString → Option (Json V)) (firmwareVersion : V) (buf : RcvBuffer)
    (fragments : List (List UInt8)) (document : CString) : Prop :=
  ∃ text, fetchedText buf fragments = some text ∧ ∀ url,
    (Offers parse firmwareVersion text url ↔ Offers parse firmwareVersion document url) ∧
      (Offers parse firmwareVersion document url → url.bytes.length ≤ 199)

/-- **The version decision.** Of a document of at most 499 bytes, in whatever fragments, the fetch does what the
document asks for just when the text left by the copies does. -/
theorem version_decision_iff (parse : CString → Option (Json V)) (firmwareVersion : V) (response : Response)
    (buf : RcvBuffer) (document : CString) (before : BinUrl) (herr : response.err = espOk)
    (hbody : body response.events = document.bytes) (hlen : document.bytes.length ≤ 499) :
    (∃ err b after, getLastFirmwareVersion parse response firmwareVersion buf before = .ok (err, b, after) ∧
        Decides parse firmwareVersion document before err after) ↔
      OffersAlike parse firmwareVersion buf (stored response.events) document := by
  constructor
  · rintro ⟨err, b, after, hrun, hd⟩
    obtain ⟨hperf, hcases⟩ := fetch_cases hrun
    obtain ⟨-, text, hread, htext, hfits⟩ := hcases.resolve_left fun h => h.1 herr
    refine ⟨text, (read_perform hperf).symm.trans hread, fun url => ⟨⟨htext.offers hd, hd.offers htext⟩, fun ho => ?_⟩⟩
    exact Nat.le_of_lt_succ (hfits url (hd.offers htext ho))
  · rintro ⟨text, htext, halike⟩
    obtain ⟨b, hperf⟩ : ∃ b, perform response buf = .ok b := by
      refine (perform_ok_iff response buf).mpr fun data hdata => ?_
      have hle := length_le_body hdata
      rw [hbody] at hle
      exact Nat.le_trans hle (Nat.le_trans hlen (by decide))
    obtain ⟨err, after, hrun, hd⟩ := decides_of_read before herr hperf ((read_perform hperf).trans htext)
      fun url ho => Nat.lt_succ_of_le ((halike url).2 ((halike url).1.mp ho))
    refine ⟨err, b, after, hrun, fun url ho => hd.offered url ((halike url).1.mpr ho), fun hnone => ?_⟩
    exact hd.otherwise fun url ho => hnone url ((halike url).1.mp ho)

/-! ## A document in two fragments -/

def ascii (s : String) : List UInt8 := s.toList.map fun c => UInt8.ofNat c.toNat

/-- A document that offers version 2 at the URL `u`. -/
def version2 : CString := ⟨ascii "\x7b\"last_version\":2,\"bin_url\":\"u\"\x7d", by decide +kernel⟩

def urlU : CString := ⟨ascii "u", by decide +kernel⟩

/-- A parser, as far as that document goes. -/
def parse2 (text : CString) : Option (Json Nat) :=
  if text = version2 then some ⟨[("last_version", .number 2), ("bin_url", .string urlU)]⟩ else none

theorem offers_version2 : Offers parse2 1 version2 urlU :=
  ⟨_, 2, if_pos rfl, by decide, by decide, by decide⟩

theorem fits_version2 : ∀ url, Offers parse2 1 version2 url → url.bytes.length < binUrlSize := by
  rintro url ⟨json, v, hp, -, -, hu⟩
  obtain rfl : _ = json := Option.some.inj ((if_pos rfl).symm.trans hp)
  obtain rfl : urlU = url := by simpa [Json.getObjectItem] using hu
  decide

/-- The document in the fragments given. -/
def fragmented (fragments : List (List UInt8)) : Response := ⟨fragments.map (⟨.onData, ·, false⟩), espOk⟩

theorem stored_fragmented (fragments : List (List UInt8)) :
    stored (fragmented fragments).events = fragments := by
  rw [stored, fragmented, List.flatMap_map]
  exact List.flatMap_singleton' fragments

/-- In one fragment the document decides, in two it does not. -/
theorem version_decision_iff_version2 :
    (∃ err b after, getLastFirmwareVersion parse2 (fragmented [version2.bytes]) 1 (.zero 500) (.zero 200) =
        .ok (err, b, after) ∧ Decides parse2 1 version2 (.zero 200) err after) ∧
      ¬ ∃ err b after, getLastFirmwareVersion parse2 (fragmented [version2.bytes.take 4, version2.bytes.drop 4]) 1
        (.zero 500) (.zero 200) = .ok (err, b, after) ∧ Decides parse2 1 version2 (.zero 200) err after := by
  constructor
  · refine (version_decision_iff parse2 1 (fragmented [version2.bytes]) (.zero 500) version2 (.zero 200) rfl
      (by decide +kernel) (by decide +kernel)).mpr ⟨version2, by decide +kernel, fun url => ⟨Iff.rfl, fun ho => ?_⟩⟩
    exact Nat.le_of_lt_succ (fits_version2 url ho)
  · intro h
    obtain ⟨text, htext, halike⟩ := (version_decision_iff parse2 1
      (fragmented [version2.bytes.take 4, version2.bytes.drop 4]) (.zero 500) version2 (.zero 200) rfl
      (by decide +kernel) (by decide +kernel)).mp h
    obtain ⟨json, -, hparse, -⟩ := (halike urlU).1.mpr offers_version2
    have hleft : fetchedText (.zero 500) (stored (fragmented [version2.bytes.take 4, version2.bytes.drop 4]).events) ≠
        some version2 := by decide +kernel
    have hne : text ≠ version2 := fun he => hleft (htext.trans (congrArg some he))
    rw [parse2, if_neg hne] at hparse
    cases hparse

/-- In two fragments the second replaces the first, and what is left is no document. -/
theorem version_decision_fragmented :
    ¬ ∀ (V : Type) (_ : LinearOrder V) (parse : CString → Option (Json V)) (firmwareVersion : V)
      (response : Response) (text : CString) (before : BinUrl),
      response.err = espOk → text.bytes.length ≤ 499 → body response.events = text.bytes →
      (∀ url, Offers parse firmwareVersion text url → url.bytes.length < binUrlSize) →
      ∃ err b after,
        getLastFirmwareVersion parse response firmwareVersion (.zero 500) before = .ok (err, b, after) ∧
          Decides parse firmwareVersion text before err after := by
  intro h
  obtain ⟨err, b, after, hrun, hd⟩ := h Nat _ parse2 1
    (fragmented [version2.bytes.take 4, version2.bytes.drop 4]) version2 (.zero 200) rfl
    (by decide +kernel) (by decide +kernel) fits_version2
  have hfail : (getLastFirmwareVersion parse2 (fragmented [version2.bytes.take 4, version2.bytes.drop 4]) 1
      (.zero 500) (.zero 200)).map (·.1) = .ok espFail := by decide +kernel
  rw [hrun] at hfail
  obtain rfl : err = espFail := Except.ok.inj hfail
  exact absurd (hd.offered urlU offers_version2).1 (by decide)

end EspOta.Wifi
