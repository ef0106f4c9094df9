/-
The bytes `ota_task` passes to `esp_ota_write`: the chunks of the callback,
concatenated, from the front, and when it stops passing them. The announced
length stays the same here; `Restarts` is about the runs in which it does not.
-/
import EspOta.Ble.DeviceRuns
import EspOta.Ble.Restarts

namespace EspOta.Ble

open Lib

/-- The bytes a call passes to `esp_ota_write`, also when it fails. -/
def passedBy : Call → List UInt8
  | .otaWrite _ data _ => data
  | _ => []

def Device.passed (d : Device) : List UInt8 := d.calls.flatMap passedBy

/-- The number of bytes written by the calls. -/
def total (calls : List Call) : Nat := (calls.flatMap Call.written).length

def EndsOta : Call → Prop
  | .otaEnd .. => True
  | _ => False

/-- The last of the calls wrote the first item at which the total reaches `fw`; what it wrote beyond is
less than the item. -/
def JustReached (fw : Nat) (calls : List Call) : Prop :=
  ∃ before handle item, calls = before ++ [.otaWrite handle item espOk] ∧ total before < fw ∧
    fw ≤ total calls ∧ total calls - fw < item.length

/-- `esp_ota_end` is called right after the first item at which the total reaches `fw`, and at no other time. -/
def EndsOnTime (fw : Nat) (calls : List Call) : Prop :=
  ∀ before c after, calls = before ++ c :: after → (EndsOta c ↔ JustReached fw before)

/-! ## The calls, one by one -/

theorem total_append (calls : List Call) (c : Call) : total (calls ++ [c]) = total calls + c.written.length := by
  simp [total]

theorem JustReached.le {fw : Nat} {calls : List Call} (h : JustReached fw calls) : fw ≤ total calls := by
  obtain ⟨before, handle, item, -, -, hle, -⟩ := h
  exact hle

theorem justReached_snoc {fw : Nat} {calls : List Call} {c : Call} (h : JustReached fw (calls ++ [c])) :
    ∃ handle item, c = .otaWrite handle item espOk := by
  obtain ⟨before, handle, item, heq, -⟩ := h
  obtain ⟨-, hc⟩ := List.append_inj' heq rfl
  exact ⟨handle, item, (List.cons.inj hc).1⟩

/-- A write from below `fw` stays below or just reaches it. -/
theorem justReached_of_write {fw : Nat} {calls : List Call} (h : total calls < fw) (handle : OtaHandle)
    (item : List UInt8) :
    total (calls ++ [.otaWrite handle item espOk]) < fw ∨
      JustReached fw (calls ++ [.otaWrite handle item espOk]) := by
  have htotal : total (calls ++ [.otaWrite handle item espOk]) = total calls + item.length :=
    total_append calls (.otaWrite handle item espOk)
  rcases Nat.lt_or_ge (total (calls ++ [.otaWrite handle item espOk])) fw with hlt | hle
  · exact .inl hlt
  · exact .inr ⟨calls, handle, item, rfl, h, hle, by omega⟩

theorem EndsOnTime.snoc {fw : Nat} {calls : List Call} {c : Call} (h : EndsOnTime fw calls)
    (hc : EndsOta c ↔ JustReached fw calls) : EndsOnTime fw (calls ++ [c]) := by
  intro before c' after heq
  rcases List.eq_nil_or_concat after with rfl | ⟨after, last, rfl⟩
  · obtain ⟨rfl, hcc⟩ := List.append_inj' heq rfl
    obtain ⟨rfl, -⟩ := List.cons.inj hcc
    exact hc
  · rw [List.concat_eq_append, ← List.cons_append, ← List.append_assoc] at heq
    exact h before c' after (List.append_inj' heq rfl).1

/-! ## The invariant -/

/-- Nothing was written at or beyond `fw` without an `esp_ota_end`. -/
def Ended (fw : Nat) (calls : List Call) : Prop := total calls < fw ∨ ∃ c ∈ calls, EndsOta c

/-- Where the count stands in each phase. -/
def OnTime (fw : Nat) (calls : List Call) : Phase → Prop
  | .start | .receiving | .writing => total calls < fw
  | .returning | .comparing => total calls < fw ∨ JustReached fw calls
  | .ending => JustReached fw calls
  | .settingBoot => ¬ JustReached fw calls ∧ Ended fw calls
  | .restarted | .failed => Ended fw calls

theorem not_justReached {fw : Nat} {calls : List Call} (h : total calls < fw) : ¬ JustReached fw calls :=
  fun hr => absurd hr.le (Nat.not_le.mpr h)

theorem Ended.snoc {fw : Nat} {calls : List Call} (h : Ended fw calls) {c : Call} (hc : c.written = []) :
    Ended fw (calls ++ [c]) := by
  rcases h with hlt | ⟨e, he, hends⟩
  · exact .inl (by rw [total_append, hc]; exact hlt)
  · exact .inr ⟨e, List.mem_append_left _ he, hends⟩

structure Timely (fw : UInt32) (d : Device) : Prop where
  length : d.fwLength = fw
  ends : EndsOnTime fw.toNat d.calls
  phase : OnTime fw.toNat d.calls d.phase

theorem Timely.step {fw : UInt32} {d d' : Device} {a : Action} (h : Timely fw d)
    (hcount : d.recvLen.toNat = total d.calls) (hannounce : ∀ length, a = .announce length → length = fw)
    (hs : Steps d a d') : Timely fw d' := by
  have hphase := h.phase
  cases hs with
  | announced length => exact ⟨hannounce length rfl, h.ends, h.phase⟩
  | refused | sent | blocks | unblocked => exact ⟨h.length, h.ends, h.phase⟩
  | notSelected a hp =>
    rw [hp] at hphase
    exact ⟨h.length, h.ends, .inl hphase⟩
  | notBegun a p hp =>
    rw [hp] at hphase
    exact ⟨h.length, h.ends.snoc (iff_of_false id (not_justReached hphase)), Ended.snoc (.inl hphase) rfl⟩
  | begun a p hp =>
    rw [hp] at hphase
    refine ⟨h.length, h.ends.snoc (iff_of_false id (not_justReached hphase)), ?_⟩
    show total (d.calls ++ _) < _
    rw [total_append]
    exact hphase
  | received n r hp =>
    rw [hp] at hphase
    exact ⟨h.length, h.ends, hphase⟩
  | writeFailed err hp he =>
    rw [hp] at hphase
    exact ⟨h.length, h.ends.snoc (iff_of_false id (not_justReached hphase)),
      Ended.snoc (.inl hphase) (if_neg he)⟩
  | wrote hp =>
    rw [hp] at hphase
    exact ⟨h.length, h.ends.snoc (iff_of_false id (not_justReached hphase)), justReached_of_write hphase _ _⟩
  | returned hp =>
    rw [hp] at hphase
    exact ⟨h.length, h.ends, hphase⟩
  | again hp hlt =>
    refine ⟨h.length, h.ends, ?_⟩
    rw [UInt32.lt_iff_toNat_lt, hcount, h.length] at hlt
    exact hlt
  | complete hp hle =>
    rw [hp] at hphase
    refine ⟨h.length, h.ends, hphase.resolve_left ?_⟩
    rw [UInt32.le_iff_toNat_le, hcount, h.length] at hle
    exact Nat.not_lt.mpr hle
  | endFailed err hp =>
    rw [hp] at hphase
    exact ⟨h.length, h.ends.snoc (iff_of_true trivial hphase),
      .inr ⟨_, List.mem_append_right _ (List.mem_singleton_self _), trivial⟩⟩
  | ended hp =>
    rw [hp] at hphase
    refine ⟨h.length, h.ends.snoc (iff_of_true trivial hphase), fun hr => ?_,
      .inr ⟨_, List.mem_append_right _ (List.mem_singleton_self _), trivial⟩⟩
    obtain ⟨_, _, hc⟩ := justReached_snoc hr
    cases hc
  | bootFailed err hp | bootSet hp =>
    rw [hp] at hphase
    exact ⟨h.length, h.ends.snoc (iff_of_false id hphase.1), hphase.2.snoc rfl⟩

/-! ## Runs -/

/-- The chunk an action hands to `ota_recv_fw_cb`. -/
def Action.chunk : Action → List UInt8
  | .otaRecvFwCb buf => buf
  | _ => []

/-- `esp_ota_write` fails rather than write past a partition of `size` bytes, the announced length stays `fw`, and a
chunk has from 1 byte to as many as the ring buffer. -/
def Steady (fw : UInt32) (size : Nat) (d : Device) (a : Action) : Prop :=
  d.Happens a ∧ (a = .task (.write espOk) → (d.written ++ d.ring.item).length ≤ size) ∧
    (∀ length, a = .announce length → length = fw) ∧
    ∀ buf, a = .otaRecvFwCb buf → 1 ≤ buf.length ∧ buf.length ≤ otaRingbufSize

/-- The ring buffer refuses none of them. -/
theorem Steady.brings {fw : UInt32} {size : Nat} {d : Device} {a : Action} (h : Steady fw size d a) :
    a.brings = a.chunk := by
  obtain ⟨-, -, -, hchunk⟩ := h
  cases a with
  | otaRecvFwCb buf => exact if_pos (hchunk buf rfl).2
  | announce | unblock | task => rfl

/-- The device with the length announced. -/
def Device.announced (fw : UInt32) : Device := { Device.boot with fwLength := fw }

/-- All that was passed was written, but for the item whose write failed. -/
def Passed (d : Device) : Prop := d.passed = d.written ∨ d.phase = .failed ∧ d.passed = d.written ++ d.ring.item

theorem Passed.step {d d' : Device} {a : Action} (h : Passed d) (hs : Steps d a d') : Passed d' := by
  -- A failed task calls nothing, and the callback leaves the item in hand alone.
  have hnot : d.phase ≠ .failed → d.passed = d.written := fun hp => h.resolve_right fun h => hp h.1
  cases hs with
  | announced | refused => exact h
  | blocks buf _ _ _ => exact h
  | sent buf r _ _ hsend =>
    refine h.imp id fun h => ⟨h.1, ?_⟩
    rw [(Ringbuf.send?_eq_some hsend).2]
    exact h.2
  | unblocked buf r _ hsend =>
    refine h.imp id fun h => ⟨h.1, ?_⟩
    rw [(Ringbuf.send?_eq_some hsend).2]
    exact h.2
  | notSelected a hp => exact .inl (hnot (by simp [hp]))
  | received n r hp | returned hp | again hp | complete hp => exact .inl (hnot (by simp [hp]))
  | wrote hp =>
    have := hnot (by simp [hp])
    exact .inl (by simpa [Device.passed, Device.written, passedBy, Call.written] using this)
  | writeFailed err hp he =>
    have := hnot (by simp [hp])
    exact .inr ⟨rfl, by simpa [Device.passed, Device.written, passedBy, Call.written, he] using this⟩
  | notBegun a p hp | begun a p hp | endFailed err hp | ended hp | bootFailed err hp | bootSet hp =>
    have := hnot (by simp [hp])
    exact .inl (by simpa [Device.passed, Device.written, passedBy, Call.written] using this)

/-- The bytes passed come from the front of the stream. -/
theorem Passed.isPrefix {bytes : List UInt8} {d : Device} (h : Passed d) (hf : Flow bytes d) :
    d.passed <+: bytes := by
  rw [← hf.bytes]
  rcases h with h | ⟨hp, h⟩
  · exact h ▸ List.prefix_append _ _
  · rw [h, Device.pending, Device.inHand, hp, List.append_assoc]
    exact (List.prefix_append_right_inj _).mpr (List.prefix_append _ _)

/-- Only a successful write adds to what is written. -/
theorem written_cases {d d' : Device} {a : Action} (hs : Steps d a d') :
    d'.written = d.written ∨ a = .task (.write espOk) ∧ d'.written = d.written ++ d.ring.item := by
  cases hs with
  | wrote => exact .inr ⟨rfl, by simp [Device.written, Call.written]⟩
  | writeFailed err _ he => exact .inl (by simp [Device.written, Call.written, he])
  | _ => exact .inl (by simp [Device.written, Call.written])

structure Streams (fw : UInt32) (size : Nat) (es : List Action) (d : Device) : Prop where
  flow : Flow (es.flatMap Action.brings) d
  timely : Timely fw d
  passed : Passed d
  size : d.written.length ≤ size

theorem Streams.count {fw : UInt32} {size : Nat} {es : List Action} {d : Device} (h : Streams fw size es d)
    (hsize : size < 2 ^ 31) : d.recvLen.toNat = d.written.length := by
  have := h.size
  rw [h.flow.count, UInt32.toNat_ofNat', Nat.mod_eq_of_lt (by omega)]

theorem Streams.boot {fw : UInt32} (hfw : 1 ≤ fw) (size : Nat) : Streams fw size [] (.announced fw) where
  flow := ⟨rfl, .inr (.inr (.inr rfl)), rfl⟩
  timely := ⟨rfl, by simp [EndsOnTime, Device.announced, Device.boot],
    Nat.lt_of_lt_of_le Nat.zero_lt_one (UInt32.le_iff_toNat_le.mp hfw)⟩
  passed := .inl rfl
  size := Nat.zero_le _

theorem Streams.step {fw : UInt32} {size : Nat} {es : List Action} {d : Device} {a : Action}
    (h : Streams fw size es d) (hsize : size < 2 ^ 31) (ha : Steady fw size d a) :
    Streams fw size (es ++ [a]) (d.step a) := by
  obtain ⟨hhap, hwithin, hannounce, -⟩ := ha
  have hs := hhap.steps
  refine ⟨?_, h.timely.step (h.count hsize) hannounce hs, h.passed.step hs, ?_⟩
  · rw [List.flatMap_append, List.flatMap_singleton]
    exact h.flow.step hs
  · rcases written_cases hs with hw | ⟨rfl, hw⟩
    · rw [hw]; exact h.size
    · rw [hw]; exact hwithin rfl

/-- From the item at which the total reaches `fw`, `ota_task` goes straight to `esp_ota_end`. -/
theorem Timely.endDue {fw : UInt32} {d : Device} (h : Timely fw d) (hcount : d.recvLen.toNat = total d.calls)
    (hle : fw.toNat ≤ total d.calls) :
    (∃ c ∈ d.calls, EndsOta c) ∨ ∀ err, ∃ cs : List TaskCall, cs <:+ [.returnItem, .compare, .otaEnd err] ∧
      (run Device.step d (cs.map .task)).calls = d.calls ++ [.otaEnd d.outHandle err] := by
  have hphase := h.phase
  have hnlt := Nat.not_lt.mpr hle
  have hge : d.recvLen ≥ d.fwLength := by
    rw [ge_iff_le, UInt32.le_iff_toNat_le, hcount, h.length]; exact hle
  have hended : Ended fw.toNat d.calls → ∃ c ∈ d.calls, EndsOta c := fun he => he.resolve_left hnlt
  cases hp : d.phase with
  | start | receiving | writing => rw [hp] at hphase; exact absurd hphase hnlt
  | returning =>
    refine .inr fun err => ⟨[.returnItem, .compare, .otaEnd err], List.suffix_refl _, ?_⟩
    simp [Device.step, Device.step?, hp, Device.compare, hge, Device.otaEnd]
  | comparing =>
    refine .inr fun err => ⟨[.compare, .otaEnd err], List.suffix_cons _ _, ?_⟩
    simp [Device.step, Device.step?, hp, Device.compare, hge, Device.otaEnd]
  | ending =>
    refine .inr fun err => ⟨[.otaEnd err], ⟨[.returnItem, .compare], rfl⟩, ?_⟩
    simp [Device.step, Device.step?, hp, Device.otaEnd]
  | settingBoot => rw [hp] at hphase; exact .inl (hended hphase.2)
  | restarted | failed => rw [hp] at hphase; exact .inl (hended hphase)

/-- **The byte stream.** -/
theorem byte_stream {fw : UInt32} (hfw : 1 ≤ fw) {size : Nat} (hsize : size < 2 ^ 31) (es : List Action)
    (h : Meets Device.step (Steady fw size) (.announced fw) es) :
    let d := run Device.step (.announced fw) es
    d.passed <+: es.flatMap Action.chunk ∧
      d.recvLen.toNat = d.written.length ∧
      ((∀ handle item err, .otaWrite handle item err ∈ d.calls → err = espOk) → d.passed = d.written) ∧
      EndsOnTime fw.toNat d.calls ∧
      (fw.toNat ≤ d.written.length → (∃ c ∈ d.calls, EndsOta c) ∨ ∀ err, ∃ cs : List TaskCall,
        cs <:+ [.returnItem, .compare, .otaEnd err] ∧
          (run Device.step d (cs.map .task)).calls = d.calls ++ [.otaEnd d.outHandle err]) := by
  intro d
  have hd : Streams fw size es d :=
    h.history (Streams fw size) (fun _ _ _ hI ha => hI.step hsize ha) (Streams.boot hfw size)
  have hcount := hd.count hsize
  have hbrings : ∀ a ∈ es, a.brings = a.chunk := h.forall fun _ _ ha => ha.brings
  have hchunks : es.flatMap Action.brings = es.flatMap Action.chunk := List.flatMap_congr hbrings
  refine ⟨hchunks ▸ hd.passed.isPrefix hd.flow, hcount, fun hok => ?_, hd.timely.ends, hd.timely.endDue hcount⟩
  refine List.flatMap_congr fun c hc => ?_
  cases c with
  | otaWrite handle item err => simp [passedBy, Call.written, hok handle item err hc]
  | _ => rfl

/-- Two chunks handed back in other cuts, up to two bytes and more, and a third that comes too late. -/
def recut : List Action :=
  [.task (.begin Restarts.oneSlot), .otaRecvFwCb [1, 2], .otaRecvFwCb [3], .task (.receive 1),
    .task (.write espOk), .task .returnItem, .task .compare, .task (.receive 2), .otaRecvFwCb [4, 5],
    .task (.write espOk), .task .returnItem, .task .compare, .task (.otaEnd espOk)]

theorem byte_stream_recut :
    (run Device.step (.announced 2) recut).passed <+: [1, 2, 3, 4, 5] ∧
      (run Device.step (.announced 2) recut).recvLen.toNat = (run Device.step (.announced 2) recut).written.length ∧
      EndsOnTime 2 (run Device.step (.announced 2) recut).calls := by
  have hsteady : Meets Device.step (Steady 2 3) (.announced 2) recut := by
    refine ⟨?_, ?_, ?_, ?_, ?_, ?_, ?_, ?_, ?_, ?_, ?_, ?_, ?_, trivial⟩ <;>
      refine ⟨by decide, by first | exact fun _ => by decide | nofun, nofun, ?_⟩ <;>
      intro buf hbuf <;> cases hbuf <;> decide
  obtain ⟨hfront, hcount, -, hends, -⟩ := byte_stream (by decide) (by decide) recut hsteady
  exact ⟨hfront, hcount, hends⟩

/-- A failing write passes bytes that `recv_len` does not count. -/
theorem byte_stream_write_fails :
    ¬ ∀ (fw : UInt32) (size : Nat) (es : List Action), 1 ≤ fw → size < 2 ^ 31 →
      Meets Device.step (Steady fw size) (.announced fw) es →
      (run Device.step (.announced fw) es).recvLen.toNat = (run Device.step (.announced fw) es).passed.length := by
  intro h
  have hsteady : Meets Device.step (Steady 2 3) (.announced 2)
      [.task (.begin Restarts.oneSlot), .otaRecvFwCb [1], .task (.receive 1), .task (.write espFail)] := by
    refine ⟨?_, ?_, ?_, ?_, trivial⟩ <;>
      exact ⟨by decide, nofun, nofun, by intro buf hbuf; cases hbuf <;> decide⟩
  exact absurd (h 2 3 _ (by decide) (by decide) hsteady) (by decide)

end EspOta.Ble
