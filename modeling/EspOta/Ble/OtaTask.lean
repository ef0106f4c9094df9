/-
The BLE device, `app_main.c`: `ota_task`, the callback `ota_recv_fw_cb`
that feeds it, and the byte ring buffer between them.

The task and the callback run concurrently, and the `ble_ota` component
changes the announced length at any time, so the model is a machine: an
action is one call of one of the parties, `step?` what it does, or `none`
when the party is not there or the call has to wait. What the `esp_ota_*`
functions answer is part of the action. `Steps` is the case analysis of a
step, and `Flow` what every step keeps: no byte that entered the ring
buffer is lost, repeated or out of order on its way to `esp_ota_write`.
-/
import EspOta.Esp
import EspOta.Lib.Run
import Mathlib.Data.List.Basic

namespace EspOta.Ble

/-! ## The ring buffer -/

def otaRingbufSize : Nat := 8192

/-- `s_ringbuf`, of type `RINGBUF_TYPE_BYTEBUF`: the bytes sent and not received, and the item received
and not returned, which keeps its room until then. -/
structure Ringbuf where
  queued : List UInt8
  item : List UInt8
  fits : queued.length + item.length ≤ otaRingbufSize
  deriving DecidableEq, Repr

namespace Ringbuf

/-- `xRingbufferCreate`. -/
def create : Ringbuf := ⟨[], [], by decide⟩

/-- `xRingbufferSend`, once there is room for the whole of `data`. -/
def send? (r : Ringbuf) (data : List UInt8) : Option Ringbuf :=
  if h : (r.queued ++ data).length + r.item.length ≤ otaRingbufSize then some ⟨r.queued ++ data, r.item, h⟩
  else none

/-- `xRingbufferReceive`: some of the bytes, from the front. -/
def receive? (r : Ringbuf) (n : Nat) : Option Ringbuf :=
  if h : r.item = [] ∧ 0 < n ∧ n ≤ r.queued.length then
    some ⟨r.queued.drop n, r.queued.take n, by have := r.fits; simp; omega⟩
  else none

/-- `vRingbufferReturnItem`. -/
def returnItem (r : Ringbuf) : Ringbuf := ⟨r.queued, [], by have := r.fits; simp; omega⟩

theorem send?_eq_some {r r' : Ringbuf} {data : List UInt8} (h : r.send? data = some r') :
    r'.queued = r.queued ++ data ∧ r'.item = r.item := by
  unfold send? at h
  split at h
  · cases h; exact ⟨rfl, rfl⟩
  · cases h

theorem receive?_eq_some {r r' : Ringbuf} {n : Nat} (h : r.receive? n = some r') :
    r'.item ++ r'.queued = r.queued ∧ r'.item.length = n ∧ 0 < n ∧ r.item = [] := by
  unfold receive? at h
  split at h
  · rename_i hn
    cases h
    exact ⟨List.take_append_drop n r.queued, by simp [hn.2.2], hn.2.1, hn.1⟩
  · cases h

@[simp] theorem returnItem_queued (r : Ringbuf) : r.returnItem.queued = r.queued := rfl
@[simp] theorem returnItem_item (r : Ringbuf) : r.returnItem.item = [] := rfl

end Ringbuf

/-! ## The task -/

def partitionSubtypeAppFactory : UInt8 := 0x00
def partitionSubtypeAppOta0 : UInt8 := 0x10

/-- What the functions `ota_task` calls before its loop answer. -/
structure Lookup where
  bootPartition : Option Partition
  nextUpdatePartition : Partition → Option Partition
  findFirst : UInt8 → UInt8 → Option Partition
  beginErr : EspErr
  beginHandle : OtaHandle

/-- The partition `ota_task` selects. -/
def selectPartition (a : Lookup) : Option Partition :=
  match a.bootPartition with
  | none => none
  | some p =>
    if p.type ≠ partitionTypeApp then none
    else
      let subtype :=
        if p.subtype = partitionSubtypeAppFactory then partitionSubtypeAppOta0
        else
          match a.nextUpdatePartition p with
          | some next => next.subtype
          | none => partitionSubtypeAppOta0
      a.findFirst partitionTypeApp subtype

/-- Where `ota_task` is: the call it makes next, or how it ended. -/
inductive Phase
  | start
  | receiving
  | writing
  | returning
  | comparing
  | ending
  | settingBoot
  | restarted
  | failed
  deriving DecidableEq, Repr

/-- The device since it booted. `blocked` is the data of a callback that waits in `xRingbufferSend`,
`calls` the `esp_ota_*` calls made, in order. -/
structure Device where
  phase : Phase
  partition : Option Partition
  outHandle : OtaHandle
  recvLen : UInt32
  ring : Ringbuf
  blocked : Option (List UInt8)
  fwLength : UInt32
  calls : List Call
  deriving DecidableEq, Repr

/-- What `ota_task` does next, with the answer it gets. -/
inductive TaskCall
  | begin (answers : Lookup)
  | receive (itemSize : Nat)
  | write (err : EspErr)
  | returnItem
  | compare
  | otaEnd (err : EspErr)
  | setBoot (err : EspErr)

inductive Action
  /-- `esp_ble_ota_get_fw_length` answers `length` from now on. -/
  | announce (length : UInt32)
  | otaRecvFwCb (buf : List UInt8)
  /-- The blocked `xRingbufferSend` finds room. -/
  | unblock
  | task (call : TaskCall)

namespace Device

def boot : Device := ⟨.start, none, 0, 0, .create, none, 0, []⟩

/-- `ota_recv_fw_cb`, that is `write_to_ringbuf`, which waits for room without limit but refuses what the
buffer can never hold. -/
def otaRecvFwCb (d : Device) (buf : List UInt8) : Option Device :=
  if d.blocked.isSome then none
  else if otaRingbufSize < buf.length then some d
  else
    match d.ring.send? buf with
    | some r => some { d with ring := r }
    | none => some { d with blocked := some buf }

def unblock (d : Device) : Option Device :=
  match d.blocked with
  | none => none
  | some buf => (d.ring.send? buf).map fun r => { d with ring := r, blocked := none }

/-- `ota_task` up to its loop. -/
def begin (d : Device) (a : Lookup) : Device :=
  match selectPartition a with
  | none => { d with phase := .failed }
  | some p =>
    if a.beginErr ≠ espOk then
      { d with phase := .failed, partition := some p,
               calls := d.calls ++ [.otaBegin p a.beginErr d.outHandle] }
    else
      { d with phase := .receiving, partition := some p, outHandle := a.beginHandle,
               calls := d.calls ++ [.otaBegin p espOk a.beginHandle] }

/-- `esp_ota_write` and the count; a failure leaves the loop with the item not returned. -/
def write (d : Device) (err : EspErr) : Device :=
  let d : Device := { d with calls := d.calls ++ [.otaWrite d.outHandle d.ring.item err] }
  if err ≠ espOk then { d with phase := .failed }
  else { d with phase := .returning, recvLen := d.recvLen + UInt32.ofNat d.ring.item.length }

def compare (d : Device) : Device :=
  { d with phase := if d.recvLen ≥ d.fwLength then .ending else .receiving }

def otaEnd (d : Device) (err : EspErr) : Device :=
  { d with phase := if err ≠ espOk then .failed else .settingBoot,
           calls := d.calls ++ [.otaEnd d.outHandle err] }

def setBoot (d : Device) (err : EspErr) : Device :=
  { d with phase := if err ≠ espOk then .failed else .restarted,
           calls := d.calls ++ [.setBootPartition d.partition err] }

/-- One action; after a restart there is no device left to act. -/
def step? (d : Device) (a : Action) : Option Device :=
  match d.phase, a with
  | .restarted, _ => none
  | _, .announce length => some { d with fwLength := length }
  | _, .otaRecvFwCb buf => d.otaRecvFwCb buf
  | _, .unblock => d.unblock
  | .start, .task (.begin a) => some (d.begin a)
  | .receiving, .task (.receive n) => (d.ring.receive? n).map fun r => { d with ring := r, phase := .writing }
  | .writing, .task (.write err) => some (d.write err)
  | .returning, .task .returnItem => some { d with ring := d.ring.returnItem, phase := .comparing }
  | .comparing, .task .compare => some d.compare
  | .ending, .task (.otaEnd err) => some (d.otaEnd err)
  | .settingBoot, .task (.setBoot err) => some (d.setBoot err)
  | _, _ => none

end Device

/-! ## What a step can be -/

/-- Everything a step can be. -/
inductive Steps (d : Device) : Action → Device → Prop
  | announced (length : UInt32) : Steps d (.announce length) { d with fwLength := length }
  | refused (buf : List UInt8) : otaRingbufSize < buf.length → Steps d (.otaRecvFwCb buf) d
  | sent (buf : List UInt8) (r : Ringbuf) : buf.length ≤ otaRingbufSize → d.blocked = none →
      d.ring.send? buf = some r → Steps d (.otaRecvFwCb buf) { d with ring := r }
  | blocks (buf : List UInt8) : buf.length ≤ otaRingbufSize → d.blocked = none → d.ring.send? buf = none →
      Steps d (.otaRecvFwCb buf) { d with blocked := some buf }
  | unblocked (buf : List UInt8) (r : Ringbuf) : d.blocked = some buf → d.ring.send? buf = some r →
      Steps d .unblock { d with ring := r, blocked := none }
  | notSelected (a : Lookup) : d.phase = .start → selectPartition a = none →
      Steps d (.task (.begin a)) { d with phase := .failed }
  | notBegun (a : Lookup) (p : Partition) : d.phase = .start → selectPartition a = some p →
      a.beginErr ≠ espOk →
      Steps d (.task (.begin a))
        { d with phase := .failed, partition := some p,
                 calls := d.calls ++ [.otaBegin p a.beginErr d.outHandle] }
  | begun (a : Lookup) (p : Partition) : d.phase = .start → selectPartition a = some p →
      a.beginErr = espOk →
      Steps d (.task (.begin a))
        { d with phase := .receiving, partition := some p, outHandle := a.beginHandle,
                 calls := d.calls ++ [.otaBegin p espOk a.beginHandle] }
  | received (n : Nat) (r : Ringbuf) : d.phase = .receiving → d.ring.receive? n = some r →
      Steps d (.task (.receive n)) { d with ring := r, phase := .writing }
  | writeFailed (err : EspErr) : d.phase = .writing → err ≠ espOk →
      Steps d (.task (.write err))
        { d with phase := .failed, calls := d.calls ++ [.otaWrite d.outHandle d.ring.item err] }
  | wrote : d.phase = .writing →
      Steps d (.task (.write espOk))
        { d with phase := .returning, calls := d.calls ++ [.otaWrite d.outHandle d.ring.item espOk],
                 recvLen := d.recvLen + UInt32.ofNat d.ring.item.length }
  | returned : d.phase = .returning →
      Steps d (.task .returnItem) { d with ring := d.ring.returnItem, phase := .comparing }
  | again : d.phase = .comparing → d.recvLen < d.fwLength →
      Steps d (.task .compare) { d with phase := .receiving }
  | complete : d.phase = .comparing → d.fwLength ≤ d.recvLen →
      Steps d (.task .compare) { d with phase := .ending }
  | endFailed (err : EspErr) : d.phase = .ending → err ≠ espOk →
      Steps d (.task (.otaEnd err)) { d with phase := .failed, calls := d.calls ++ [.otaEnd d.outHandle err] }
  | ended : d.phase = .ending →
      Steps d (.task (.otaEnd espOk))
        { d with phase := .settingBoot, calls := d.calls ++ [.otaEnd d.outHandle espOk] }
  | bootFailed (err : EspErr) : d.phase = .settingBoot → err ≠ espOk →
      Steps d (.task (.setBoot err))
        { d with phase := .failed, calls := d.calls ++ [.setBootPartition d.partition err] }
  | bootSet : d.phase = .settingBoot →
      Steps d (.task (.setBoot espOk))
        { d with phase := .restarted, calls := d.calls ++ [.setBootPartition d.partition espOk] }

theorem otaRecvFwCb_steps {d d' : Device} {buf : List UInt8} (h : d.otaRecvFwCb buf = some d') :
    Steps d (.otaRecvFwCb buf) d' := by
  unfold Device.otaRecvFwCb at h
  split at h
  · cases h
  · rename_i hb
    have hnone : d.blocked = none := by simpa using hb
    split at h
    · cases h; exact .refused buf ‹_›
    · rename_i hlen
      have hle : buf.length ≤ otaRingbufSize := Nat.not_lt.mp hlen
      split at h <;> cases h
      · exact .sent buf _ hle hnone ‹_›
      · exact .blocks buf hle hnone ‹_›

theorem unblock_steps {d d' : Device} (h : d.unblock = some d') : Steps d .unblock d' := by
  unfold Device.unblock at h
  split at h
  · cases h
  · obtain ⟨r, hr, rfl⟩ := Option.map_eq_some_iff.mp h
    exact .unblocked _ r ‹_› hr

theorem begin_steps {d : Device} (hp : d.phase = .start) (a : Lookup) :
    Steps d (.task (.begin a)) (d.begin a) := by
  unfold Device.begin
  split
  · exact .notSelected a hp ‹_›
  · split
    · exact .notBegun a _ hp ‹_› ‹_›
    · exact .begun a _ hp ‹_› (Decidable.not_not.mp ‹_›)

theorem write_steps {d : Device} (hp : d.phase = .writing) (err : EspErr) :
    Steps d (.task (.write err)) (d.write err) := by
  by_cases he : err = espOk
  · subst he; exact .wrote hp
  · simp only [Device.write, ne_eq, he, not_false_eq_true, if_true]
    exact .writeFailed err hp he

theorem compare_steps {d : Device} (hp : d.phase = .comparing) : Steps d (.task .compare) d.compare := by
  unfold Device.compare
  split
  · exact .complete hp ‹_›
  · exact .again hp (UInt32.not_le.mp ‹_›)

theorem otaEnd_steps {d : Device} (hp : d.phase = .ending) (err : EspErr) :
    Steps d (.task (.otaEnd err)) (d.otaEnd err) := by
  by_cases he : err = espOk
  · subst he; exact .ended hp
  · simp only [Device.otaEnd, ne_eq, he, not_false_eq_true, if_true]
    exact .endFailed err hp he

theorem setBoot_steps {d : Device} (hp : d.phase = .settingBoot) (err : EspErr) :
    Steps d (.task (.setBoot err)) (d.setBoot err) := by
  by_cases he : err = espOk
  · subst he; exact .bootSet hp
  · simp only [Device.setBoot, ne_eq, he, not_false_eq_true, if_true]
    exact .bootFailed err hp he

/-- **A step is one of these.** -/
theorem steps {d d' : Device} {a : Action} (h : d.step? a = some d') : Steps d a d' := by
  unfold Device.step? at h
  split at h
  · cases h
  · cases h; exact .announced _
  · exact otaRecvFwCb_steps h
  · exact unblock_steps h
  · cases h; exact begin_steps ‹_› _
  · obtain ⟨r, hr, rfl⟩ := Option.map_eq_some_iff.mp h
    exact .received _ r ‹_› hr
  · cases h; exact write_steps ‹_› _
  · cases h; exact .returned ‹_›
  · cases h; exact compare_steps ‹_›
  · cases h; exact otaEnd_steps ‹_› _
  · cases h; exact setBoot_steps ‹_› _
  · cases h

/-! ## The bytes on their way -/

namespace Device

/-- The bytes written successfully, in order. -/
def written (d : Device) : List UInt8 := d.calls.flatMap Call.written

/-- The bytes received and not written: those of the item in hand, also when its write failed. -/
def inHand (d : Device) : List UInt8 :=
  match d.phase with
  | .writing | .failed => d.ring.item
  | _ => []

/-- The bytes accepted from the callback and not written. -/
def pending (d : Device) : List UInt8 := d.inHand ++ d.ring.queued ++ d.blocked.getD []

end Device

/-- The bytes an action brings; a chunk the ring buffer can never hold is dropped. -/
def Action.brings : Action → List UInt8
  | .otaRecvFwCb buf => if buf.length ≤ otaRingbufSize then buf else []
  | _ => []

@[simp] theorem brings_task (c : TaskCall) : (Action.task c).brings = [] := rfl
@[simp] theorem brings_unblock : Action.unblock.brings = [] := rfl
@[simp] theorem brings_announce (length : UInt32) : (Action.announce length).brings = [] := rfl

/-- The device has taken `bytes` from the callback: they are the bytes written and, in order, those on
their way. -/
structure Flow (bytes : List UInt8) (d : Device) : Prop where
  bytes : d.written ++ d.pending = bytes
  item : d.phase = .writing ∨ d.phase = .returning ∨ d.phase = .failed ∨ d.ring.item = []
  count : d.recvLen = UInt32.ofNat d.written.length

theorem Flow.boot : Flow [] .boot := ⟨rfl, .inr (.inr (.inr rfl)), rfl⟩

/-- A step that moves no byte past the count. -/
theorem Flow.quiet {bytes : List UInt8} {d d' : Device} (hf : Flow bytes d) (hw : d'.written = d.written)
    (hp : d'.pending = d.pending) (hc : d'.recvLen = d.recvLen)
    (hi : d'.phase = .writing ∨ d'.phase = .returning ∨ d'.phase = .failed ∨ d'.ring.item = []) :
    Flow bytes d' :=
  ⟨by rw [hw, hp]; exact hf.bytes, hi, by rw [hc, hw]; exact hf.count⟩

/-- **A step keeps the bytes in order.** -/
theorem Flow.step {bytes : List UInt8} {d d' : Device} {a : Action} (h : Steps d a d') (hf : Flow bytes d) :
    Flow (bytes ++ a.brings) d' := by
  have hitem : d.phase ≠ .writing → d.phase ≠ .returning → d.phase ≠ .failed → d.ring.item = [] :=
    fun h1 h2 h3 => ((hf.item.resolve_left h1).resolve_left h2).resolve_left h3
  cases h with
  | sent buf r hle hnone hs =>
    obtain ⟨hq, hr⟩ := Ringbuf.send?_eq_some hs
    refine ⟨?_, hr.symm ▸ hf.item, hf.count⟩
    rw [← hf.bytes, Action.brings, if_pos hle]
    simp [Device.written, Device.pending, Device.inHand, hq, hr, hnone]
  | blocks buf hle hnone hs =>
    refine ⟨?_, hf.item, hf.count⟩
    rw [← hf.bytes, Action.brings, if_pos hle]
    simp [Device.written, Device.pending, Device.inHand, hnone]
  | wrote hp =>
    refine ⟨?_, .inr (.inl rfl), ?_⟩
    · rw [← hf.bytes, brings_task]
      simp [Device.written, Device.pending, Device.inHand, hp, Call.written]
    · simp [hf.count, Device.written, Call.written, UInt32.ofNat_add]
  | refused buf hlen =>
    rw [Action.brings, if_neg (Nat.not_le.mpr hlen), List.append_nil]
    exact hf
  | announced length =>
    rw [brings_announce, List.append_nil]
    exact hf.quiet rfl rfl rfl hf.item
  | unblocked buf r hsome hs =>
    obtain ⟨hq, hr⟩ := Ringbuf.send?_eq_some hs
    rw [brings_unblock, List.append_nil]
    exact hf.quiet rfl (by simp [Device.pending, Device.inHand, hq, hr, hsome]) rfl (hr.symm ▸ hf.item)
  | notSelected a hp hs =>
    have hr := hitem (by simp [hp]) (by simp [hp]) (by simp [hp])
    rw [brings_task, List.append_nil]
    exact hf.quiet rfl (by simp [Device.pending, Device.inHand, hp, hr]) rfl (.inr (.inr (.inl rfl)))
  | received n r hp hr =>
    obtain ⟨happ, -⟩ := Ringbuf.receive?_eq_some hr
    rw [brings_task, List.append_nil]
    exact hf.quiet rfl (by simp [Device.pending, Device.inHand, hp, ← happ]) rfl (.inl rfl)
  | returned hp =>
    rw [brings_task, List.append_nil]
    exact hf.quiet rfl (by simp [Device.pending, Device.inHand, hp]) rfl (.inr (.inr (.inr rfl)))
  | writeFailed err hp he =>
    rw [brings_task, List.append_nil]
    exact hf.quiet (by simp [Device.written, Call.written, he]) (by simp [Device.pending, Device.inHand, hp])
      rfl (.inr (.inr (.inl rfl)))
  | again hp | complete hp =>
    have hr := hitem (by simp [hp]) (by simp [hp]) (by simp [hp])
    rw [brings_task, List.append_nil]
    exact hf.quiet rfl (by simp [Device.pending, Device.inHand, hp]) rfl (.inr (.inr (.inr hr)))
  | notBegun a p hp | endFailed err hp | bootFailed err hp =>
    have hr := hitem (by simp [hp]) (by simp [hp]) (by simp [hp])
    rw [brings_task, List.append_nil]
    exact hf.quiet (by simp [Device.written, Call.written]) (by simp [Device.pending, Device.inHand, hp, hr])
      rfl (.inr (.inr (.inl rfl)))
  | begun a p hp | ended hp | bootSet hp =>
    have hr := hitem (by simp [hp]) (by simp [hp]) (by simp [hp])
    rw [brings_task, List.append_nil]
    exact hf.quiet (by simp [Device.written, Call.written]) (by simp [Device.pending, Device.inHand, hp]) rfl
      (.inr (.inr (.inr hr)))

/-! ## Before and after the end of the loop -/

/-- The task has left its loop, or failed. -/
def Phase.Left (p : Phase) : Prop := p = .ending ∨ p = .settingBoot ∨ p = .restarted ∨ p = .failed

/-- `esp_ota_end` or `esp_ota_set_boot_partition`. -/
def Finishes : Call → Prop
  | .otaEnd .. | .setBootPartition .. => True
  | _ => False

namespace Steps

variable {d d' : Device}

/-- Only the loop's write writes. -/
theorem written_of_ne {a : Action} (h : Steps d a d') (hp : d.phase ≠ .writing) : d'.written = d.written := by
  cases h with
  | writeFailed err hw | wrote hw => exact absurd hw hp
  | _ => simp [Device.written, Call.written]

theorem fwLength_of_task {c : TaskCall} (h : Steps d (.task c) d') : d'.fwLength = d.fwLength := by
  cases h <;> rfl

/-- The other parties leave the task where it is. -/
theorem phase_of_not_task {a : Action} (h : Steps d a d') (ha : ∀ c, a ≠ .task c) :
    d'.phase = d.phase ∧ d'.calls = d.calls := by
  cases h <;> first | exact ⟨rfl, rfl⟩ | exact absurd rfl (ha _)

/-- Before its loop ends the task finishes nothing, and it leaves by counting enough bytes or by failing. -/
theorem in_loop {c : TaskCall} (h : Steps d (.task c) d') (hp : ¬ d.phase.Left) :
    (d'.phase = .ending ∧ d.fwLength ≤ d.recvLen ∧ d'.calls = d.calls) ∨
      ((d'.phase.Left → d'.phase = .failed) ∧ ∀ k ∈ d'.calls, k ∈ d.calls ∨ ¬ Finishes k) := by
  cases h with
  | complete hc hle => exact .inl ⟨rfl, hle, rfl⟩
  | endFailed err he | ended he => exact absurd (.inl he) hp
  | bootFailed err hb | bootSet hb => exact absurd (.inr (.inl hb)) hp
  | notSelected => exact .inr ⟨fun _ => rfl, fun k hk => .inl hk⟩
  | returned | again | received => exact .inr ⟨by simp [Phase.Left], fun k hk => .inl hk⟩
  | notBegun | begun | writeFailed | wrote =>
    refine .inr ⟨by simp [Phase.Left], fun k hk => ?_⟩
    rcases List.mem_append.mp hk with hk | hk
    · exact .inl hk
    · rw [List.mem_singleton.mp hk]; exact .inr id

/-- After its loop the task finishes or fails. -/
theorem after_loop {c : TaskCall} (h : Steps d (.task c) d') (hp : d.phase.Left) :
    (d.phase = .ending ∨ d.phase = .settingBoot) ∧
      (d'.phase = .settingBoot ∨ d'.phase = .restarted ∨ d'.phase = .failed) := by
  cases h with
  | endFailed err he => exact ⟨.inl he, .inr (.inr rfl)⟩
  | ended he => exact ⟨.inl he, .inl rfl⟩
  | bootFailed err hb => exact ⟨.inr hb, .inr (.inr rfl)⟩
  | bootSet hb => exact ⟨.inr hb, .inr (.inl rfl)⟩
  | notSelected | notBegun | begun | received | writeFailed | wrote | returned | again | complete =>
    simp_all [Phase.Left]

end Steps

end EspOta.Ble
