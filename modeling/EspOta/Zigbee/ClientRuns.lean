/-
The Zigbee client over whole runs: any messages in any order, any pattern of
failures of the `esp_ota_*` calls, from boot. Beside the static variables
stands the log of the messages handled since boot, the latest first, each
with the state it found; what a run did is read off the log.

The handler's counter is the size of every payload it was ever told of since
boot, modulo `2^32` (`Tracks`). It is not what was written, and it is not
counted from the latest START; that is the whole of `check_complete_iff` and
`check_after_session_iff`. What `esp_ota_set_boot_partition` may rely on is
`setBoot_cases`.
-/
import EspOta.Lib.Run
import EspOta.Zigbee.Client

namespace EspOta.Zigbee.ClientRuns

open Lib

/-- A message, with what the calls it leads to answer. -/
structure Event where
  answers : Answers
  msg : UpgradeValueMessage

/-- A message handled, and the state that found it. -/
structure Handled extends Event where
  before : Client

def Handled.outcome (h : Handled) : Outcome := zbOtaUpgradeStatusHandler h.answers h.before h.msg

structure World where
  client : Client
  log : List Handled

def World.boot : World := ⟨.boot, []⟩

/-- One message. After a restart or a failed assertion the client boots anew. -/
def step (w : World) (e : Event) : World :=
  let h : Handled := ⟨e, w.client⟩
  match h.outcome.exit with
  | .returned _ => ⟨h.outcome.client, h :: w.log⟩
  | .restarted | .aborted => .boot

/-! ## Reading a log -/

abbrev Handled.Is (h : Handled) (u : UpgradeStatus) : Prop := h.msg.Is u

/-- The latest START. -/
def lastStart (log : List Handled) : Option Handled := log.find? (·.Is .start)

/-- What was handled after the latest START. -/
def sinceStart (log : List Handled) : List Handled := log.takeWhile (¬ ·.Is .start)

/-- The latest START and what was handled before it. -/
def upToStart (log : List Handled) : List Handled := log.dropWhile (¬ ·.Is .start)

/-- The latest RECEIVE. -/
def lastReceive (log : List Handled) : Option Handled := log.find? (·.Is .receive)

/-- The payload size a RECEIVE tells of. -/
def Handled.counted (h : Handled) : Nat := if h.Is .receive then h.msg.payloadSize.toNat else 0

def counted (log : List Handled) : Nat := (log.map (·.counted)).sum

/-- The bytes a handling wrote successfully. -/
def Handled.written (h : Handled) : List UInt8 := h.outcome.calls.flatMap Call.written

/-- The bytes written successfully, in order. -/
def written : List Handled → List UInt8
  | [] => []
  | h :: log => written log ++ h.written

/-- How much of the payload sizes was not written. -/
def unwritten (log : List Handled) : Nat := (log.map fun h => h.counted - h.written.length).sum

/-- The image size in the latest RECEIVE, zero when there is none. -/
def announced (log : List Handled) : UInt32 := ((lastReceive log).map (·.msg.imageSize)).getD 0

/-- The handle of the latest START whose `esp_ota_begin` succeeded, zero when
there is none. -/
def openedHandle (log : List Handled) : OtaHandle :=
  ((log.find? fun h => h.Is .start ∧ h.answers.beginErr = espOk).map (·.answers.beginHandle)).getD 0

/-- The partition the latest START chose. -/
def chosenPartition (log : List Handled) : Option Partition :=
  (lastStart log).bind (·.answers.nextUpdatePartition)

@[simp] theorem counted_nil : counted [] = 0 := rfl
@[simp] theorem counted_cons (h : Handled) (log : List Handled) :
    counted (h :: log) = h.counted + counted log := rfl
@[simp] theorem unwritten_cons (h : Handled) (log : List Handled) :
    unwritten (h :: log) = (h.counted - h.written.length) + unwritten log := rfl

theorem lastStart_cons (h : Handled) (log : List Handled) :
    lastStart (h :: log) = if h.Is .start then some h else lastStart log := by
  by_cases hs : h.Is .start <;> simp [lastStart, hs]

theorem sinceStart_cons (h : Handled) (log : List Handled) :
    sinceStart (h :: log) = if h.Is .start then [] else h :: sinceStart log := by
  by_cases hs : h.Is .start <;> simp [sinceStart, hs]

theorem announced_cons (h : Handled) (log : List Handled) :
    announced (h :: log) = if h.Is .receive then h.msg.imageSize else announced log := by
  by_cases hr : h.Is .receive <;> simp [announced, lastReceive, hr]

theorem openedHandle_cons (h : Handled) (log : List Handled) :
    openedHandle (h :: log) =
      if h.Is .start ∧ h.answers.beginErr = espOk then h.answers.beginHandle else openedHandle log := by
  by_cases hs : h.Is .start ∧ h.answers.beginErr = espOk
  · simp [openedHandle, hs]
  · simp only [openedHandle, hs]
    simp [hs]

theorem chosenPartition_cons (h : Handled) (log : List Handled) :
    chosenPartition (h :: log) =
      if h.Is .start then h.answers.nextUpdatePartition else chosenPartition log := by
  by_cases hs : h.Is .start <;> simp [chosenPartition, lastStart_cons, hs]

theorem counted_append (l₁ l₂ : List Handled) : counted (l₁ ++ l₂) = counted l₁ + counted l₂ := by
  simp [counted]

theorem sinceStart_append_upToStart (log : List Handled) : sinceStart log ++ upToStart log = log :=
  List.takeWhile_append_dropWhile

/-- A handling writes no more than it was told of. -/
theorem Handled.written_length_le (h : Handled) : h.written.length ≤ h.counted := by
  have hk := handles h.answers h.before h.msg
  unfold Handled.written Handled.counted Handled.outcome
  generalize zbOtaUpgradeStatusHandler h.answers h.before h.msg = o at hk
  cases hk with
  | write hm hd hl =>
    rw [if_pos hm]
    simp only [List.flatMap_cons, List.flatMap_nil, List.append_nil, Call.written]
    split
    · exact Nat.le_of_eq hl
    · exact Nat.zero_le _
  | _ => simp [Call.written]

theorem written_add_unwritten (log : List Handled) :
    (written log).length + unwritten log = counted log := by
  induction log with
  | nil => rfl
  | cons h log ih =>
    have := h.written_length_le
    simp only [written, List.length_append, unwritten_cons, counted_cons]
    omega

/-! ## The static variables and the log -/

/-- What the static variables hold, read off the log. -/
structure Tracks (w : World) : Prop where
  offset : w.client.offset.toNat = counted w.log % 2 ^ 32
  totalSize : w.client.totalSize = announced w.log
  handle : w.client.sOtaHandle = openedHandle w.log
  partition : w.client.sOtaPartition = chosenPartition w.log
  /-- Since the latest START the handle has not changed. -/
  held : ∀ h ∈ sinceStart w.log, h.before.sOtaHandle = w.client.sOtaHandle

theorem Tracks.boot : Tracks .boot := ⟨rfl, rfl, rfl, rfl, by simp [World.boot, sinceStart]⟩

theorem step_of_outcome {w : World} {e : Event} {o : Outcome}
    (h : zbOtaUpgradeStatusHandler e.answers w.client e.msg = o) :
    step w e = match o.exit with
      | .returned _ => ⟨o.client, ⟨e, w.client⟩ :: w.log⟩
      | .restarted | .aborted => .boot := by
  subst h; rfl

/-- A message that is neither a START nor a RECEIVE, and returns. -/
theorem Tracks.keep {w : World} (h : Tracks w) {e : Event} (hs : ¬ e.msg.Is .start)
    (hr : ¬ e.msg.Is .receive) : Tracks ⟨w.client, ⟨e, w.client⟩ :: w.log⟩ where
  offset := by simp [Handled.counted, hr, h.offset]
  totalSize := by simp [announced_cons, hr, h.totalSize]
  handle := by simp [openedHandle_cons, hs, h.handle]
  partition := by simp [chosenPartition_cons, hs, h.partition]
  held := by
    intro k hk
    simp only [sinceStart_cons, hs, ite_false, List.mem_cons] at hk
    rcases hk with rfl | hk
    · rfl
    · exact h.held k hk

/-- A START that got as far as `esp_ota_begin`. -/
theorem Tracks.start {w : World} (h : Tracks w) {e : Event} (hs : e.msg.Is .start) {p : Partition}
    (hp : e.answers.nextUpdatePartition = some p) {handle : OtaHandle}
    (hh : handle = if e.answers.beginErr = espOk then e.answers.beginHandle else w.client.sOtaHandle) :
    Tracks ⟨{ w.client with sOtaPartition := some p, sOtaHandle := handle }, ⟨e, w.client⟩ :: w.log⟩ := by
  have hr : ¬ e.msg.Is .receive := fun hr => nomatch hs.unique hr
  refine ⟨?_, ?_, ?_, ?_, ?_⟩
  · simp [Handled.counted, hr, h.offset]
  · simp [announced_cons, hr, h.totalSize]
  · simp only [openedHandle_cons, hs, true_and, hh, h.handle]
  · simp [chosenPartition_cons, hs, hp]
  · simp [sinceStart_cons, hs]

/-- A RECEIVE, written or not. -/
theorem Tracks.receive {w : World} (h : Tracks w) {e : Event} (hr : e.msg.Is .receive) :
    Tracks ⟨{ w.client with totalSize := e.msg.imageSize, offset := w.client.offset + e.msg.payloadSize },
      ⟨e, w.client⟩ :: w.log⟩ := by
  have hs : ¬ e.msg.Is .start := fun hs => nomatch hr.unique hs
  refine ⟨?_, ?_, ?_, ?_, ?_⟩
  · simp only [counted_cons, Handled.counted, hr, ite_true, UInt32.toNat_add, h.offset]
    omega
  · simp [announced_cons, hr]
  · simp [openedHandle_cons, hs, h.handle]
  · simp [chosenPartition_cons, hs, h.partition]
  · intro k hk
    simp only [sinceStart_cons, hs, ite_false, List.mem_cons] at hk
    rcases hk with rfl | hk
    · rfl
    · exact h.held k hk

theorem Tracks.step {w : World} (h : Tracks w) (e : Event) : Tracks (step w e) := by
  have hk := handles e.answers w.client e.msg
  generalize ho : zbOtaUpgradeStatusHandler e.answers w.client e.msg = o at hk
  rw [step_of_outcome ho]
  cases hk with
  | noPartition => exact .boot
  | beginOk hs hp hb => exact h.start hs hp (by simp [hb])
  | beginFailed hs hp hb => exact h.start hs hp (by simp [hb])
  | noData hr => exact h.receive hr
  | write hr => exact h.receive hr
  | check hc => exact h.keep (fun hs => nomatch hc.unique hs) fun hr => nomatch hc.unique hr
  | endFailed hf => exact h.keep (fun hs => nomatch hf.unique hs) fun hr => nomatch hf.unique hr
  | setBootFailed hf => exact h.keep (fun hs => nomatch hf.unique hs) fun hr => nomatch hf.unique hr
  | restart => exact .boot
  | other hs hr => exact h.keep hs hr

theorem run_tracks (es : List Event) : Tracks (run step .boot es) :=
  run_invariant Tracks (fun _ e h => h.step e) .boot es

/-! Messages of one-byte payloads, and calls that all succeed. -/

def succeed (handle : OtaHandle) : Answers := ⟨some ⟨0, 0x11, 0x110000⟩, espOk, handle, espOk, espOk, espOk⟩

def bare (u : UpgradeStatus) : UpgradeValueMessage := ⟨.success, u, 0, 0, none, by simp⟩

def startWith (handle : OtaHandle) : Event := ⟨succeed handle, bare .start⟩

def receiveByte (n : UInt32) (b : UInt8) : Event :=
  ⟨succeed 0, .success, .receive, n, 1, some [b], by simp⟩

/-! ## CHECK -/

theorem check_exit (a : Answers) (s : Client) {m : UpgradeValueMessage} (hm : m.Is .check) :
    (zbOtaUpgradeStatusHandler a s m).exit =
      .returned (if s.offset = s.totalSize then espOk else espFail) := by
  simp [zbOtaUpgradeStatusHandler, hm.1, hm.2]

/-- CHECK compares what was counted since boot with the latest announcement. -/
theorem Tracks.check_ok_iff {w : World} (h : Tracks w) (a : Answers) {m : UpgradeValueMessage}
    (hm : m.Is .check) : (zbOtaUpgradeStatusHandler a w.client m).exit = .returned espOk ↔
      counted w.log % 2 ^ 32 = (announced w.log).toNat := by
  rw [check_exit a w.client hm, ← h.offset, ← h.totalSize, UInt32.toNat_inj]
  split
  · next he => simp [he]
  · next hne => simp [hne, espOk, espFail]

/-- There is a latest START, and since then a RECEIVE announcing as many bytes
as were written successfully since then. -/
def Complete (log : List Handled) : Prop :=
  (lastStart log).isSome ∧
    ∃ r ∈ lastReceive (sinceStart log), (written (sinceStart log)).length = r.msg.imageSize.toNat

/-- There is a latest START and a RECEIVE since; what was counted before that
START and what was counted since without being written come to a multiple of
`2^32`; and what was written since is below `2^32`. -/
def Accounted (log : List Handled) : Prop :=
  (lastStart log).isSome ∧ (lastReceive (sinceStart log)).isSome ∧
    (counted (upToStart log) + unwritten (sinceStart log)) % 2 ^ 32 = 0 ∧
    (written (sinceStart log)).length < 2 ^ 32

theorem counted_split (log : List Handled) : counted log =
    counted (upToStart log) + unwritten (sinceStart log) + (written (sinceStart log)).length := by
  have h := congrArg counted (sinceStart_append_upToStart log)
  rw [counted_append, ← written_add_unwritten] at h
  omega

theorem announced_of_lastReceive {log : List Handled} {r : Handled}
    (hr : lastReceive (sinceStart log) = some r) : announced log = r.msg.imageSize := by
  have h : lastReceive log = some r := by
    rw [← sinceStart_append_upToStart log, lastReceive, List.find?_append]
    rw [lastReceive] at hr
    rw [hr, Option.some_or]
  simp [announced, h]

/-- A passed CHECK means a complete session just when the log is accounted for. -/
theorem complete_iff_accounted {log : List Handled}
    (h : counted log % 2 ^ 32 = (announced log).toNat) : Complete log ↔ Accounted log := by
  unfold Complete Accounted
  refine and_congr_right fun _ => ?_
  cases hr : lastReceive (sinceStart log) with
  | none => simp
  | some r =>
    rw [counted_split, announced_of_lastReceive hr] at h
    have hn := r.msg.imageSize.toNat_lt
    simp only [Option.mem_def, Option.some.injEq, exists_eq_left', Option.isSome_some, true_and]
    constructor
    · intro hw; omega
    · intro ⟨hz, hw⟩; omega

/-- **What a passed CHECK says.** After any messages, CHECK passes only on a
complete session if and only if it fails or the log is accounted for. -/
theorem check_complete_iff (es : List Event) (a : Answers) {m : UpgradeValueMessage} (hm : m.Is .check) :
    let w := run step .boot es
    ((zbOtaUpgradeStatusHandler a w.client m).exit = .returned espOk → Complete w.log) ↔
      (counted w.log % 2 ^ 32 = (announced w.log).toNat → Accounted w.log) := by
  intro w
  rw [(run_tracks es).check_ok_iff a hm]
  exact forall_congr' complete_iff_accounted

/-- One byte of two, a new START, one byte of two: CHECK passes. -/
theorem check_incomplete :
    let w := run step .boot [startWith 1, receiveByte 2 7, startWith 2, receiveByte 2 9]
    (zbOtaUpgradeStatusHandler (succeed 0) w.client (bare .check)).exit = .returned espOk ∧
      written (sinceStart w.log) = [9] ∧ ¬ Complete w.log := by
  refine ⟨by decide, by decide, ?_⟩
  rintro ⟨-, r, hr, hw⟩
  have hi : r.msg.imageSize = 2 := by
    have := announced_of_lastReceive hr
    exact this.symm.trans (by decide)
  rw [hi] at hw
  revert hw
  decide

theorem check_complete_iff_two_bytes :
    let w := run step .boot [startWith 1, receiveByte 2 7, receiveByte 2 9]
    ((zbOtaUpgradeStatusHandler (succeed 0) w.client (bare .check)).exit = .returned espOk →
      Complete w.log) ↔ (counted w.log % 2 ^ 32 = (announced w.log).toNat → Accounted w.log) :=
  check_complete_iff [startWith 1, receiveByte 2 7, receiveByte 2 9] (succeed 0) (by decide)

/-! ## A whole session -/

theorem step_receive (w : World) {e : Event} (hr : e.msg.Is .receive) :
    step w e = ⟨{ w.client with totalSize := e.msg.imageSize, offset := w.client.offset + e.msg.payloadSize },
      ⟨e, w.client⟩ :: w.log⟩ := by
  have hk := handles e.answers w.client e.msg
  generalize ho : zbOtaUpgradeStatusHandler e.answers w.client e.msg = o at hk
  rw [step_of_outcome ho]
  cases hk with
  | noData | write => rfl
  | noPartition h | beginOk h | beginFailed h | check h | endFailed h | setBootFailed h | restart h =>
    exact nomatch hr.unique h
  | other _ h => exact absurd hr h

theorem step_start (w : World) {e : Event} (hs : e.msg.Is .start) {p : Partition}
    (hp : e.answers.nextUpdatePartition = some p) (hb : e.answers.beginErr = espOk) :
    step w e = ⟨{ w.client with sOtaPartition := some p, sOtaHandle := e.answers.beginHandle },
      ⟨e, w.client⟩ :: w.log⟩ := by
  rw [step_of_outcome rfl]
  simp [zbOtaUpgradeStatusHandler, hs.1, hs.2, hp, hb]

/-- RECEIVEs add their sizes to what was counted. -/
theorem run_receives_counted {es : List Event} (h : ∀ e ∈ es, e.msg.Is .receive) (w : World) :
    counted (run step w es).log = counted w.log + (es.map (·.msg.payloadSize.toNat)).sum := by
  induction es generalizing w with
  | nil => simp
  | cons e es ih =>
    have hr := h e List.mem_cons_self
    rw [run_cons, ih (fun e' he' => h e' (List.mem_cons_of_mem _ he')), step_receive w hr]
    simp only [counted_cons, Handled.counted, hr, ite_true, List.map_cons, List.sum_cons]
    omega

theorem run_receives_announced {es : List Event} {n : UInt32}
    (h : ∀ e ∈ es, e.msg.Is .receive ∧ e.msg.imageSize = n) {w : World}
    (hn : es ≠ [] ∨ announced w.log = n) : announced (run step w es).log = n := by
  induction es generalizing w with
  | nil => simpa using hn
  | cons e es ih =>
    obtain ⟨hr, hi⟩ := h e List.mem_cons_self
    refine ih (fun e' he' => h e' (List.mem_cons_of_mem _ he')) (.inr ?_)
    rw [step_receive w hr, announced_cons, if_pos hr, hi]

/-- A START that begins, then RECEIVEs that carry, announce and write an image
of `n` bytes. -/
structure CompleteSession (start : Event) (receives : List Event) (n : UInt32) : Prop where
  started : start.msg.Is .start
  partition : start.answers.nextUpdatePartition ≠ none
  begun : start.answers.beginErr = espOk
  nonempty : receives ≠ []
  receive : ∀ e ∈ receives, e.msg.Is .receive ∧ e.msg.imageSize = n
  payload : ∀ e ∈ receives, e.msg.payload ≠ none ∧ e.answers.writeErr = espOk
  sum : (receives.map (·.msg.payloadSize.toNat)).sum = n.toNat

/-- **Recovery.** After any messages, a complete session passes its CHECK if
and only if the payload sizes counted before it, since boot, come to a
multiple of `2^32`. -/
theorem check_after_session_iff (es : List Event) {start : Event} {receives : List Event} {n : UInt32}
    (h : CompleteSession start receives n) (a : Answers) {m : UpgradeValueMessage} (hm : m.Is .check) :
    (zbOtaUpgradeStatusHandler a (run step .boot (es ++ start :: receives)).client m).exit =
        .returned espOk ↔ counted (run step .boot es).log % 2 ^ 32 = 0 := by
  rw [(run_tracks _).check_ok_iff a hm, run_append, run_cons]
  obtain ⟨p, hp⟩ := Option.ne_none_iff_exists'.mp h.partition
  have hnr : ¬ start.msg.Is .receive := fun hr => nomatch h.started.unique hr
  rw [run_receives_counted (fun e he => (h.receive e he).1), h.sum,
    run_receives_announced h.receive (.inl h.nonempty), step_start _ h.started hp h.begun]
  have hn := n.toNat_lt
  simp only [counted_cons, Handled.counted, hnr, ite_false]
  omega

theorem completeSession_one_byte : CompleteSession (startWith 2) [receiveByte 1 9] 1 where
  started := by decide
  partition := by decide
  begun := rfl
  nonempty := by decide
  receive := by simp [receiveByte, UpgradeValueMessage.Is]
  payload := by simp [receiveByte, succeed]
  sum := rfl

/-- A session cut off after one byte of two, then a complete one: CHECK fails. -/
theorem check_fails_after_abort :
    CompleteSession (startWith 2) [receiveByte 1 9] 1 ∧
      (zbOtaUpgradeStatusHandler (succeed 0)
        (run step .boot ([startWith 1, receiveByte 2 7] ++ startWith 2 :: [receiveByte 1 9])).client
        (bare .check)).exit = .returned espFail :=
  ⟨completeSession_one_byte, by decide⟩

theorem completeSession_two_bytes : CompleteSession (startWith 2) [receiveByte 2 8, receiveByte 2 9] 2 where
  started := by decide
  partition := by decide
  begun := rfl
  nonempty := by decide
  receive := by simp [receiveByte, UpgradeValueMessage.Is]
  payload := by simp [receiveByte, succeed]
  sum := rfl

/-- Two sessions of two bytes: one after a session given up at once, one after a session given up half-way. -/
theorem check_after_session_iff_given_up :
    let checked (es : List Event) := (zbOtaUpgradeStatusHandler (succeed 0)
      (run step .boot (es ++ startWith 2 :: [receiveByte 2 8, receiveByte 2 9])).client (bare .check)).exit
    checked [startWith 1] = .returned espOk ∧ checked [startWith 1, receiveByte 2 7] ≠ .returned espOk := by
  have hiff := fun es => check_after_session_iff es completeSession_two_bytes (succeed 0) (m := bare .check) (by decide)
  exact ⟨(hiff [startWith 1]).mpr (by decide), mt (hiff [startWith 1, receiveByte 2 7]).mp (by decide)⟩

/-! ## `esp_ota_set_boot_partition` -/

theorem openedHandle_of_lastStart {log : List Handled} {st : Handled} (h : lastStart log = some st)
    (hb : st.answers.beginErr = espOk) : openedHandle log = st.answers.beginHandle := by
  induction log with
  | nil => simp [lastStart] at h
  | cons k log ih =>
    rw [lastStart_cons] at h
    rw [openedHandle_cons]
    by_cases hk : k.Is .start
    · simp only [hk, ite_true, Option.some.injEq] at h
      subst h
      simp [hk, hb]
    · simp only [hk, ite_false] at h
      simp only [hk, false_and, ite_false]
      exact ih h

/-- Since the latest START: its `esp_ota_begin` succeeded, every RECEIVE was
written through the handle it opened, and a CHECK passed with no RECEIVE
after it. -/
def BootSafe (log : List Handled) : Prop :=
  ∃ st ∈ lastStart log, st.answers.beginErr = espOk ∧
    (∀ r ∈ sinceStart log, r.Is .receive →
      r.outcome.calls = [.otaWrite st.answers.beginHandle r.msg.data espOk]) ∧
    ∃ c ∈ (sinceStart log).takeWhile (¬ ·.Is .receive), c.Is .check ∧ c.outcome.exit = .returned espOk

/-- What the handler leaves to its caller: from the latest START on every
handling returned `ESP_OK`, every RECEIVE carries data, and a CHECK came
after the last of them. -/
structure Heeded (log : List Handled) : Prop where
  started : (lastStart log).isSome
  returned : ∀ r ∈ (lastStart log).toList ++ sinceStart log, r.outcome.exit = .returned espOk
  data : ∀ r ∈ sinceStart log, r.Is .receive → r.msg.data ≠ []
  checked : ∃ c ∈ (sinceStart log).takeWhile (¬ ·.Is .receive), c.Is .check

theorem Handled.begun_of_returned {h : Handled} (hs : h.Is .start)
    (hr : h.outcome.exit = .returned espOk) : h.answers.beginErr = espOk := by
  have hk := handles h.answers h.before h.msg
  unfold Handled.outcome at hr
  generalize zbOtaUpgradeStatusHandler h.answers h.before h.msg = o at hk hr
  cases hk with
  | noPartition => cases hr
  | beginOk _ _ hb => exact hb
  | beginFailed => simpa using hr
  | noData h' | write h' | check h' | endFailed h' | setBootFailed h' | restart h' =>
    exact nomatch hs.unique h'
  | other h' => exact absurd hs h'

/-- A RECEIVE with data writes it, through the handle it finds. -/
theorem Handled.outcome_of_receive {h : Handled} (hr : h.Is .receive) (hd : h.msg.data ≠ []) :
    h.outcome.calls = [.otaWrite h.before.sOtaHandle h.msg.data h.answers.writeErr] ∧
      h.outcome.exit = .returned h.answers.writeErr := by
  have hk := handles h.answers h.before h.msg
  unfold Handled.outcome
  generalize zbOtaUpgradeStatusHandler h.answers h.before h.msg = o at hk
  cases hk with
  | noData _ h' => exact absurd h' hd
  | write => exact ⟨rfl, rfl⟩
  | noPartition h' | beginOk h' | beginFailed h' | check h' | endFailed h' | setBootFailed h' | restart h' =>
    exact nomatch hr.unique h'
  | other _ h' => exact absurd hr h'

/-- A session whose caller heeds every return value is safe to boot. -/
theorem Tracks.bootSafe {w : World} (h : Tracks w) (hc : Heeded w.log) : BootSafe w.log := by
  obtain ⟨st, hst⟩ := Option.isSome_iff_exists.mp hc.started
  have hs : st.Is .start := by simpa [lastStart] using List.find?_some hst
  have hb := Handled.begun_of_returned hs (hc.returned st (by simp [hst]))
  obtain ⟨c, hcm, hck⟩ := hc.checked
  refine ⟨st, hst, hb, fun r hr hrec => ?_, c, hcm, hck, ?_⟩
  · obtain ⟨hcalls, hexit⟩ := Handled.outcome_of_receive hrec (hc.data r hr hrec)
    have hok : r.answers.writeErr = espOk := by
      have := hexit.symm.trans (hc.returned r (by simp [hr]))
      simpa using this
    rw [hcalls, hok, h.held r hr, h.handle, openedHandle_of_lastStart hst hb]
  · exact hc.returned c (List.mem_append_right _ ((List.takeWhile_sublist _).subset hcm))

/-- **Boot.** After any messages, the handler calls `esp_ota_set_boot_partition`
only in a FINISH, once `esp_ota_end` succeeded on the handle of the latest
`esp_ota_begin` that succeeded, for the partition the latest START chose; and
a session whose caller heeded every return value is safe to boot. -/
theorem setBoot_cases (es : List Event) (e : Event) (p : Option Partition) (err : EspErr) :
    let w := run step .boot es
    .setBootPartition p err ∈ (zbOtaUpgradeStatusHandler e.answers w.client e.msg).calls →
      e.msg.Is .finish ∧ p = chosenPartition w.log ∧
      (zbOtaUpgradeStatusHandler e.answers w.client e.msg).calls =
        [.otaEnd (openedHandle w.log) espOk, .setBootPartition p err] ∧
      (Heeded w.log → BootSafe w.log) := by
  intro w hmem
  have ht : Tracks w := run_tracks es
  have hk := handles e.answers w.client e.msg
  generalize zbOtaUpgradeStatusHandler e.answers w.client e.msg = o at hk hmem ⊢
  rw [← ht.handle, ← ht.partition]
  cases hk with
  | setBootFailed hf | restart hf =>
    simp only [List.mem_cons, reduceCtorEq, Call.setBootPartition.injEq, List.not_mem_nil, or_false,
      false_or] at hmem
    obtain ⟨rfl, rfl⟩ := hmem
    exact ⟨hf, rfl, rfl, ht.bootSafe⟩
  | _ => simp at hmem

/-- One byte of two, a CHECK that fails, and FINISH sets the boot partition. -/
theorem setBoot_after_failed_check :
    let w := run step .boot [startWith 1, receiveByte 2 7, ⟨succeed 0, bare .check⟩]
    .setBootPartition (succeed 1).nextUpdatePartition espOk ∈
        (zbOtaUpgradeStatusHandler (succeed 0) w.client (bare .finish)).calls ∧ ¬ BootSafe w.log := by
  refine ⟨by decide, ?_⟩
  rintro ⟨st, -, -, -, c, hc, -, hok⟩
  have hfail : ∀ k ∈ (sinceStart (run step .boot [startWith 1, receiveByte 2 7,
      ⟨succeed 0, bare .check⟩]).log).takeWhile (¬ ·.Is .receive), k.outcome.exit ≠ .returned espOk := by
    decide
  exact hfail c hc hok

theorem setBoot_cases_one_byte :
    let w := run step .boot [startWith 1, receiveByte 1 7, ⟨succeed 0, bare .check⟩]
    (zbOtaUpgradeStatusHandler (succeed 0) w.client (bare .finish)).calls =
        [.otaEnd (openedHandle w.log) espOk, .setBootPartition (succeed 1).nextUpdatePartition espOk] ∧
      Heeded w.log ∧ BootSafe w.log :=
  have h := setBoot_cases [startWith 1, receiveByte 1 7, ⟨succeed 0, bare .check⟩]
    ⟨succeed 0, bare .finish⟩ (succeed 1).nextUpdatePartition espOk (by decide)
  have hc : Heeded (run step .boot [startWith 1, receiveByte 1 7, ⟨succeed 0, bare .check⟩]).log :=
    ⟨by decide, by decide, by decide, by decide⟩
  ⟨h.2.2.1, hc, h.2.2.2 hc⟩

end EspOta.Zigbee.ClientRuns
