/-
The OTA handles of the Zigbee client over whole runs: which are open, and
which the handler writes to and ends.

The handler opens a handle in a START and closes one in a FINISH; nothing
else does either, and no variable says whether the handle it keeps is open.
So a START that follows another with no FINISH between them leaks
(`one_open_iff`), and a message after a START that failed uses the handle of
an earlier one (`uses_latest_iff`).
-/
import EspOta.Zigbee.ClientRuns

namespace EspOta.Zigbee.ClientRuns

open Lib

/-! ## Open handles -/

/-- The handles open after a call. `esp_ota_end` closes its handle whatever it returns. -/
def openAfter (hs : List OtaHandle) : Call → List OtaHandle
  | .otaBegin _ err handle => if err = espOk then handle :: hs else hs
  | .otaEnd handle _ => hs.erase handle
  | .otaWrite _ _ _ | .setBootPartition _ _ => hs

/-- The handles open after all that was handled since boot. -/
def openHandles : List Handled → List OtaHandle
  | [] => []
  | h :: log => h.outcome.calls.foldl openAfter (openHandles log)

/-- The handle a call writes to or ends. -/
def usedHandle : Call → Option OtaHandle
  | .otaWrite handle _ _ | .otaEnd handle _ => some handle
  | .otaBegin _ _ _ | .setBootPartition _ _ => none

/-- A START has opened a handle since the last FINISH. -/
def Pending (log : List Handled) : Prop :=
  ∃ h ∈ log.takeWhile (¬ ·.Is .finish), h.Is .start ∧ h.answers.beginErr = espOk

instance (log : List Handled) : Decidable (Pending log) := inferInstanceAs (Decidable (∃ _ ∈ _, _))

/-- The handle the latest START opened, if it opened one. -/
def latestHandle (log : List Handled) : Option OtaHandle :=
  (lastStart log).bind fun st => if st.answers.beginErr = espOk then some st.answers.beginHandle else none

/-- A START that opens a handle. -/
def Event.Opens (e : Event) : Prop :=
  e.msg.Is .start ∧ e.answers.nextUpdatePartition ≠ none ∧ e.answers.beginErr = espOk

/-- A message that writes to the handle or ends it: a RECEIVE with data, or a FINISH. -/
def Event.Uses (e : Event) : Prop := e.msg.Is .receive ∧ e.msg.data ≠ [] ∨ e.msg.Is .finish

theorem pending_cons (h : Handled) (log : List Handled) :
    Pending (h :: log) ↔ ¬ h.Is .finish ∧ ((h.Is .start ∧ h.answers.beginErr = espOk) ∨ Pending log) := by
  by_cases hf : h.Is .finish
  · simp [Pending, hf]
  · simp [Pending, hf]

theorem latestHandle_cons (h : Handled) (log : List Handled) :
    latestHandle (h :: log) =
      if h.Is .start then if h.answers.beginErr = espOk then some h.answers.beginHandle else none
      else latestHandle log := by
  by_cases hs : h.Is .start <;> simp [latestHandle, lastStart_cons, hs]

theorem openedHandle_of_latest {log : List Handled} {handle : OtaHandle} (h : latestHandle log = some handle) :
    openedHandle log = handle := by
  induction log with
  | nil => cases h
  | cons k log ih =>
    rw [latestHandle_cons] at h
    rw [openedHandle_cons]
    by_cases hs : k.Is .start
    · rw [if_pos hs] at h
      by_cases hb : k.answers.beginErr = espOk
      · rw [if_pos hb] at h
        rw [if_pos ⟨hs, hb⟩]
        exact Option.some.inj h
      · rw [if_neg hb] at h
        cases h
    · rw [if_neg hs] at h
      rw [if_neg fun hboth => hs hboth.1]
      exact ih h

/-! ## One handling -/

/-- The calls of a handling. -/
def callsOf (w : World) (e : Event) : List Call := (zbOtaUpgradeStatusHandler e.answers w.client e.msg).calls

/-- However many of its calls a handling has made, at most one handle is open. -/
def OneOpen (w : World) (e : Event) : Prop :=
  ∀ cs, cs <+: callsOf w e → (cs.foldl openAfter (openHandles w.log)).length ≤ 1

/-- A START opens a handle only when none is pending. -/
def StartsClosed (w : World) (e : Event) : Prop := e.Opens → ¬ Pending w.log

/-- A handling writes to and ends the handle the latest START opened, and no other. -/
def UsesLatest (w : World) (e : Event) : Prop :=
  ∀ c ∈ callsOf w e, ∀ handle, usedHandle c = some handle → latestHandle w.log = some handle

/-- When something is written or ended, there is a latest START and it opened a handle. -/
def LatestOpened (w : World) (e : Event) : Prop := e.Uses → latestHandle w.log ≠ none

/-- A handling writes to and ends the handle of the latest START that opened one. -/
def UsesOpened (w : World) (e : Event) : Prop :=
  ∀ c ∈ callsOf w e, ∀ handle, usedHandle c = some handle → handle = openedHandle w.log

theorem used_of_mem {w : World} {e : Event} {c : Call} (hc : c ∈ callsOf w e) {handle : OtaHandle}
    (hu : usedHandle c = some handle) : e.Uses ∧ handle = w.client.sOtaHandle := by
  have hk := handles e.answers w.client e.msg
  unfold callsOf at hc
  generalize zbOtaUpgradeStatusHandler e.answers w.client e.msg = o at hk hc
  cases hk with
  | noPartition | noData | check | other => cases hc
  | beginOk | beginFailed =>
    rw [List.mem_singleton.mp hc] at hu
    cases hu
  | write hr hd =>
    rw [List.mem_singleton.mp hc] at hu
    exact ⟨.inl ⟨hr, hd⟩, (Option.some.inj hu).symm⟩
  | endFailed hf =>
    rw [List.mem_singleton.mp hc] at hu
    exact ⟨.inr hf, (Option.some.inj hu).symm⟩
  | setBootFailed hf | restart hf =>
    rcases List.mem_pair.mp hc with rfl | rfl
    · exact ⟨.inr hf, (Option.some.inj hu).symm⟩
    · cases hu

theorem mem_of_uses {w : World} {e : Event} (h : e.Uses) :
    ∃ c ∈ callsOf w e, usedHandle c = some w.client.sOtaHandle := by
  have hk := handles e.answers w.client e.msg
  unfold callsOf
  generalize zbOtaUpgradeStatusHandler e.answers w.client e.msg = o at hk
  cases hk with
  | write | endFailed | setBootFailed | restart => exact ⟨_, List.mem_cons_self, rfl⟩
  | noPartition hs | beginOk hs | beginFailed hs =>
    rcases h with h | h
    · exact nomatch hs.unique h.1
    · exact nomatch hs.unique h
  | noData hr hd =>
    rcases h with h | h
    · exact absurd hd h.2
    · exact nomatch hr.unique h
  | check hc =>
    rcases h with h | h
    · exact nomatch hc.unique h.1
    · exact nomatch hc.unique h
  | other _ hr _ hf =>
    rcases h with h | h
    · exact absurd h.1 hr
    · exact absurd h hf

theorem Tracks.usesOpened {w : World} (h : Tracks w) (e : Event) : UsesOpened w e := by
  intro c hc handle hu
  rw [(used_of_mem hc hu).2, h.handle]

theorem Tracks.usesLatest_iff {w : World} (h : Tracks w) (e : Event) : UsesLatest w e ↔ LatestOpened w e := by
  constructor
  · intro huses hu hnone
    obtain ⟨c, hc, hused⟩ := mem_of_uses (w := w) hu
    rw [huses c hc _ hused] at hnone
    cases hnone
  · intro hopened c hc handle hu
    obtain ⟨huses, rfl⟩ := used_of_mem hc hu
    obtain ⟨handle, hlatest⟩ := Option.ne_none_iff_exists'.mp (hopened huses)
    rw [hlatest, h.handle, openedHandle_of_latest hlatest]

/-! ## The number of open handles -/

/-- Calls that open nothing leave no more handles open. -/
theorem length_openAfter_le (cs : List Call) (hs : List OtaHandle)
    (h : ∀ p handle, .otaBegin p espOk handle ∉ cs) : (cs.foldl openAfter hs).length ≤ hs.length := by
  induction cs generalizing hs with
  | nil => exact Nat.le_refl _
  | cons c cs ih =>
    have htail : ∀ p handle, .otaBegin p espOk handle ∉ cs :=
      fun p handle hmem => h p handle (List.mem_cons_of_mem c hmem)
    have hhead : (openAfter hs c).length ≤ hs.length := by
      cases c with
      | otaBegin p err handle =>
        have herr : err ≠ espOk := by
          intro heq
          exact h p handle (heq ▸ List.mem_cons_self)
        rw [openAfter, if_neg herr]
      | otaEnd handle err => exact List.length_erase_le
      | otaWrite | setBootPartition => exact Nat.le_refl _
    exact Nat.le_trans (ih _ htail) hhead

theorem opens_of_mem {w : World} {e : Event} {p : Partition} {handle : OtaHandle}
    (h : .otaBegin p espOk handle ∈ callsOf w e) : e.Opens := by
  have hk := handles e.answers w.client e.msg
  unfold callsOf at h
  generalize zbOtaUpgradeStatusHandler e.answers w.client e.msg = o at hk h
  cases hk with
  | beginOk hs hp hb => exact ⟨hs, by rw [hp]; exact Option.some_ne_none _, hb⟩
  | beginFailed hs hp hb =>
    have herr := (Call.otaBegin.inj (List.mem_singleton.mp h)).2.1
    exact absurd herr.symm hb
  | noPartition | noData | check | other => cases h
  | write | endFailed => cases List.mem_singleton.mp h
  | setBootFailed | restart => rcases List.mem_pair.mp h with h | h <;> cases h

theorem callsOf_opens {w : World} {e : Event} (h : e.Opens) :
    ∃ p, callsOf w e = [.otaBegin p espOk e.answers.beginHandle] := by
  obtain ⟨hs, hp, hb⟩ := h
  obtain ⟨p, hp⟩ := Option.ne_none_iff_exists'.mp hp
  exact ⟨p, by simp [callsOf, zbOtaUpgradeStatusHandler, hs.1, hs.2, hp, hb]⟩

/-- The handle the handler keeps, while it is pending. -/
def pendingHandles (log : List Handled) : List OtaHandle := if Pending log then [openedHandle log] else []

theorem pendingHandles_opened {h : Handled} {log : List Handled} (hs : h.Is .start)
    (hb : h.answers.beginErr = espOk) : pendingHandles (h :: log) = [h.answers.beginHandle] := by
  have hf : ¬ h.Is .finish := fun hf => nomatch hs.unique hf
  simp [pendingHandles, pending_cons, openedHandle_cons, hs, hb, hf]

theorem pendingHandles_finished {h : Handled} {log : List Handled} (hf : h.Is .finish) :
    pendingHandles (h :: log) = [] := by
  simp [pendingHandles, pending_cons, hf]

theorem pendingHandles_kept {h : Handled} {log : List Handled} (hf : ¬ h.Is .finish)
    (hs : ¬ (h.Is .start ∧ h.answers.beginErr = espOk)) : pendingHandles (h :: log) = pendingHandles log := by
  simp [pendingHandles, pending_cons, openedHandle_cons, hs, hf]

/-- As long as no two handles have been open at once. -/
structure OnlyPending (w : World) : Prop where
  tracks : Tracks w
  opened : openHandles w.log = pendingHandles w.log

theorem OnlyPending.boot : OnlyPending .boot := ⟨.boot, rfl⟩

theorem OnlyPending.oneOpen_iff {w : World} (h : OnlyPending w) (e : Event) :
    OneOpen w e ↔ StartsClosed w e := by
  constructor
  · intro hone hopens hpending
    obtain ⟨p, hcalls⟩ := callsOf_opens (w := w) hopens
    have hlen := hone (callsOf w e) (List.prefix_refl _)
    rw [hcalls, h.opened, pendingHandles, if_pos hpending] at hlen
    simp [openAfter] at hlen
  · intro hclosed cs hcs
    have hbefore : (openHandles w.log).length ≤ 1 := by
      rw [h.opened, pendingHandles]
      split <;> simp
    by_cases hopens : e.Opens
    · obtain ⟨p, hcalls⟩ := callsOf_opens (w := w) hopens
      rw [h.opened, pendingHandles, if_neg (hclosed hopens)]
      rw [hcalls] at hcs
      rcases List.prefix_cons_iff.mp hcs with rfl | ⟨ds, rfl, hds⟩
      · exact Nat.zero_le 1
      · rw [List.prefix_nil.mp hds]
        exact Nat.le_refl 1
    · have hnone : ∀ p handle, .otaBegin p espOk handle ∉ cs :=
        fun p handle hmem => hopens (opens_of_mem (hcs.subset hmem))
      exact Nat.le_trans (length_openAfter_le cs _ hnone) hbefore

theorem OnlyPending.erase {w : World} (h : OnlyPending w) :
    (openHandles w.log).erase w.client.sOtaHandle = [] := by
  rw [h.opened, h.tracks.handle, pendingHandles]
  split <;> simp

theorem OnlyPending.step {w : World} (h : OnlyPending w) {e : Event} (hclosed : StartsClosed w e) :
    OnlyPending (step w e) := by
  refine ⟨h.tracks.step e, ?_⟩
  have hk := handles e.answers w.client e.msg
  generalize ho : zbOtaUpgradeStatusHandler e.answers w.client e.msg = o at hk
  have hopen : openHandles (⟨e, w.client⟩ :: w.log) = o.calls.foldl openAfter (openHandles w.log) := by
    rw [← ho]; rfl
  rw [step_of_outcome ho]
  cases hk with
  | noPartition | restart => rfl
  | beginOk hs hp hb =>
    have hnone : ¬ Pending w.log := hclosed ⟨hs, by rw [hp]; exact Option.some_ne_none _, hb⟩
    rw [pendingHandles_opened hs hb, hopen, h.opened, pendingHandles, if_neg hnone]
    rfl
  | beginFailed hs _ hb =>
    have hf : ¬ e.msg.Is .finish := fun hf => nomatch hs.unique hf
    rw [pendingHandles_kept hf fun hboth => hb hboth.2, hopen, ← h.opened]
    exact if_neg hb
  | noData hr | write hr =>
    have hf : ¬ e.msg.Is .finish := fun hf => nomatch hr.unique hf
    have hs : ¬ e.msg.Is .start := fun hs => nomatch hr.unique hs
    rw [pendingHandles_kept hf fun hboth => hs hboth.1, hopen, ← h.opened]
    rfl
  | check hc =>
    have hf : ¬ e.msg.Is .finish := fun hf => nomatch hc.unique hf
    have hs : ¬ e.msg.Is .start := fun hs => nomatch hc.unique hs
    rw [pendingHandles_kept hf fun hboth => hs hboth.1, hopen, ← h.opened]
    rfl
  | endFailed hf | setBootFailed hf =>
    rw [pendingHandles_finished hf, hopen]
    exact h.erase
  | other hs _ _ hf =>
    rw [pendingHandles_kept hf fun hboth => hs hboth.1, hopen, ← h.opened]
    rfl

/-- **At most one handle is open** throughout a run exactly when each START that opens one finds none pending. -/
theorem one_open_iff (es : List Event) : Meets step OneOpen .boot es ↔ Meets step StartsClosed .boot es := by
  refine meets_congr OnlyPending ?_ (fun w e h => h.oneOpen_iff e) .boot es
  intro w e h hone
  exact h.step ((h.oneOpen_iff e).mp hone)

/-- **What is written and ended** is the handle of the latest START exactly when that START opened one. -/
theorem uses_latest_iff (es : List Event) : Meets step UsesLatest .boot es ↔ Meets step LatestOpened .boot es :=
  meets_congr Tracks (fun _ e h _ => h.step e) (fun _ e h => h.usesLatest_iff e) .boot es

/-- It is always the handle of the latest START that opened one. -/
theorem uses_opened (es : List Event) : Meets step UsesOpened .boot es :=
  meets_of_invariant Tracks (fun _ e h => h.step e) (fun _ e h => h.usesOpened e) .boot es

/-- **The life of the handles.** No two are open at once exactly when every START that opens one finds none
pending; what is written and ended is the handle of the latest START that opened one, and of the latest START
exactly when, each time, that START opened one. -/
theorem handle_life (es : List Event) :
    (Meets step OneOpen .boot es ↔ Meets step StartsClosed .boot es) ∧ Meets step UsesOpened .boot es ∧
      (Meets step UsesLatest .boot es ↔ Meets step LatestOpened .boot es) :=
  ⟨one_open_iff es, uses_opened es, uses_latest_iff es⟩

/-- A START after a START leaves two handles open; a RECEIVE after a START that fails is written to the
handle of the one before. -/
theorem two_handles_open :
    openHandles (run step .boot [startWith 1, startWith 2]).log = [2, 1] ∧
      ¬ Meets step OneOpen .boot [startWith 1, startWith 2] ∧
      ¬ Meets step UsesLatest .boot
        [startWith 1, ⟨{ succeed 2 with beginErr := espFail }, bare .start⟩, receiveByte 1 7] := by
  refine ⟨by decide, ?_, ?_⟩
  · intro h
    have hlen := h.2.1 _ (List.prefix_refl _)
    revert hlen
    decide
  · intro h
    have huses := h.2.2.1 (.otaWrite 1 [7] espOk) (by decide) 1 rfl
    revert huses
    decide

end EspOta.Zigbee.ClientRuns
