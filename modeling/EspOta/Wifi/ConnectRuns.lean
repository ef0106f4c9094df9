/-
What a call of `wifi_sta_do_connect` that waits says about the events since
it started. The ledger beside the two tasks records them; no statement reads
it.

The code is told apart from a truthful one by what it does not check, and
`connect_truthful` is about the runs without it: an interface whose
description agrees with `netif_sta` in all but its last byte is taken for
the station's, any interface's GOT_IP clears the count of an attempt given
up, and so does a new call, a GOT_IP may find its handler not registered yet,
and the count may overflow.
-/
import EspOta.Wifi.Connect

namespace EspOta.Wifi

open Lib

/-- The events since the call started: whether the station got an address, the disconnections in a row since
then, or the start, and the longest such row. -/
structure Ledger where
  ours : Bool
  row : Nat
  longest : Nat
  deriving DecidableEq, Repr

def Ledger.record (l : Ledger) : WifiAction → Ledger
  | .disconnected => ⟨l.ours, l.row + 1, max l.longest (l.row + 1)⟩
  | .gotIp desc => if desc = netifDescSta then ⟨true, 0, l.longest⟩ else l
  | _ => l

/-- Its next statement gives the semaphore. -/
def Handler.gives : Handler → Bool
  | .givingUp => true
  | .gotIp desc => isOurNetif netifDescSta desc
  | _ => false

/-- The call has cleared the count, and not returned. -/
def Caller.Counting (c : Caller) : Prop := c ∈ [.cleared, .watching, .registered, .configured, .waiting, .taken]

instance (c : Caller) : Decidable c.Counting :=
  inferInstanceAs (Decidable (c ∈ [Caller.cleared, .watching, .registered, .configured, .waiting, .taken]))

structure ConnectRun where
  sta : Sta
  ledger : Ledger
  deriving DecidableEq, Repr

namespace ConnectRun

/-- The call starts in any state of the static variables. -/
def start (s : Sta) : ConnectRun := ⟨{ s with caller := .entered }, ⟨false, 0, 0⟩⟩

/-- An action that cannot happen in a state leaves it as it is. -/
def step (max : Int32) (w : ConnectRun) (a : WifiAction) : ConnectRun :=
  match w.sta.step? max true a with
  | some s => ⟨s, w.ledger.record a⟩
  | none => w

/-- If it is the call's `esp_wifi_connect`, it succeeds. -/
def Connects : WifiAction → Prop
  | .caller (.connect err) => err = espOk
  | _ => True

instance (a : WifiAction) : Decidable (Connects a) := by
  unfold Connects; split <;> infer_instance

/-- The event is none of those the code confuses. Another interface's GOT_IP is one until the station has got an
address; a handler at work, or a semaphore already given, when the count is cleared. -/
def Clean (max : Int32) (w : ConnectRun) : WifiAction → Prop
  | .disconnected => w.sta.caller.Counting → w.sta.onDisconnect = true → w.sta.retryNum.toInt + 1 < 2 ^ 31
  | .gotIp desc =>
    if desc = netifDescSta then w.sta.caller.Counting → w.sta.onGotIp = true ∨ w.sta.retryNum = 0
    else w.sta.caller.Counting → w.sta.onGotIp = true → w.ledger.ours = true ∨
      (isOurNetif netifDescSta desc = false ∧ w.sta.retryNum ≤ max)
  | .caller .clearRetryNum =>
    w.ledger.ours = true ∨ (w.sta.semaphore ≠ some true ∧ w.sta.handler.gives = false)
  | _ => True

instance (max : Int32) (w : ConnectRun) (a : WifiAction) : Decidable (Clean max w a) := by
  unfold Clean; split <;> infer_instance

/-! ## The invariant -/

structure Truthful (max : Int32) (w : ConnectRun) : Prop where
  /-- While the station has no address, the semaphore is given only when the limit is exceeded. -/
  given : w.sta.caller.Counting → w.ledger.ours = false →
    w.sta.semaphore = some true ∨ w.sta.caller = .taken ∨ w.sta.handler.gives = true → max < w.sta.retryNum
  count : w.sta.caller.Counting → 0 ≤ w.sta.retryNum.toInt ∧ w.sta.retryNum.toInt ≤ w.ledger.row
  longest : w.ledger.row ≤ w.ledger.longest
  ok : w.sta.caller = .returned espOk → w.ledger.ours = true
  fail : w.sta.caller = .returned espFail → max.toInt < w.ledger.longest

theorem Truthful.start (max : Int32) (s : Sta) : Truthful max (.start s) where
  given h := by simp [Caller.Counting, ConnectRun.start] at h
  count h := by simp [Caller.Counting, ConnectRun.start] at h
  longest := Nat.le_refl 0
  ok := nofun
  fail := nofun

theorem toInt_succ {n : Int32} (h0 : 0 ≤ n.toInt) (h : n.toInt + 1 < 2 ^ 31) : (n + 1).toInt = n.toInt + 1 := by
  rw [Int32.toInt_add, show (1 : Int32).toInt = 1 from rfl]
  exact Int.bmod_eq_of_le (by omega) (by omega)

/-! ## One step -/

section
variable {max : Int32} {w : ConnectRun}

/-- A step of either task that leaves the ledger as it is, and the caller on the same side of its wait. -/
theorem Truthful.frame (h : Truthful max w) {s : Sta}
    (hc : s.caller.Counting → w.sta.caller.Counting) (hn : s.retryNum = w.sta.retryNum)
    (hg : s.semaphore = some true ∨ s.caller = .taken ∨ s.handler.gives = true →
      w.ledger.ours = true ∨ max < w.sta.retryNum ∨
        w.sta.semaphore = some true ∨ w.sta.caller = .taken ∨ w.sta.handler.gives = true)
    (ho : s.caller = .returned espOk → w.ledger.ours = true)
    (hf : s.caller = .returned espFail → max.toInt < w.ledger.longest) : Truthful max ⟨s, w.ledger⟩ where
  given hcount hours hgive := by
    rw [hn]
    rcases hg hgive with hours' | hlt | hgive
    · rw [hours] at hours'; cases hours'
    · exact hlt
    · exact h.given (hc hcount) hours hgive
  count hcount := by rw [hn]; exact h.count (hc hcount)
  longest := h.longest
  ok := ho
  fail := hf

theorem Truthful.disconnected (h : Truthful max w)
    (hcl : w.sta.caller.Counting → w.sta.retryNum.toInt + 1 < 2 ^ 31) :
    Truthful max ⟨{ w.sta with retryNum := w.sta.retryNum + 1, handler := .disconnected },
      w.ledger.record .disconnected⟩ where
  given hc hours hgive := by
    have hlt : max < w.sta.retryNum := by
      refine h.given hc hours ?_
      rcases hgive with hgive | hgive | hgive
      · exact .inl hgive
      · exact .inr (.inl hgive)
      · cases hgive
    rw [Int32.lt_iff_toInt_lt] at hlt ⊢
    rw [toInt_succ (h.count hc).1 (hcl hc)]
    omega
  count hc := by
    obtain ⟨h0, hle⟩ := h.count hc
    rw [toInt_succ h0 (hcl hc)]
    simp only [Ledger.record]
    omega
  longest := Nat.le_max_right ..
  ok hr := h.ok hr
  fail hr := by
    have := h.fail hr
    simp only [Ledger.record]
    omega

theorem zero_counts (row : Nat) : 0 ≤ (0 : Int32).toInt ∧ (0 : Int32).toInt ≤ row :=
  ⟨Int.le_refl 0, Int.natCast_nonneg row⟩

theorem Truthful.gotIp (h : Truthful max w) {desc : CString}
    (hcl : desc ≠ netifDescSta → w.sta.caller.Counting → w.ledger.ours = true ∨
      (isOurNetif netifDescSta desc = false ∧ w.sta.retryNum ≤ max)) :
    Truthful max ⟨{ w.sta with retryNum := 0, handler := .gotIp desc }, w.ledger.record (.gotIp desc)⟩ := by
  by_cases hd : desc = netifDescSta
  · have hl : w.ledger.record (.gotIp desc) = ⟨true, 0, w.ledger.longest⟩ := if_pos hd
    rw [hl]
    exact {
      given := nofun
      count := fun _ => zero_counts 0
      longest := Nat.zero_le _
      ok := fun _ => rfl
      fail := h.fail }
  · have hl : w.ledger.record (.gotIp desc) = w.ledger := if_neg hd
    rw [hl]
    refine { given := ?_, count := ?_, longest := h.longest, ok := h.ok, fail := h.fail }
    · intro hc hours hgive
      rcases hcl hd hc with hours' | ⟨hother, hle⟩
      · rw [hours] at hours'; cases hours'
      · have hlt : max < w.sta.retryNum := by
          refine h.given hc hours ?_
          rcases hgive with hgive | hgive | hgive
          · exact .inl hgive
          · exact .inr (.inl hgive)
          · rw [Handler.gives, hother] at hgive; cases hgive
        exact absurd hle (Int32.not_le.mpr hlt)
    · intro _
      exact zero_counts w.ledger.row

/-- An event whose handler is not registered. -/
theorem Truthful.unseen (h : Truthful max w) {a : WifiAction}
    (hcl : Clean max w a) (hu : (a = .disconnected ∧ w.sta.onDisconnect = false) ∨
      ∃ desc, a = .gotIp desc ∧ w.sta.onGotIp = false) : Truthful max ⟨w.sta, w.ledger.record a⟩ := by
  rcases hu with ⟨rfl, -⟩ | ⟨desc, rfl, hreg⟩
  · refine { given := h.given, count := ?_, longest := Nat.le_max_right .., ok := h.ok, fail := ?_ }
    · intro hc
      have := h.count hc
      simp only [Ledger.record]
      omega
    · intro hr
      have := h.fail hr
      simp only [Ledger.record]
      omega
  · by_cases hd : desc = netifDescSta
    · have hl : w.ledger.record (.gotIp desc) = ⟨true, 0, w.ledger.longest⟩ := if_pos hd
      rw [hl]
      refine { given := nofun, count := ?_, longest := Nat.zero_le _, ok := fun _ => rfl, fail := h.fail }
      intro hc
      have h0 : w.sta.retryNum = 0 := by
        simpa [Clean, hd, hc, hreg] using hcl
      rw [h0]
      exact zero_counts 0
    · have hl : w.ledger.record (.gotIp desc) = w.ledger := if_neg hd
      rw [hl]
      exact h

theorem record_longest {l : Ledger} (h : l.row ≤ l.longest) (a : WifiAction) :
    (l.record a).row ≤ (l.record a).longest := by
  unfold Ledger.record
  split
  · exact Nat.le_max_right ..
  · split
    · exact Nat.zero_le _
    · exact h
  · exact h

/-- A step to a place where the call has not cleared the count, or has returned. -/
theorem Truthful.outside (h : Truthful max w) {a : WifiAction} {s : Sta}
    (c : Caller) (hs : s.caller = c) (hc : ¬ c.Counting)
    (ho : c = .returned espOk → (w.ledger.record a).ours = true)
    (hf : c = .returned espFail → max.toInt < (w.ledger.record a).longest) :
    Truthful max ⟨s, w.ledger.record a⟩ where
  given hcount := absurd (hs ▸ hcount) hc
  count hcount := absurd (hs ▸ hcount) hc
  longest := record_longest h.longest a
  ok hr := ho (hs ▸ hr)
  fail hr := hf (hs ▸ hr)

/-- A statement of the call between the count cleared and the semaphore taken. -/
theorem Truthful.advance (h : Truthful max w) {s : Sta} (c c' : Caller)
    (hw : w.sta.caller = c) (hs : s.caller = c') (hc : c.Counting ∧ c'.Counting ∧ c' ≠ .taken)
    (hn : s.retryNum = w.sta.retryNum) (hsem : s.semaphore = w.sta.semaphore)
    (hh : s.handler = w.sta.handler) : Truthful max ⟨s, w.ledger⟩ := by
  obtain ⟨hcount, hcount', htaken⟩ := hc
  refine h.frame (fun _ => hw ▸ hcount) hn ?_ ?_ ?_
  · intro hgive
    rcases hgive with hgive | hgive | hgive
    · exact .inr (.inr (.inl (hsem ▸ hgive)))
    · exact absurd (hs ▸ hgive) htaken
    · exact .inr (.inr (.inr (.inr (hh ▸ hgive))))
  · intro hr
    rw [← hs, hr] at hcount'
    exact absurd hcount' (by decide)
  · intro hr
    rw [← hs, hr] at hcount'
    exact absurd hcount' (by decide)

/-- A handler that ends without giving the semaphore. -/
theorem Truthful.ended (h : Truthful max w) (connects : List ConnectCall) :
    Truthful max ⟨{ w.sta with handler := .idle, connects }, w.ledger⟩ := by
  refine h.frame id rfl ?_ h.ok h.fail
  intro hgive
  rcases hgive with hgive | htaken | hgive
  · exact .inr (.inr (.inl hgive))
  · exact .inr (.inr (.inr (.inl htaken)))
  · cases hgive

/-- A handler that gives the semaphore. -/
theorem Truthful.gave (h : Truthful max w) (hg : w.sta.handler.gives = true) :
    Truthful max ⟨Sta.give { w.sta with handler := .idle }, w.ledger⟩ :=
  h.frame id rfl (fun _ => .inr (.inr (.inr (.inr hg)))) h.ok h.fail

theorem Truthful.cleared (h : Truthful max w)
    (hcl : w.ledger.ours = true ∨ (w.sta.semaphore ≠ some true ∧ w.sta.handler.gives = false)) :
    Truthful max ⟨{ w.sta with retryNum := 0, caller := .cleared }, w.ledger⟩ where
  given _ hours hgive := by
    rcases hcl with hours' | ⟨hsem, hquiet⟩
    · rw [hours] at hours'; cases hours'
    · rcases hgive with hgive | htaken | hgive
      · exact absurd hgive hsem
      · cases htaken
      · rw [hquiet] at hgive; cases hgive
  count _ := zero_counts w.ledger.row
  longest := h.longest
  ok := nofun
  fail := nofun

theorem Truthful.failed (h : Truthful max w) (hs : w.sta.caller = .taken)
    (hlt : max < w.sta.retryNum) : max.toInt < w.ledger.longest := by
  have hcount := h.count (hs ▸ by decide)
  have hlongest := h.longest
  rw [Int32.lt_iff_toInt_lt] at hlt
  omega

theorem Truthful.succeeded (h : Truthful max w) (hs : w.sta.caller = .taken)
    (hle : w.sta.retryNum ≤ max) : w.ledger.ours = true := by
  by_contra hours
  have hlt := h.given (hs ▸ by decide) (eq_false_of_ne_true hours) (.inr (.inl hs))
  exact absurd hle (Int32.not_le.mpr hlt)

theorem Truthful.sees (h : Truthful max w) {a : WifiAction} (hcl : Clean max w a) {s : Sta} (hs : w.sta.Sees a s) :
    Truthful max ⟨s, w.ledger.record a⟩ := by
  cases hs with
  | unseen _ hu => exact h.unseen hcl hu
  | counted hi hreg => exact h.disconnected (by simpa [Clean, hreg] using hcl)
  | reset desc hi hreg => exact h.gotIp fun hd => by simpa [Clean, hd, hreg] using hcl

theorem Truthful.handles (h : Truthful max w) {err : EspErr} {s : Sta} (hs : w.sta.Handles max err s) :
    Truthful max ⟨s, w.ledger⟩ := by
  cases hs with
  | exceeded hh hlt => exact h.frame id rfl (fun _ => .inr (.inl hlt)) h.ok h.fail
  | reconnected hh hle he => exact h.ended _
  | aborted => exact h.outside (a := .handler err) .aborted rfl (by decide) (by simp) (by simp)
  | gaveUp hh => exact h.gave (hh ▸ rfl)
  | gotOurs desc hh hours => exact h.gave (hh ▸ hours)
  | gotOther desc hh hother => exact h.ended w.sta.connects

theorem Truthful.calls (h : Truthful max w) {statement : Statement} (hc : Connects (.caller statement))
    (hcl : Clean max w (.caller statement)) {s : Sta} (hs : w.sta.Calls max true statement s) :
    Truthful max ⟨s, w.ledger⟩ := by
  have hledger : w.ledger.record (.caller statement) = w.ledger := rfl
  rw [← hledger]
  cases hs with
  | created hw => exact h.outside .created rfl (by decide) (by simp) (by simp)
  | notCreated hw =>
    exact h.outside (.returned espErrNoMem) rfl (by decide) (absurd · (by decide)) (absurd · (by decide))
  | cleared hw => exact h.cleared hcl
  | watching hw => exact h.advance .cleared .watching hw rfl (by decide) rfl rfl rfl
  | registered hw => exact h.advance .watching .registered hw rfl (by decide) rfl rfl rfl
  | configured hw => exact h.advance .registered .configured hw rfl (by decide) rfl rfl rfl
  | connected hw => exact h.advance .configured .waiting hw rfl (by decide) rfl rfl rfl
  | notConnected err hw he => exact absurd hc he
  | taken hw hgive =>
    exact h.frame (fun _ => hw ▸ (by decide : Caller.waiting.Counting)) rfl (fun _ => .inr (.inr (.inl hgive)))
      (by simp) (by simp)
  | read hw =>
    split
    · exact h.outside (.returned espFail) rfl (by decide) (absurd · (by decide)) fun _ => h.failed hw ‹_›
    · exact h.outside (.returned espOk) rfl (by decide) (fun _ => h.succeeded hw (Int32.not_lt.mp ‹_›))
        (absurd · (by decide))
  | aborted => exact h.outside .aborted rfl (by decide) (by simp) (by simp)

theorem Truthful.step (h : Truthful max w) {a : WifiAction} (hc : Connects a)
    (hcl : Clean max w a) : Truthful max (w.step max a) := by
  unfold ConnectRun.step
  split
  swap
  · exact h
  rename_i s hs
  cases Sta.acts hs with
  | sees _ hsees => exact h.sees hcl hsees
  | handles err hhandles => exact h.handles hhandles
  | calls statement hcalls => exact h.calls hc hcl hcalls

end

/-! ## A run -/

/-- **When the call returns ESP_OK, the station got an address since it started; when it returns ESP_FAIL, more
disconnections than the limit came in a row**, in every run that is clean. -/
theorem connect_truthful (max : Int32) (s : Sta) (es : List WifiAction) (hc : ∀ a ∈ es, Connects a)
    (h : Meets (step max) (Clean max) (start s) es) :
    ((run (step max) (start s) es).sta.caller = .returned espOk →
      (run (step max) (start s) es).ledger.ours = true) ∧
    ((run (step max) (start s) es).sta.caller = .returned espFail →
      max.toInt < (run (step max) (start s) es).ledger.longest) := by
  have hinv : Truthful max (run (step max) (start s) es) := by
    refine Meets.invariant (Truthful max) ?_ (h.and_forall hc) (.start max s)
    intro w a hw ha
    exact hw.step ha.1 ha.2
  exact ⟨hinv.ok, hinv.fail⟩

/-- The statements of a call up to its wait, each answered ESP_OK. -/
def toWait : List WifiAction :=
  [.caller (.createSemaphore true), .caller .clearRetryNum, .caller (.registerDisconnect espOk),
    .caller (.registerGotIp espOk), .caller (.configure espOk), .caller (.connect espOk)]

/-- After `wifi_start`: no semaphore, no handler. -/
def fresh : Sta := ⟨0, none, false, false, .idle, .entered, []⟩

/-- One reconnection, the GOT_IP of an interface `eth`, then the station's. -/
def reconnects : List WifiAction :=
  toWait ++ [.disconnected, .handler espOk, .gotIp ⟨[101, 116, 104], by decide⟩, .handler espOk,
    .gotIp netifDescSta, .handler espOk, .caller .takeSemaphore, .caller .readRetryNum]

theorem connect_truthful_reconnects : (run (step 5) (start fresh) reconnects).ledger.ours = true :=
  (connect_truthful 5 fresh reconnects (by decide) (by decide +kernel)).1 (by decide +kernel)

/-- The only interface that gets an address is described as `netif_stb`. -/
def lookAlike : List WifiAction :=
  toWait ++ [.gotIp ⟨[110, 101, 116, 105, 102, 95, 115, 116, 98], by decide⟩, .handler espOk,
    .caller .takeSemaphore, .caller .readRetryNum]

theorem connect_look_alike : ¬ ∀ (max : Int32) (s : Sta) (es : List WifiAction), 0 ≤ max →
    (∀ a ∈ es, Connects a) →
      ((run (step max) (start s) es).sta.caller = .returned espOk →
        (run (step max) (start s) es).ledger.ours = true) ∧
      ((run (step max) (start s) es).sta.caller = .returned espFail →
        max.toInt < (run (step max) (start s) es).ledger.longest) := by
  intro h
  have hours := (h 5 fresh lookAlike (by decide) (by decide)).1 (by decide +kernel)
  exact absurd hours (by decide +kernel)

end ConnectRun

end EspOta.Wifi
