/-
The Zigbee server under any number of clients, whose queries, block requests
and status messages interleave in any order. The state is the server's, with
a ledger beside it of what each client was handed out since its latest
accepted query; no handler reads the ledger.

Every client moves the same counter, so what one is handed out is the image
in order only while the others leave that counter where it is:
`served_of_undisturbed`.
-/
import EspOta.Lib.Run
import EspOta.Zigbee.Server
import Mathlib.Logic.Function.Basic

namespace EspOta.Zigbee.ServerRuns

open Lib

/-! ## Runs -/

/-- What can reach the server: `client` is the address the stack passes. -/
inductive Event (α : Type)
  | queryImage (m : QueryImageMessage α)
  | nextData (client : α) (index : UInt16) (size : UInt8)
  | serverStatus (m : ServerStatusMessage α)
  | signal (sig : AppSignal)

/-- The client an event comes from. -/
def Event.client {α : Type} : Event α → Option α
  | .queryImage m => some m.zclAddr
  | .nextData c _ _ => some c
  | .serverStatus m => some m.zclAddr
  | .signal _ => none

/-- A client's transfer since its latest accepted query: the slices handed
out to it, concatenated, and the sum of their sizes. -/
structure Session where
  slices : List UInt8
  asked : Nat
  deriving DecidableEq, Repr

/-- The server, and each client's open session. -/
structure World (α : Type) where
  server : Server
  sessions : α → Option Session

def World.boot {α : Type} : World α := ⟨.boot, fun _ => none⟩

variable {α : Type} [DecidableEq α]

/-- One event: the handler runs, and the ledger records what it answered. An
accepted query opens the client's session, a block it is handed out extends
it, its end closes it. -/
def step (rom : Rom) (w : World α) : Event α → World α
  | .queryImage m =>
    let (ret, s) := zbOtaUpgradeServerQueryImageHandler w.server m
    ⟨s, if ret = espOk then Function.update w.sessions m.zclAddr (some ⟨[], 0⟩) else w.sessions⟩
  | .nextData c index size =>
    let (ret, p, s) := zbOtaNextDataHandler rom w.server index size 0
    ⟨s, if ret = espOk then
        Function.update w.sessions c ((w.sessions c).map fun t =>
          ⟨t.slices ++ rom.read p size.toNat, t.asked + size.toNat⟩)
      else w.sessions⟩
  | .serverStatus m =>
    ⟨(zbOtaUpgradeServerStatusHandler w.server m).2,
      if m.Ends then Function.update w.sessions m.zclAddr none else w.sessions⟩
  | .signal _ => w

/-- What `c` was handed out in its open session is the image from the front,
and all of it once its sizes add up to the image size. -/
def Served (rom : Rom) (w : World α) (c : α) : Prop :=
  ∀ t ∈ w.sessions c, t.slices <+: rom.image ∧ (t.asked = rom.size → t.slices = rom.image)

/-- No client asks for more than the image in one session. -/
def InBudget (rom : Rom) (w : World α) : Event α → Prop
  | .nextData c index size =>
    index = otaUpgradeIndex → ∀ t ∈ w.sessions c, t.asked + size.toNat ≤ rom.size
  | _ => True

instance (rom : Rom) (w : World α) (e : Event α) : Decidable (InBudget rom w e) := by
  unfold InBudget; split <;> infer_instance

/-! ## A client the others leave alone -/

/-- The event moves the counter: a non-empty block, or a query or an end
that finds it away from the front. -/
def Event.Moves (s : Server) : Event α → Prop
  | .queryImage m => m.Accepted ∧ s.sOtaImageOffset ≠ 0
  | .nextData _ index size => index = otaUpgradeIndex ∧ size ≠ 0
  | .serverStatus m => m.Ends ∧ s.sOtaImageOffset ≠ 0
  | .signal _ => False

instance (s : Server) (e : Event α) : Decidable (e.Moves s) := by
  unfold Event.Moves; split <;> infer_instance

/-- `c` keeps within the image, and while its transfer is unfinished no other
client moves the counter. -/
def Undisturbed (rom : Rom) (c : α) (w : World α) (e : Event α) : Prop :=
  (e.client = some c → InBudget rom w e) ∧
    (e.client ≠ some c → ∀ t ∈ w.sessions c, t.asked < rom.size → ¬ e.Moves w.server)

instance (rom : Rom) (c : α) (w : World α) (e : Event α) : Decidable (Undisturbed rom c w e) :=
  inferInstanceAs (Decidable (_ ∧ _))

/-- `c`'s open session is a transfer of the image, and until it is finished
the counter is at its place. -/
def InStep (rom : Rom) (c : α) (w : World α) : Prop :=
  ∀ t ∈ w.sessions c, ∃ tr : Transfer rom.image, tr.moved = t.asked ∧ tr.got = t.slices ∧
    (t.asked < rom.size → w.server.sOtaImageOffset.toNat = t.asked)

omit [DecidableEq α] in
theorem inStep_boot (rom : Rom) (c : α) : InStep rom c .boot := by simp [InStep, World.boot]

omit [DecidableEq α] in
/-- A step that leaves the counter and `c`'s session alone keeps `c` in step. -/
theorem InStep.frame {rom : Rom} {c : α} {w w' : World α} (h : InStep rom c w)
    (hs : w'.sessions c = w.sessions c)
    (ho : ∀ t ∈ w.sessions c, t.asked < rom.size → w'.server.sOtaImageOffset = w.server.sOtaImageOffset) :
    InStep rom c w' := by
  intro t ht
  rw [hs] at ht
  obtain ⟨tr, hm, hg, hc⟩ := h t ht
  exact ⟨tr, hm, hg, fun hlt => by rw [ho t ht hlt]; exact hc hlt⟩

/-- A block for `c` itself, within the image. -/
theorem InStep.nextData_self {rom : Rom} {c : α} {w : World α} {size : UInt8} (h : InStep rom c w)
    (hb : ∀ t ∈ w.sessions c, t.asked + size.toNat ≤ rom.size) :
    InStep rom c (step rom w (.nextData c otaUpgradeIndex size)) := by
  intro t' ht'
  simp only [step, zbOtaNextDataHandler_index, ite_true, Function.update_self, Option.mem_def,
    Option.map_eq_some_iff] at ht'
  obtain ⟨t, ht, rfl⟩ := ht'
  obtain ⟨tr, hm, hg, hc⟩ := h t ht
  have hbt := hb t ht
  have hlen := rom.image_length
  by_cases hlt : t.asked < rom.size
  · have hcur : w.server.sOtaImageOffset.toNat = tr.cursor := by
      rw [Transfer.cursor_of_lt (by omega), hc hlt, hm]
    obtain ⟨p, s', heq, hread, hs'⟩ := zbOtaNextDataHandler_advance rom size 0 tr hcur (by omega)
    have hidx := (zbOtaNextDataHandler_index rom w.server size 0).symm.trans heq
    simp only [Prod.mk.injEq, true_and] at hidx
    obtain ⟨rfl, rfl⟩ := hidx
    refine ⟨tr.advance size.toNat (by omega), by simp [hm], ?_, fun hlt' => ?_⟩
    · rw [Transfer.got_advance, hg, hread]
    · dsimp only at hlt'
      simp only [step, zbOtaNextDataHandler_index]
      rw [hs', Transfer.cursor_of_lt (by simp only [Transfer.advance_moved]; omega), Transfer.advance_moved,
        hm]
  -- All of the image is out: the block is empty.
  · have h0 : size.toNat = 0 := by omega
    exact ⟨tr, by simp [h0, hm], by simp [h0, hg], by simp only [h0]; omega⟩

theorem InStep.step {rom : Rom} {c : α} {w : World α} {e : Event α} (h : InStep rom c w)
    (he : Undisturbed rom c w e) : InStep rom c (step rom w e) := by
  obtain ⟨hb, hq⟩ := he
  cases e with
  | queryImage m =>
    by_cases ha : m.Accepted
    · by_cases hc : m.zclAddr = c
      · intro t ht
        simp only [ServerRuns.step, query_accepted _ ha, ite_true, hc, Function.update_self,
          Option.mem_def, Option.some.injEq] at ht
        subst ht
        exact ⟨.start _, rfl, rfl, fun _ => by simp [ServerRuns.step, query_accepted _ ha]⟩
      · refine h.frame (by simp [ServerRuns.step, query_accepted _ ha, Function.update_of_ne (Ne.symm hc)]) ?_
        intro t ht hlt
        have := hq (by simpa [Event.client] using hc) t ht hlt
        simp only [Event.Moves, ha, true_and, not_not] at this
        simp [ServerRuns.step, query_accepted _ ha, this]
    · obtain ⟨r, hr, heq⟩ := query_rejected w.server ha
      exact h.frame (by simp [ServerRuns.step, heq, hr]) fun _ _ _ => by simp [ServerRuns.step, heq]
  | nextData d index size =>
    by_cases hi : index = otaUpgradeIndex
    · subst hi
      by_cases hd : d = c
      · subst hd; exact h.nextData_self (hb rfl rfl)
      · refine h.frame
          (by simp [ServerRuns.step, zbOtaNextDataHandler_index, Function.update_of_ne (Ne.symm hd)]) ?_
        intro t ht hlt
        have hz := hq (by simpa [Event.client] using hd) t ht hlt
        simp only [Event.Moves, true_and, ne_eq, not_not] at hz
        obtain ⟨tr, hm, -, hc⟩ := h t ht
        have hlen := rom.image_length
        have hcur : w.server.sOtaImageOffset.toNat = tr.cursor := by
          rw [Transfer.cursor_of_lt (by omega), hc hlt, hm]
        -- An empty block is a move of no bytes.
        obtain ⟨p, s', heq, -, hs'⟩ :=
          zbOtaNextDataHandler_advance rom size 0 tr hcur (by simp [hz]; omega)
        simp only [ServerRuns.step, heq]
        rw [← UInt32.toNat_inj, hs', hcur]
        simp [Transfer.cursor, Transfer.advance_moved, hz]
    · exact h.frame (by simp [ServerRuns.step, hi, espFail, espOk]) fun _ _ _ => by simp [ServerRuns.step, hi]
  | serverStatus m =>
    by_cases ha : m.Ends
    · by_cases hc : m.zclAddr = c
      · intro t ht
        simp [ServerRuns.step, ha, hc] at ht
      · refine h.frame (by simp [ServerRuns.step, ha, Function.update_of_ne (Ne.symm hc)]) ?_
        intro t ht hlt
        have := hq (by simpa [Event.client] using hc) t ht hlt
        simp only [Event.Moves, ha, true_and, not_not] at this
        simp [ServerRuns.step, status_ends _ ha, this]
    · exact h.frame (by simp [ServerRuns.step, ha]) fun _ _ _ => by simp [ServerRuns.step, status_not_ends _ ha]
  | signal sig => exact h.frame rfl fun _ _ _ => rfl

omit [DecidableEq α] in
theorem InStep.served {rom : Rom} {c : α} {w : World α} (h : InStep rom c w) : Served rom w c := by
  intro t ht
  obtain ⟨tr, hm, hg, -⟩ := h t ht
  refine ⟨hg ▸ tr.got_prefix, fun ha => ?_⟩
  rw [← hg]
  exact tr.got_eq_of_moved (by rw [hm, ha, rom.image_length])

/-- **One client's transfer.** In every run in which `c` asks for no more
than the image and no other client moves the counter while `c`'s transfer is
unfinished, `c` is served, whatever happened before its query. -/
theorem served_of_undisturbed (rom : Rom) (c : α) (es : List (Event α))
    (h : Meets (step rom) (Undisturbed rom c) .boot es) : Served rom (run (step rom) .boot es) c :=
  (h.invariant (InStep rom c) (fun _ _ hi he => hi.step he) (inStep_boot rom c)).served

/-! Two clients of a four-byte image. -/

/-- An image of the bytes 16, 17, 18, 19. -/
def rom4 : Rom where
  mem := UInt8.ofNat
  otaFileStart := 16
  otaFileEnd := 20
  start_pos := by decide
  start_le := by decide
  size_lt := by decide

/-- A query for the image. -/
def queryFrom (c : UInt16) : Event UInt16 :=
  .queryImage ⟨.success, c, otaUpgradeImageType, otaUpgradeManufacturer⟩

/-- A query of `0x2` between the blocks of `0x1` sends `0x1` back to the front. -/
def interleaved : List (Event UInt16) :=
  [queryFrom 1, .nextData 1 otaUpgradeIndex 2, queryFrom 2, .nextData 1 otaUpgradeIndex 2,
    .nextData 2 otaUpgradeIndex 2, .nextData 2 otaUpgradeIndex 2]

theorem not_served_interleaved :
    Meets (step rom4) (InBudget rom4) .boot interleaved ∧
      (run (step rom4) .boot interleaved).sessions 1 = some ⟨[16, 17, 16, 17], rom4.size⟩ ∧
      (run (step rom4) .boot interleaved).sessions 2 = some ⟨[18, 19, 16, 17], rom4.size⟩ ∧
      ¬ Served rom4 (run (step rom4) .boot interleaved) 1 := by
  refine ⟨by decide, by decide, by decide, fun h => ?_⟩
  have := (h ⟨[16, 17, 16, 17], rom4.size⟩ (by decide)).1
  revert this
  decide

theorem served_of_undisturbed_alone :
    let es : List (Event UInt16) := [queryFrom 2, .nextData 2 otaUpgradeIndex 3, queryFrom 1,
      .nextData 1 otaUpgradeIndex 2, .nextData 2 1 5, .nextData 1 otaUpgradeIndex 2]
    Meets (step rom4) (Undisturbed rom4 1) .boot es ∧ Served rom4 (run (step rom4) .boot es) 1 :=
  ⟨by decide, served_of_undisturbed rom4 1 _ (by decide)⟩

end EspOta.Zigbee.ServerRuns
