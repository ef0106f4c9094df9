/-
One client and the server, end to end. Two counters on two devices are kept
apart: the server's is advanced before each block leaves and wraps at the
end of the image, the client's adds up what arrives. Both are the place of
one transfer of the image (`At`), block by block.
-/
import EspOta.Zigbee.ClientRuns
import EspOta.Zigbee.ServerRuns

namespace EspOta.Zigbee.EndToEnd

open Lib ClientRuns

/-- The two devices. -/
structure System where
  server : Server
  client : World

/-- The RECEIVE that carries the `size` bytes at `p`. -/
def receiveOf (rom : Rom) (a : Answers) (p : Nat) (size : UInt8) : Event :=
  ⟨a, .success, .receive, UInt32.ofNat rom.size, size.toUInt32, some (rom.read p size.toNat), by simp⟩

/-- One block: the client's request at the server, and what the server hands
out as a RECEIVE at the client, whose calls answer `b.1`. -/
def block (rom : Rom) (y : System) (b : Answers × UInt8) : System :=
  let (ret, p, s) := zbOtaNextDataHandler rom y.server otaUpgradeIndex b.2 0
  ⟨s, if ret = espOk then ClientRuns.step y.client (receiveOf rom b.1 p b.2) else y.client⟩

/-- The devices are at the place of `t`, the client in the session of `start`. -/
structure At (rom : Rom) (start : Event) (t : Transfer rom.image) (y : System) : Prop where
  server : y.server.sOtaImageOffset.toNat = t.cursor
  tracks : Tracks y.client
  counted : counted y.client.log = t.moved
  announced : t.moved = 0 ∨ announced y.client.log = UInt32.ofNat rom.size
  written : written y.client.log = t.got
  handle : y.client.client.sOtaHandle = start.answers.beginHandle
  partition : y.client.client.sOtaPartition = start.answers.nextUpdatePartition
  wrote : ∀ h ∈ sinceStart y.client.log,
    h.outcome.calls = [.otaWrite start.answers.beginHandle h.msg.data espOk]

/-- An accepted query and a START that begins put both devices at the front. -/
theorem At.start {α : Type} (rom : Rom) (s : Server) {q : QueryImageMessage α} (hq : q.Accepted)
    {start : Event} (hs : start.msg.Is .start) {p : Partition}
    (hp : start.answers.nextUpdatePartition = some p) (hb : start.answers.beginErr = espOk) :
    At rom start (.start rom.image)
      ⟨(zbOtaUpgradeServerQueryImageHandler s q).2, ClientRuns.step .boot start⟩ := by
  have hnr : ¬ start.msg.Is .receive := fun hr => nomatch hs.unique hr
  rw [query_accepted s hq, step_start .boot hs hp hb]
  refine ⟨by simp, ?_, ?_, .inl rfl, ?_, rfl, hp.symm, ?_⟩
  · rw [← step_start .boot hs hp hb]; exact Tracks.boot.step start
  · simp [World.boot, Handled.counted, hnr]
  · simp [ClientRuns.written, World.boot, Handled.written, Handled.outcome, zbOtaUpgradeStatusHandler, hs.1,
      hs.2, hp, Call.written]
  · simp [sinceStart_cons, hs]

/-- The bytes of a RECEIVE with data are written, when the write succeeds. -/
theorem written_of_receive {h : Handled} (hr : h.Is .receive) (hd : h.msg.data ≠ [])
    (hw : h.answers.writeErr = espOk) : h.written = h.msg.data := by
  simp [Handled.written, (Handled.outcome_of_receive hr hd).1, hw, Call.written]

/-- **One block.** A non-empty block inside the image, written successfully,
moves both devices to the next place. -/
theorem At.block {rom : Rom} {start : Event} {t : Transfer rom.image} {y : System}
    (h : At rom start t y) {b : Answers × UInt8} (hw : b.1.writeErr = espOk) (hb : 0 < b.2.toNat)
    (hle : t.moved + b.2.toNat ≤ rom.image.length) :
    At rom start (t.advance b.2.toNat hle) (block rom y b) := by
  obtain ⟨p, s', heq, hread, hs'⟩ := zbOtaNextDataHandler_advance rom b.2 0 t h.server hle
  have hr : (receiveOf rom b.1 p b.2).msg.Is .receive := ⟨rfl, rfl⟩
  have hdata : (receiveOf rom b.1 p b.2).msg.data = t.next b.2.toNat := hread
  have hne : (receiveOf rom b.1 p b.2).msg.data ≠ [] := by
    intro he
    have hl := t.next_length _ hle
    rw [← hdata, he] at hl
    simp only [List.length_nil] at hl
    omega
  have hns : ¬ (receiveOf rom b.1 p b.2).msg.Is .start := fun hs => nomatch hr.unique hs
  have ht := h.tracks.step (receiveOf rom b.1 p b.2)
  have hlog := step_receive y.client hr
  let k : Handled := ⟨receiveOf rom b.1 p b.2, y.client.client⟩
  have hk : k.Is .receive := hr
  have hblock : EndToEnd.block rom y b = ⟨s', ClientRuns.step y.client (receiveOf rom b.1 p b.2)⟩ := by
    simp [EndToEnd.block, heq]
  rw [hblock]
  have hcount : k.counted = b.2.toNat := by
    rw [Handled.counted, if_pos hk]
    exact UInt8.toNat_toUInt32 b.2
  refine ⟨hs', ht, ?_, .inr ?_, ?_, ?_, ?_, ?_⟩
  · rw [hlog, counted_cons, hcount, h.counted, Transfer.advance_moved, Nat.add_comm]
  · rw [hlog, announced_cons, if_pos hr]; rfl
  · rw [hlog, Transfer.got_advance, ← h.written, ← hdata]
    simp only [ClientRuns.written]
    rw [written_of_receive (h := k) hk hne hw]
  · rw [hlog]; exact h.handle
  · rw [hlog]; exact h.partition
  · intro j hj
    rw [hlog, sinceStart_cons, if_neg hns, List.mem_cons] at hj
    rcases hj with rfl | hj
    · rw [← h.handle, (Handled.outcome_of_receive hk hne).1]
      simp [k, receiveOf, hw]
    · exact h.wrote j hj

theorem At.blocks {rom : Rom} {start : Event} {t : Transfer rom.image} {y : System} (h : At rom start t y)
    {bs : List (Answers × UInt8)} (hbs : ∀ b ∈ bs, b.1.writeErr = espOk ∧ 0 < b.2.toNat)
    (hle : t.moved + (bs.map (·.2.toNat)).sum ≤ rom.image.length) :
    ∃ t' : Transfer rom.image, t'.moved = t.moved + (bs.map (·.2.toNat)).sum ∧
      At rom start t' (run (EndToEnd.block rom) y bs) := by
  induction bs generalizing t y with
  | nil => exact ⟨t, by simp, h⟩
  | cons b bs ih =>
    simp only [List.map_cons, List.sum_cons] at hle ⊢
    obtain ⟨hw, hb⟩ := hbs b List.mem_cons_self
    have hstep := h.block hw hb (by omega)
    obtain ⟨t', hm, ht'⟩ := ih hstep (fun b' hb' => hbs b' (List.mem_cons_of_mem _ hb'))
      (by simp only [Transfer.advance_moved]; omega)
    refine ⟨t', ?_, ht'⟩
    rw [hm, Transfer.advance_moved]
    omega

theorem sum_pos_of_ne_nil {bs : List (Answers × UInt8)} (hbs : ∀ b ∈ bs, 0 < b.2.toNat) (hne : bs ≠ []) :
    0 < (bs.map (·.2.toNat)).sum := by
  cases bs with
  | nil => exact absurd rfl hne
  | cons b bs =>
    have := hbs b List.mem_cons_self
    simp only [List.map_cons, List.sum_cons]
    omega

/-- **End to end.** Whatever state the server was in, after it accepts a query
a client that was just booted, gets START and then the blocks the server
hands out for sizes that sum to the image size, and whose calls succeed, has
written the image; its CHECK passes and its FINISH boots what it wrote. The
server is back at the front after the last block, and not before. -/
theorem transfer_complete {α : Type} (rom : Rom) (hne : rom.size ≠ 0) (s : Server)
    {q : QueryImageMessage α} (hq : q.Accepted) (start check finish : Event) (hs : start.msg.Is .start)
    {p : Partition} (hp : start.answers.nextUpdatePartition = some p) (hb : start.answers.beginErr = espOk)
    (blocks : List (Answers × UInt8)) (hblocks : ∀ b ∈ blocks, b.1.writeErr = espOk ∧ 0 < b.2.toNat)
    (hsum : (blocks.map (·.2.toNat)).sum = rom.size) (hc : check.msg.Is .check)
    (hf : finish.msg.Is .finish) (hend : finish.answers.endErr = espOk)
    (hboot : finish.answers.setBootErr = espOk) :
    let y₀ : System := ⟨(zbOtaUpgradeServerQueryImageHandler s q).2, ClientRuns.step .boot start⟩
    let y := run (block rom) y₀ blocks
    let w := ClientRuns.step y.client check
    written y.client.log = rom.image ∧
      (∀ h ∈ sinceStart y.client.log,
        h.outcome.calls = [.otaWrite start.answers.beginHandle h.msg.data espOk]) ∧
      (zbOtaUpgradeStatusHandler check.answers y.client.client check.msg).exit = .returned espOk ∧
      zbOtaUpgradeStatusHandler finish.answers w.client finish.msg = ⟨w.client,
        [.otaEnd start.answers.beginHandle espOk, .setBootPartition (some p) espOk], .restarted⟩ ∧
      y.server.sOtaImageOffset = 0 ∧
      ∀ bs cs, blocks = bs ++ cs → bs ≠ [] → cs ≠ [] →
        (run (block rom) y₀ bs).server.sOtaImageOffset ≠ 0 := by
  intro y₀ y w
  have h₀ : At rom start (.start rom.image) y₀ := .start rom s hq hs hp hb
  have hlen := rom.image_length
  obtain ⟨t, hm, h⟩ := h₀.blocks hblocks (by simp only [Transfer.start_moved]; omega)
  simp only [Transfer.start_moved, Nat.zero_add, hsum] at hm
  have h : At rom start t y := h
  have hcheck : (zbOtaUpgradeStatusHandler check.answers y.client.client check.msg).exit =
      .returned espOk := by
    rw [h.tracks.check_ok_iff _ hc, h.counted, hm, h.announced.resolve_left (by omega)]
    have hlt : rom.size < 2 ^ 32 := rom.size_lt
    rw [UInt32.toNat_ofNat_of_lt' hlt, Nat.mod_eq_of_lt hlt]
  have hw : w.client = y.client.client := by
    simp only [w, step_of_outcome rfl, hcheck]
    simp [zbOtaUpgradeStatusHandler, hc.1, hc.2]
  refine ⟨?_, h.wrote, hcheck, ?_, ?_, ?_⟩
  · rw [h.written, t.got_eq_of_moved (by omega)]
  · simp [zbOtaUpgradeStatusHandler, hf.1, hf.2, hend, hboot, hw, h.handle, h.partition, hp]
  · rw [← UInt32.toNat_inj, h.server, t.cursor_of_eq (by omega)]; rfl
  · intro bs cs hsplit hbs hcs hzero
    -- A proper prefix of the blocks stops inside the image.
    have hbs' : ∀ b ∈ bs, b.1.writeErr = espOk ∧ 0 < b.2.toNat := fun b hb => hblocks b (by simp [hsplit, hb])
    have hcs' : ∀ b ∈ cs, 0 < b.2.toNat := fun b hb => (hblocks b (by simp [hsplit, hb])).2
    have hpos := sum_pos_of_ne_nil (fun b hb => (hbs' b hb).2) hbs
    have hrest := sum_pos_of_ne_nil hcs' hcs
    rw [hsplit, List.map_append, List.sum_append] at hsum
    obtain ⟨t', hm', h'⟩ := h₀.blocks hbs' (by simp only [Transfer.start_moved]; omega)
    have hcur := h'.server
    rw [hzero] at hcur
    rcases Transfer.cursor_eq_zero_iff.mp hcur.symm with hz | hz <;>
      simp only [Transfer.start_moved] at hm' <;> omega

theorem transfer_complete_two_blocks :
    let y₀ : System := ⟨⟨0⟩, ClientRuns.step .boot (startWith 3)⟩
    let y := run (block ServerRuns.rom4) y₀ [(succeed 0, 3), (succeed 0, 1)]
    written y.client.log = ServerRuns.rom4.image ∧ y.server.sOtaImageOffset = 0 :=
  have h := transfer_complete ServerRuns.rom4 (by decide) ⟨2⟩
    (q := (⟨.success, 1, otaUpgradeImageType, otaUpgradeManufacturer⟩ : QueryImageMessage UInt16))
    (by decide) (startWith 3) ⟨succeed 0, bare .check⟩ ⟨succeed 0, bare .finish⟩ (by decide) rfl rfl
    [(succeed 0, 3), (succeed 0, 1)] (by decide) (by decide) (by decide) (by decide) rfl rfl
  ⟨h.1, h.2.2.2.2.1⟩

end EspOta.Zigbee.EndToEnd
