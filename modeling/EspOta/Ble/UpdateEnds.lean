/-
A BLE update comes to its end: as long as the task's calls succeed, the
parties cannot go on without end, and they cannot all be stuck before the
device has restarted, once every sector has arrived.

The rank counts what is still to arrive and what is on its way, each byte of
it as one pass of the task's loop at most. The one place to get stuck is the
receive on an empty buffer (`moves`), and there the last comparison says that
bytes are missing, so a package is, or a callback waits with the room it
needs.
-/
import EspOta.Ble.Update
import EspOta.Lib.Progress

namespace EspOta.Ble

open Lib

/-! ## The rank -/

def Phase.rank : Phase → Nat
  | .writing => 5
  | .returning => 4
  | .start | .comparing => 3
  | .receiving | .ending => 2
  | .settingBoot => 1
  | .restarted | .failed => 0

/-- The bytes that are still to go through the loop, and where the task is. -/
def Device.load (d : Device) : Nat :=
  4 * (d.ring.queued.length + (d.blocked.getD []).length) + (if d.blocked.isSome then 1 else 0) + d.phase.rank

/-- The call succeeds. -/
def TaskCall.Succeeds : TaskCall → Prop
  | .begin a => (selectPartition a).isSome ∧ a.beginErr = espOk
  | .write err | .otaEnd err | .setBoot err => err = espOk
  | .receive _ | .returnItem | .compare => True

instance : DecidablePred TaskCall.Succeeds := fun c => by
  cases c <;> unfold TaskCall.Succeeds <;> infer_instance

theorem Phase.left_restarted {p : Phase} (h : p = .restarted) : p.Left ∧ p ≠ .failed :=
  h ▸ ⟨.inr (.inr (.inl rfl)), by simp⟩

theorem Steps.load_task {d d' : Device} {c : TaskCall} (h : Steps d (.task c) d') (hc : c.Succeeds) :
    d'.load < d.load := by
  cases h with
  | notSelected a _ hs => simp [TaskCall.Succeeds, hs] at hc
  | notBegun a p _ _ he => exact absurd hc.2 he
  | writeFailed err _ he | endFailed err _ he | bootFailed err _ he => exact absurd hc he
  | received n r hp hr =>
    obtain ⟨happ, hlen, hn, -⟩ := Ringbuf.receive?_eq_some hr
    have hsum := congrArg List.length happ
    rw [List.length_append, hlen] at hsum
    simp only [Device.load, hp, Phase.rank]
    omega
  | begun _ _ hp | wrote hp | returned hp | again hp | complete hp | ended hp | bootSet hp =>
    simp [Device.load, hp, Phase.rank]

theorem Steps.load_unblock {d d' : Device} (h : Steps d .unblock d') : d'.load < d.load := by
  cases h with
  | unblocked buf r hb hr =>
    obtain ⟨hq, -⟩ := Ringbuf.send?_eq_some hr
    simp only [Device.load, hb, hq, List.length_append, Option.getD_some, Option.getD_none, List.length_nil,
      Option.isSome_some, Option.isSome_none, ite_true]
    simp only [Bool.false_eq_true, ite_false]
    omega

theorem Steps.load_recvFwCb {d d' : Device} {data : Bytes} (h : Steps d (.otaRecvFwCb data) d')
    (hlen : data.length ≤ sectorSize) : d'.load ≤ d.load + 4 * sectorSize + 1 := by
  cases h with
  | refused buf => omega
  | sent buf r _ hb hr =>
    obtain ⟨hq, -⟩ := Ringbuf.send?_eq_some hr
    simp only [Device.load, hq, List.length_append]
    omega
  | blocks buf _ hb =>
    simp only [Device.load, hb, Option.getD_some, Option.getD_none, List.length_nil, Option.isSome_some,
      Option.isSome_none, ite_true]
    omega

namespace Update

def rank (y : Update) : Nat := (4 * sectorSize + 2) * y.incoming.length + y.device.load

def Succeeds : UpdateEvent → Prop
  | .task c => c.Succeeds
  | .arrive | .unblock => True

instance : DecidablePred Succeeds := fun e => by
  cases e <;> unfold Succeeds <;> infer_instance

theorem Acts.rank_lt {y y' : Update} {e : UpdateEvent} (h : y.Acts e y') (he : Succeeds e) :
    y'.rank < y.rank := by
  cases h with
  | arrived w ws r hw => simp [rank, hw, Nat.mul_succ]
  | started w ws n d hw _ _ _ _ hs =>
    have hload : d.load = y.device.load := by cases hs; rfl
    simp [rank, hw, Nat.mul_succ, hload]
  | accepted w ws r data d hw _ _ hlen _ hs =>
    have hload := hs.load_recvFwCb hlen
    simp only [rank, hw, List.length_cons, Nat.mul_succ]
    omega
  | unblocked d hs =>
    have hload := hs.load_unblock
    simp only [rank]
    omega
  | task c d hs =>
    have hload := hs.load_task he
    simp only [rank]
    omega

/-! ## Nobody is stuck -/

def Happens (y : Update) (e : UpdateEvent) : Prop := (y.step? e).isSome

instance (y : Update) (e : UpdateEvent) : Decidable (y.Happens e) := inferInstanceAs (Decidable (_ = true))

theorem Happens.acts {y : Update} {e : UpdateEvent} (h : y.Happens e) : y.Acts e (y.step e) := by
  obtain ⟨y', hy⟩ := Option.isSome_iff_exists.mp h
  rw [step, hy]
  exact Update.acts hy

theorem not_happens_restarted {y : Update} (hp : y.device.phase = .restarted) (e : UpdateEvent) :
    ¬ y.Happens e := by
  have hnone : ∀ a, y.device.step? a = none := fun a => by simp [Device.step?, hp]
  have htell : ∀ n, tell y.device n = none := by
    intro n
    cases n with
    | nothing => exact if_pos hp
    | length n => exact hnone _
    | sector data => exact hnone _
  cases e with
  | arrive =>
    have harrive : y.arrive = none := by
      unfold arrive
      split
      · rfl
      · split <;> simp [htell]
    simp [Happens, step?, harrive]
  | unblock | task c => simp [Happens, step?, hnone]

/-- What the task's calls keep as long as they succeed: the task has not failed, a callback waits with no more than
the buffer holds, and a task that waits for bytes misses some. -/
structure Going (firmware : Bytes) (d : Device) : Prop where
  running : d.phase ≠ .failed
  fits : ∀ buf ∈ d.blocked, buf.length ≤ otaRingbufSize
  misses : d.phase = .start ∨ d.phase = .receiving → d.written = [] ∨ d.written.length < firmware.length

theorem Going.boot (firmware : Bytes) : Going firmware .boot :=
  ⟨by simp [Device.boot], by simp [Device.boot], fun _ => .inl rfl⟩

/-- The other parties leave the task alone. -/
theorem Going.other {firmware : Bytes} {d d' : Device} (h : Going firmware d) {a : Action} (hs : Steps d a d')
    (ha : ∀ c, a ≠ .task c) : Going firmware d' := by
  obtain ⟨hp, hc⟩ := hs.phase_of_not_task ha
  have hw : d'.written = d.written := by rw [Device.written, hc]; rfl
  refine ⟨hp ▸ h.running, ?_, by rw [hp, hw]; exact h.misses⟩
  cases hs with
  | announced | refused | sent => exact h.fits
  | blocks buf hle =>
    intro b hb
    cases hb
    exact hle
  | unblocked => simp
  | _ => exact absurd rfl (ha _)

variable {firmware : Bytes} (hsize : firmware.length ≤ maxSize) {noise : Noise firmware} {ws : List Write}

include hsize in
/-- A task that goes back to wait counted fewer bytes than were announced. -/
theorem Tracks.misses {y : Update} (h : Tracks firmware ws y) (hws : ws.Sublist noise.writes)
    (hp : y.device.phase = .comparing) (hlt : y.device.recvLen < y.device.fwLength) :
    y.device.written.length < firmware.length := by
  have hr : y.receiver.isSome := by
    by_contra hnone
    rcases h.idle (by simpa using hnone) with hidle | hidle | hidle <;> rw [hp] at hidle <;> cases hidle
  obtain ⟨hwritten, himage⟩ := h.written_prefix hsize hws
  have hle := (hwritten.trans himage).length_le
  have hfits : firmware.length < 2 ^ 32 := by simp only [maxSize, sectorSize] at hsize; omega
  rw [h.length hr, h.flow.count, UInt32.lt_iff_toNat_lt, UInt32.toNat_ofNat', UInt32.toNat_ofNat',
    Nat.mod_eq_of_lt hfits, Nat.mod_eq_of_lt (Nat.lt_of_le_of_lt hle hfits)] at hlt
  exact hlt

include hsize in
theorem Going.task {y : Update} (h : Going firmware y.device) (ht : Tracks firmware ws y)
    (hws : ws.Sublist noise.writes) {c : TaskCall} {d : Device} (hs : Steps y.device (.task c) d)
    (hc : c.Succeeds) : Going firmware d := by
  cases hs with
  | notSelected a _ hsel => simp [TaskCall.Succeeds, hsel] at hc
  | notBegun a p _ _ he => exact absurd hc.2 he
  | writeFailed err _ he | endFailed err _ he | bootFailed err _ he => exact absurd hc he
  | begun a p hp =>
    have hw := h.misses (.inl hp)
    refine ⟨by simp, h.fits, fun _ => ?_⟩
    simpa [Device.written, Call.written] using hw
  | again hp hlt => exact ⟨by simp, h.fits, fun _ => .inr (ht.misses hsize hws hp hlt)⟩
  | received | wrote | returned | complete | ended | bootSet => exact ⟨by simp, h.fits, by simp⟩

theorem step?_isSome_of_announce {d : Device} (hd : d.phase ≠ .restarted) (length : UInt32) :
    (d.step? (.announce length)).isSome := by
  unfold Device.step?
  cases hp : d.phase <;> simp [hp] at hd ⊢

theorem step?_isSome_of_recvFw {d : Device} (hd : d.phase ≠ .restarted) (hb : d.blocked = none) (data : Bytes) :
    (d.step? (.otaRecvFwCb data)).isSome := by
  have hcb : (d.otaRecvFwCb data).isSome := by
    unfold Device.otaRecvFwCb
    simp only [hb, Option.isSome_none, Bool.false_eq_true, ite_false]
    split
    · rfl
    · split <;> rfl
  unfold Device.step?
  cases hp : d.phase <;> simp [hp] at hd ⊢ <;> exact hcb

theorem arrive_happens {y : Update} (hp : y.device.phase ≠ .restarted) (hb : y.device.blocked = none)
    (hi : y.incoming ≠ []) : y.Happens .arrive := by
  obtain ⟨w, us, hw⟩ := List.exists_cons_of_ne_nil hi
  have htell : ∀ n, (tell y.device n).isSome := by
    intro n
    cases n with
    | nothing => simp [tell, hp]
    | length n => exact step?_isSome_of_announce hp _
    | sector data => exact step?_isSome_of_recvFw hp hb data
  simp only [Happens, step?, arrive, hw, hb, Option.isSome_none, Bool.false_eq_true, ite_false, Option.isSome_map]
  exact htell _

/-- Waiting for bytes, the task gets some, or a party brings it closer to them. -/
theorem moves_receiving {y : Update} (ht : Tracks firmware ws y) (hg : Going firmware y.device)
    (hall : imageOf (hear none ws) = firmware) (hne : firmware ≠ []) (hp : y.device.phase = .receiving) :
    ∃ e, y.Happens e ∧ Succeeds e := by
  have hitem : y.device.ring.item = [] := by
    have h := ht.flow.item
    simpa [hp] using h
  by_cases hq : y.device.ring.queued = []
  · cases hb : y.device.blocked with
    | some buf =>
      have hfits : (y.device.ring.queued ++ buf).length + y.device.ring.item.length ≤ otaRingbufSize := by
        simpa [hq, hitem] using hg.fits buf hb
      have hsome : (y.device.ring.send? buf).isSome := by
        unfold Ringbuf.send?
        rw [dif_pos hfits]
        rfl
      refine ⟨.unblock, ?_, trivial⟩
      simp only [Happens, step?, Device.step?, hp, Device.unblock, hb, Option.isSome_map]
      exact hsome
    | none =>
      by_cases hi : y.incoming = []
      -- All has arrived, and all of it is written.
      · exfalso
        obtain ⟨vs, hvs, hr⟩ := ht.heard
        rw [hi, List.append_nil] at hvs
        have hflow := ht.flow.bytes
        rw [hr, ← hvs, hall] at hflow
        have hw : y.device.written = firmware := by
          simpa [Device.pending, Device.inHand, hp, hq, hb] using hflow
        rcases hg.misses (.inr hp) with hnil | hlt
        · exact hne (hw ▸ hnil)
        · rw [hw] at hlt
          exact Nat.lt_irrefl _ hlt
      · exact ⟨.arrive, arrive_happens (by simp [hp]) hb hi, trivial⟩
  · have hpos := List.length_pos_iff.mpr hq
    have hsome : (y.device.ring.receive? 1).isSome := by
      unfold Ringbuf.receive?
      rw [dif_pos ⟨hitem, Nat.one_pos, hpos⟩]
      rfl
    refine ⟨.task (.receive 1), ?_, trivial⟩
    simp only [Happens, step?, Device.step?, hp, Option.isSome_map]
    exact hsome

/-- **Nobody is stuck** before the device has restarted. -/
theorem moves {y : Update} (ht : Tracks firmware ws y) (hg : Going firmware y.device)
    (hall : imageOf (hear none ws) = firmware) (hne : firmware ≠ []) (hp : y.device.phase ≠ .restarted) :
    ∃ e, y.Happens e ∧ Succeeds e := by
  have happens : ∀ c : TaskCall, (y.device.step? (.task c)).isSome → y.Happens (.task c) := by
    intro c hc
    simp only [Happens, step?, Option.isSome_map]
    exact hc
  cases hph : y.device.phase with
  | start => exact ⟨.task (.begin Restarts.oneSlot), happens _ (by simp [Device.step?, hph]), by decide, rfl⟩
  | receiving => exact moves_receiving ht hg hall hne hph
  | writing => exact ⟨.task (.write espOk), happens _ (by simp [Device.step?, hph]), rfl⟩
  | returning => exact ⟨.task .returnItem, happens _ (by simp [Device.step?, hph]), trivial⟩
  | comparing => exact ⟨.task .compare, happens _ (by simp [Device.step?, hph]), trivial⟩
  | ending => exact ⟨.task (.otaEnd espOk), happens _ (by simp [Device.step?, hph]), rfl⟩
  | settingBoot => exact ⟨.task (.setBoot espOk), happens _ (by simp [Device.step?, hph]), rfl⟩
  | restarted => exact absurd hph hp
  | failed => exact absurd hph hg.running

include hsize in
/-- **An update makes progress** to the restart. -/
theorem progress (hws : ws.Sublist noise.writes) (hall : imageOf (hear none ws) = firmware)
    (hne : firmware ≠ []) :
    Progress step (fun y e => y.Happens e ∧ Succeeds e)
      (fun y => Tracks firmware ws y ∧ Going firmware y.device) (fun y => y.device.phase = .restarted) rank where
  keeps y e := by
    rintro ⟨ht, hg⟩ ⟨hhap, hsucc⟩
    refine ⟨ht.step hsize hws e, ?_⟩
    have hacts := hhap.acts
    generalize y.step e = y' at hacts
    cases hacts with
    | arrived => exact hg
    | started w us n d _ _ _ _ _ hs => exact hg.other hs (by simp)
    | accepted w us r data d _ _ _ _ _ hs => exact hg.other hs (by simp)
    | unblocked d hs => exact hg.other hs (by simp)
    | task c d hs => exact hg.task hsize ht hws hs hsucc
  falls y e := by
    rintro - ⟨hhap, hsucc⟩
    exact hhap.acts.rank_lt hsucc
  moves y := by
    rintro ⟨ht, hg⟩ hp
    exact moves ht hg hall hne hp

end Update

open Update (Happens Succeeds)

/-- **An update comes to its end.** When every sector gets accepted and the task's calls succeed, the parties can
make a bounded number of steps, and where they can make no more the device has restarted with the firmware
written. -/
theorem update_ends {firmware : Bytes} (hsize : firmware.length ≤ maxSize) (hne : firmware ≠ [])
    (noise : Noise firmware) {ws : List Write} (hws : ws.Sublist noise.writes)
    (hall : imageOf (hear none ws) = firmware) {es : List UpdateEvent}
    (hes : Meets Update.step (fun y e => y.Happens e ∧ Succeeds e) (.boot ws) es) :
    es.length ≤ (4 * sectorSize + 2) * ws.length + 3 ∧
      ((∀ e, Succeeds e → ¬ (run Update.step (.boot ws) es).Happens e) →
        (run Update.step (.boot ws) es).device.phase = .restarted ∧
          (run Update.step (.boot ws) es).device.written = firmware) := by
  have hprogress := Update.progress hsize hws hall hne
  have hboot := And.intro (Update.Tracks.boot firmware ws) (Update.Going.boot firmware)
  constructor
  · have hlen := hprogress.length_le hboot hes
    have hrank : (Update.boot ws).rank = (4 * sectorSize + 2) * ws.length + 3 := rfl
    omega
  · intro hstuck
    have hend := hprogress.final_of_stuck hboot hes fun e he => hstuck e he.2 he.1
    have htracks := (hes.invariant _ hprogress.keeps hboot).1
    exact ⟨hend, (htracks.written_eq hsize hws (.inl (Phase.left_restarted hend))).1⟩

theorem update_ends_noisy :
    threeBytes.length ≤ (4 * sectorSize + 2) * stopLost.length + 3 ∧
      (run Update.step (.boot stopLost) threeBytes).device.written = three := by
  have hall : imageOf (hear none stopLost) = three := by decide +kernel
  have hes : Meets Update.step (fun y e => y.Happens e ∧ Succeeds e) (.boot stopLost) threeBytes := by
    decide +kernel
  have h := update_ends (by decide) (by decide) .padding (List.dropLast_sublist _) hall hes
  refine ⟨h.1, (h.2 fun e _ => ?_).2⟩
  have hend : (run Update.step (.boot stopLost) threeBytes).device.phase = .restarted := by decide +kernel
  exact Update.not_happens_restarted hend e

/-- **All or nothing.** Over a link that loses packages, the device can restart just when nothing but the STOP
is lost. -/
theorem restarts_iff_arrived {firmware : Bytes} (hsize : firmware.length ≤ maxSize) (hne : firmware ≠ [])
    {ws : List Write} (hws : ws.Sublist (script firmware)) :
    (∃ es, (run Update.step (.boot ws) es).device.phase = .restarted) ↔ (script firmware).dropLast <+: ws := by
  have hnoise : ws.Sublist (Noise.none firmware).writes := hws
  constructor
  · rintro ⟨es, hes⟩
    have htracks : (run Update.step (.boot ws) es).Tracks firmware ws :=
      run_invariant (Update.Tracks firmware ws) (fun _ e ht => ht.step hsize hnoise e) (.boot firmware ws) es
    obtain ⟨-, d, hd, himage⟩ := htracks.written_eq hsize hnoise (.inl (Phase.left_restarted hes))
    obtain ⟨vs, hvs, hr⟩ := htracks.heard
    have hpre : vs <+: ws := ⟨_, hvs.symm⟩
    have hall := (Noise.none firmware).arrived_of_whole hsize (hpre.sublist.trans hnoise) (hr ▸ hd) himage
    exact hall.trans hpre
  · intro hpre
    obtain ⟨d, hd, himage⟩ := whole_of_arrived hsize hws hpre
    have hall : imageOf (hear none ws) = firmware := by rw [hd]; exact himage
    have hprogress := Update.progress hsize hnoise hall hne
    obtain ⟨es, -, hes⟩ := hprogress.reaches ⟨Update.Tracks.boot firmware ws, Update.Going.boot firmware⟩
    exact ⟨es, hes⟩

/-- Of two sectors the STOP is lost, or the last package too. -/
theorem restarts_iff_arrived_two_sectors :
    (∃ es, (run Update.step (.boot (script twoSectors).dropLast) es).device.phase = .restarted) ∧
    ¬ ∃ es, (run Update.step (.boot (script twoSectors).dropLast.dropLast) es).device.phase = .restarted := by
  have hsub := List.dropLast_sublist (script twoSectors)
  constructor
  · exact (restarts_iff_arrived twoSectors_fits twoSectors_ne_nil hsub).mpr (List.prefix_refl _)
  · rw [restarts_iff_arrived twoSectors_fits twoSectors_ne_nil ((List.dropLast_sublist _).trans hsub)]
    exact script_not_prefix twoSectors

end EspOta.Ble
