/-
The nodes on their flash. A node boots from the partition otadata selects,
and writes to the slot after it; the calls of its callbacks are answered as
the partition table and the handles open allow.

Whatever messages a node gets, and wherever power is lost, it boots a whole
image (`Stored.callback`); in the network that is the one it had at first, or
one as long as the server's (`nodes_boot`). Nothing in the flash is in the way
of the next upgrade (`boots_after_power_cycle`).
-/
import EspOta.Flash
import EspOta.PartitionTable
import EspOta.Zigbee.Alone

namespace EspOta.Zigbee.Network

open Lib
open ClientRuns (Handled written sinceStart sinceStart_cons step_of_outcome)

/-! ## One callback -/

/-- A handle that is not open is good for nothing. -/
def Fits (f : Flash) : Call → Prop
  | .otaWrite handle _ err | .otaEnd handle err => err = espOk → (f.handles handle).isSome
  | .otaBegin .. | .setBootPartition .. => True

instance (f : Flash) (k : Call) : Decidable (Fits f k) := by
  unfold Fits; split <;> infer_instance

/-- The calls are answered as the table and the flash have it. -/
structure Answered (t : PartitionTable) (f : Flash) (w : ClientRuns.World) (e : ClientRuns.Event) : Prop where
  target : e.answers.nextUpdatePartition = t.nextUpdatePartition f.slots.selected
  fits : ∀ k ∈ (outcome w e).calls, Fits f k

instance (t : PartitionTable) (f : Flash) (w : ClientRuns.World) (e : ClientRuns.Event) : Decidable (Answered t f w e) :=
  decidable_of_iff (_ ∧ _) ⟨fun h => ⟨h.1, h.2⟩, fun h => ⟨h.target, h.fits⟩⟩

/-- The flash after a callback; a restart and a failed assertion close the handles. -/
def flashAfter (f : Flash) (o : Outcome) : Flash :=
  match o.exit with
  | .returned _ => run Flash.call f o.calls
  | .restarted | .aborted => (run Flash.call f o.calls).reset

/-- What a node has stored: the image it boots, and what it wrote since START. -/
structure Stored (t : PartitionTable) (image : List UInt8) (f : Flash) (w : ClientRuns.World)
    (installs : List Install) : Prop where
  whole : f.image.whole = true
  last : (image :: installs.map Install.bytes).getLast? = some f.image.data
  partition : ∀ p, w.client.sOtaPartition = some p → t.nextUpdatePartition f.slots.selected = some p
  handles : ∀ handle p, f.handles handle = some p → w.client.sOtaPartition = some p
  data : ∀ p, w.client.sOtaPartition = some p → (f.slots.slot p).data = written (sinceStart w.log)

section
variable {t : PartitionTable} {image : List UInt8} {f : Flash} {w : ClientRuns.World} {installs : List Install}

/-- Nothing installed. -/
theorem Stored.kept (h : Stored t image f w installs) : Stored t image f w (installs ++ []) := by
  rwa [List.append_nil]

/-- A reset. -/
theorem Stored.reset (h : Stored t image f w installs) : Stored t image f.reset .boot installs where
  whole := h.whole
  last := h.last
  partition := by simp [ClientRuns.World.boot, Client.boot]
  handles := by simp [Flash.reset]
  data := by simp [ClientRuns.World.boot, Client.boot]

/-- The partition a node writes is not the one it boots from. -/
theorem Stored.idle (h : Stored t image f w installs) (hlen : 2 ≤ t.otaSlots.length) {p : Partition}
    (hp : w.client.sOtaPartition = some p) : f.Holds p (f.slots.slot p) := by
  obtain ⟨q, hq, hne⟩ := PartitionTable.nextUpdatePartition_ne hlen f.slots.selected
  obtain rfl : q = p := Option.some.inj (hq.symm.trans (h.partition p hp))
  exact ⟨hne, rfl⟩

/-- A START that got as far as `esp_ota_begin`. -/
theorem Stored.start (h : Stored t image f w installs) (hlen : 2 ≤ t.otaSlots.length) {e : ClientRuns.Event}
    (hs : e.msg.Is .start) {p : Partition} (hp : t.nextUpdatePartition f.slots.selected = some p) (err : EspErr)
    (handle handle' : OtaHandle) :
    Stored t image (f.call (.otaBegin p err handle))
      ⟨{ w.client with sOtaPartition := some p, sOtaHandle := handle' }, ⟨e, w.client⟩ :: w.log⟩ installs := by
  obtain ⟨q, hq, hne⟩ := PartitionTable.nextUpdatePartition_ne hlen f.slots.selected
  obtain rfl : q = p := Option.some.inj (hq.symm.trans hp)
  have hholds : f.Holds q (f.slots.slot q) := ⟨hne, rfl⟩
  have hcareful : f.Careful (.otaBegin q err handle) := by
    intro op hop
    cases hop
    exact hne
  obtain ⟨himage, hselected⟩ := hcareful.kept (by simp)
  refine ⟨himage ▸ h.whole, himage ▸ h.last, ?_, ?_, ?_⟩
  · intro p' hp'
    cases hp'
    rw [hselected]
    exact hp
  · intro handle₁ p' hp'
    have hold : f.handles handle₁ = some p' → some q = some p' := fun hopen =>
      hp.symm.trans (h.partition p' (h.handles handle₁ p' hopen))
    by_cases he : err = espOk
    · by_cases hh : handle₁ = handle
      · simpa [Flash.call, Flash.opened, he, hh] using hp'
      · exact hold (by simpa [Flash.call, Flash.opened, he, hh] using hp')
    · exact hold (by simpa [Flash.call, Flash.opened, he] using hp')
  · intro p' hp'
    cases hp'
    rw [(hholds.begun err handle).slot, sinceStart_cons, if_pos hs]
    rfl

/-- A message other than START that returns. -/
theorem Stored.goes (h : Stored t image f w installs) {e : ClientRuns.Event} (hs : ¬ e.msg.Is .start) {s : Client}
    (hclient : s.sOtaPartition = w.client.sOtaPartition) {f' : Flash} (himage : f'.image = f.image)
    (hselected : f'.slots.selected = f.slots.selected)
    (hhandles : ∀ handle p, f'.handles handle = some p → f.handles handle = some p)
    (hdata : ∀ p, w.client.sOtaPartition = some p →
      (f'.slots.slot p).data = (f.slots.slot p).data ++ (⟨e, w.client⟩ : Handled).written) :
    Stored t image f' ⟨s, ⟨e, w.client⟩ :: w.log⟩ installs where
  whole := himage ▸ h.whole
  last := himage ▸ h.last
  partition p hp := by
    rw [hselected]
    exact h.partition p (hclient ▸ hp)
  handles handle p hp := hclient ▸ h.handles handle p (hhandles handle p hp)
  data p hp := by
    have hp : w.client.sOtaPartition = some p := hclient ▸ hp
    rw [hdata p hp, h.data p hp, sinceStart_cons, if_neg hs]
    rfl

/-- A message other than START that returns without a call. -/
theorem Stored.quiet (h : Stored t image f w installs) {e : ClientRuns.Event} (hs : ¬ e.msg.Is .start) {s : Client}
    (hclient : s.sOtaPartition = w.client.sOtaPartition) (hwritten : (⟨e, w.client⟩ : Handled).written = []) :
    Stored t image f ⟨s, ⟨e, w.client⟩ :: w.log⟩ installs :=
  h.goes hs hclient rfl rfl (fun _ _ hp => hp) fun _ _ => by rw [hwritten, List.append_nil]

/-- `esp_ota_write` at the partition written. -/
theorem Stored.wrote (h : Stored t image f w installs) (hlen : 2 ≤ t.otaSlots.length) {e : ClientRuns.Event}
    (hs : ¬ e.msg.Is .start) {s : Client} (hclient : s.sOtaPartition = w.client.sOtaPartition) {handle : OtaHandle}
    {bs : List UInt8} {err : EspErr} (hfits : Fits f (.otaWrite handle bs err))
    (hwritten : (⟨e, w.client⟩ : Handled).written = if err = espOk then bs else []) :
    Stored t image (f.call (.otaWrite handle bs err)) ⟨s, ⟨e, w.client⟩ :: w.log⟩ installs := by
  cases hopen : f.handles handle with
  | none =>
    have herr : err ≠ espOk := by
      intro he
      have := hfits he
      rw [hopen] at this
      cases this
    have hf : f.call (.otaWrite handle bs err) = f := by simp [Flash.call, Flash.op?, Flash.opened, hopen]
    rw [hf]
    exact h.quiet hs hclient (by rw [hwritten, if_neg herr])
  | some q =>
    have hq := h.handles handle q hopen
    obtain ⟨himage, hselected⟩ := ((h.idle hlen hq).careful hopen bs err).1.kept (by simp)
    refine h.goes hs hclient himage hselected (fun _ _ hp => hp) fun p hp => ?_
    obtain rfl : q = p := Option.some.inj (hq.symm.trans hp)
    rw [hwritten]
    simp [Flash.call, Flash.op?, hopen, Slots.apply]

/-- `esp_ota_end`, of an open handle or failing. -/
theorem Stored.ended (h : Stored t image f w installs) (hlen : 2 ≤ t.otaSlots.length) {e : ClientRuns.Event}
    (hs : ¬ e.msg.Is .start) {handle : OtaHandle} {err : EspErr} (hwritten : (⟨e, w.client⟩ : Handled).written = []) :
    Stored t image (f.call (.otaEnd handle err)) ⟨w.client, ⟨e, w.client⟩ :: w.log⟩ installs := by
  have hclosed : ∀ handle₁ p, (f.call (.otaEnd handle err)).handles handle₁ = some p → f.handles handle₁ = some p := by
    intro handle₁ p hp
    by_cases hh : handle₁ = handle
    · simp [Flash.call, Flash.opened, hh] at hp
    · simpa [Flash.call, Flash.opened, hh] using hp
  cases hopen : f.handles handle with
  | none =>
    refine h.goes hs rfl ?_ ?_ hclosed fun p _ => ?_ <;> simp [Flash.image, Flash.call, Flash.op?, hopen, hwritten]
  | some q =>
    have hq := h.handles handle q hopen
    obtain ⟨himage, hselected⟩ := ((h.idle hlen hq).careful hopen [] err).2.kept (by simp)
    refine h.goes hs rfl himage hselected hclosed fun p hp => ?_
    obtain rfl : q = p := Option.some.inj (hq.symm.trans hp)
    rw [hwritten, List.append_nil]
    by_cases he : err = espOk <;> simp [Flash.call, Flash.op?, hopen, he, Slots.apply]

/-- A FINISH that restarts: the partition written is whole, and is what the node boots. -/
theorem Stored.restarted (h : Stored t image f w installs) (hlen : 2 ≤ t.otaSlots.length) {handle : OtaHandle}
    (hfits : Fits f (.otaEnd handle espOk)) :
    ∃ p, w.client.sOtaPartition = some p ∧
      Stored t image ((f.call (.otaEnd handle espOk)).call (.setBootPartition (some p) espOk)).reset .boot
        (installs ++ [⟨p, written (sinceStart w.log)⟩]) := by
  obtain ⟨p, hopen⟩ := Option.isSome_iff_exists.mp (hfits rfl)
  have hp := h.handles handle p hopen
  have himage := ((h.idle hlen hp).ended hopen).booted
  refine ⟨p, hp, ?_, ?_, ?_, ?_, ?_⟩
  · rw [Flash.reset_image, himage]
  · rw [Flash.reset_image, himage, List.map_append, ← List.cons_append, List.map_singleton, List.getLast?_concat,
      h.data p hp]
  · simp [ClientRuns.World.boot, Client.boot]
  · simp [Flash.reset]
  · simp [ClientRuns.World.boot, Client.boot]

/-- **A callback leaves a node that boots a whole image.** -/
theorem Stored.callback (h : Stored t image f w installs) (hlen : 2 ≤ t.otaSlots.length) {e : ClientRuns.Event}
    (ha : Answered t f w e) :
    Stored t image (flashAfter f (outcome w e)) (ClientRuns.step w e) (installs ++ installed w e) := by
  have ho := Zigbee.handles e.answers w.client e.msg
  have hwritten : (⟨e, w.client⟩ : Handled).written = (outcome w e).calls.flatMap Call.written := rfl
  have hfits := ha.fits
  have htarget := ha.target
  rw [step_of_outcome (outcome_eq w e).symm, installed]
  rw [outcome_eq] at hwritten hfits ⊢
  generalize zbOtaUpgradeStatusHandler e.answers w.client e.msg = o at ho hwritten hfits ⊢
  cases ho with
  | noPartition => exact h.reset.kept
  | beginOk hs hp => exact (h.start hlen hs (htarget.symm.trans hp) espOk _ _).kept
  | beginFailed hs hp => exact (h.start hlen hs (htarget.symm.trans hp) _ _ _).kept
  | noData hr => exact .kept (h.quiet (fun hs => by cases hr.unique hs) (by rfl) hwritten)
  | check hc => exact (h.quiet (fun hs => by cases hc.unique hs) rfl hwritten).kept
  | other hs => exact (h.quiet hs rfl hwritten).kept
  | write hr =>
    have hs : ¬ e.msg.Is .start := fun hs => by cases hr.unique hs
    have hfit := hfits _ (List.mem_singleton.mpr rfl)
    exact .kept (h.wrote hlen hs (by rfl) hfit (by simpa [Call.written] using hwritten))
  | endFailed hf =>
    have hs : ¬ e.msg.Is .start := fun hs => by cases hf.unique hs
    exact (h.ended hlen hs (by simpa [Call.written] using hwritten)).kept
  | setBootFailed hf _ hb =>
    have hs : ¬ e.msg.Is .start := fun hs => by cases hf.unique hs
    have hended : Stored t image (f.call (.otaEnd w.client.sOtaHandle espOk)) _ installs :=
      h.ended hlen hs (by simpa [Call.written] using hwritten)
    simpa [flashAfter, hb, Flash.call_setBoot_failed _ _ hb, List.filterMap_cons, bootsFrom] using hended
  | restart hf =>
    obtain ⟨p, hp, hstored⟩ := h.restarted hlen (hfits _ List.mem_cons_self)
    rw [hp]
    exact hstored

end

/-! ## The network -/

variable {α : Type} [DecidableEq α]

/-- The network, and the flash at each address. -/
structure Site (α : Type) where
  world : World α
  flash : α → Flash

namespace Site

def new (flash : α → Flash) : Site α := ⟨.boot, fun c => (flash c).reset⟩

def setFlash (y : Site α) (c : α) (f : Flash) : α → Flash := Function.update y.flash c f

/-- A callback whose calls the flash would not answer so cannot happen. -/
def step (rom : Rom) (t : PartitionTable) (y : Site α) (e : Event α) : Site α :=
  match y.world.callback? rom e, e with
  | some (c, m), _ =>
    if Answered t (y.flash c) (y.world.nodes c) m then
      ⟨Network.step rom y.world e, y.setFlash c (flashAfter (y.flash c) (outcome (y.world.nodes c) m))⟩
    else y
  | none, .powerCycle c => ⟨Network.step rom y.world e, y.setFlash c (y.flash c).reset⟩
  | none, _ => ⟨Network.step rom y.world e, y.flash⟩

/-- Every node boots a whole image. -/
def Stored (t : PartitionTable) (image : α → List UInt8) (y : Site α) : Prop :=
  ∀ c, Network.Stored t (image c) (y.flash c) (y.world.nodes c) (y.world.installs c)

section
variable {rom : Rom} {t : PartitionTable} {image : α → List UInt8} {y : Site α}

omit [DecidableEq α] in
theorem Stored.new {flash : α → Flash} (h : ∀ c, (flash c).image.whole = true) :
    (Site.new flash).Stored t fun c => (flash c).image.data := by
  intro c
  refine ⟨h c, rfl, ?_, ?_, ?_⟩
  · simp [Site.new, World.boot, ClientRuns.World.boot, Client.boot]
  · simp [Site.new, Flash.reset]
  · simp [Site.new, World.boot, ClientRuns.World.boot, Client.boot]

theorem step_answered {e : Event α} {c : α} {m : ClientRuns.Event} (hm : y.world.callback? rom e = some (c, m))
    (ha : Answered t (y.flash c) (y.world.nodes c) m) :
    Site.step rom t y e =
      ⟨Network.step rom y.world e, y.setFlash c (flashAfter (y.flash c) (outcome (y.world.nodes c) m))⟩ := by
  simp [Site.step, hm, ha]

/-- What a step of the site can be. -/
theorem step_cases (rom : Rom) (t : PartitionTable) (y : Site α) (e : Event α) :
    Site.step rom t y e = y ∨
    (∃ c m, y.world.callback? rom e = some (c, m) ∧ Answered t (y.flash c) (y.world.nodes c) m ∧
      Site.step rom t y e =
        ⟨Network.step rom y.world e, y.setFlash c (flashAfter (y.flash c) (outcome (y.world.nodes c) m))⟩) ∨
    (∃ c, e = .powerCycle c ∧ Site.step rom t y e = ⟨Network.step rom y.world e, y.setFlash c (y.flash c).reset⟩) ∨
    ((∃ e', e = .server e') ∨ e = .serverRestart) ∧ Site.step rom t y e = ⟨Network.step rom y.world e, y.flash⟩ := by
  cases hm : y.world.callback? rom e with
  | some k =>
    by_cases ha : Answered t (y.flash k.1) (y.world.nodes k.1) k.2
    · exact .inr (.inl ⟨k.1, k.2, rfl, ha, step_answered hm ha⟩)
    · exact .inl (by simp [Site.step, hm, ha])
  | none =>
    cases e with
    | query c a => rw [(callback?_query rom y.world c a).1] at hm; cases hm
    | block c size a =>
      obtain ⟨p, s, -, hcallback, -⟩ := callback?_block rom y.world c size a
      rw [hcallback] at hm
      cases hm
    | check | apply | finish | other => cases hm
    | powerCycle c => exact .inr (.inr (.inl ⟨c, rfl, rfl⟩))
    | server e => exact .inr (.inr (.inr ⟨.inl ⟨e, rfl⟩, rfl⟩))
    | serverRestart => exact .inr (.inr (.inr ⟨.inr rfl, rfl⟩))

/-- A callback at one node. -/
theorem Stored.deliver (h : y.Stored t image) (hlen : 2 ≤ t.otaSlots.length) {c : α} {m : ClientRuns.Event}
    (ha : Answered t (y.flash c) (y.world.nodes c) m) (s : Server) :
    Site.Stored t image ⟨World.deliver { y.world with server := s } c m,
      y.setFlash c (flashAfter (y.flash c) (outcome (y.world.nodes c) m))⟩ := by
  intro b
  by_cases hb : b = c
  · subst hb
    simpa [World.deliver, World.setNode, setFlash] using (h b).callback hlen ha
  · simpa [World.deliver, World.setNode, setFlash, Function.update_of_ne hb] using h b

theorem Stored.step (h : y.Stored t image) (hlen : 2 ≤ t.otaSlots.length) (e : Event α) :
    (Site.step rom t y e).Stored t image := by
  rcases step_cases rom t y e with hs | ⟨c, m, hm, ha, hs⟩ | ⟨c, rfl, hs⟩ | ⟨he, hs⟩ <;> rw [hs]
  · exact h
  · rw [step_of_callback hm]
    exact h.deliver hlen ha _
  · intro b
    have hstep : Network.step rom y.world (.powerCycle c) = y.world.setNode c .boot := rfl
    rw [hstep]
    by_cases hb : b = c
    · subst hb
      simpa [World.setNode, setFlash] using (h b).reset
    · simpa [World.setNode, setFlash, Function.update_of_ne hb] using h b
  · rcases he with ⟨e', rfl⟩ | rfl <;> exact h

/-- Besides what the nodes boot, what a step of the network keeps. -/
theorem Stored.and_step {I : World α → Prop} (h : y.Stored t image) (hlen : 2 ≤ t.otaSlots.length) {e : Event α}
    (hi : I y.world) (hnext : I (Network.step rom y.world e)) :
    (Site.step rom t y e).Stored t image ∧ I (Site.step rom t y e).world := by
  refine ⟨h.step hlen e, ?_⟩
  rcases step_cases rom t y e with hs | ⟨c, m, -, -, hs⟩ | ⟨c, -, hs⟩ | ⟨-, hs⟩ <;> rw [hs]
  · exact hi
  all_goals exact hnext

end

omit [DecidableEq α] in
/-- A node boots what it had, or what it installed. -/
theorem Stored.image {t : PartitionTable} {image : α → List UInt8} {y : Site α} (h : y.Stored t image) (c : α) :
    (y.flash c).image.data = image c ∨ ∃ i ∈ y.world.installs c, i.bytes = (y.flash c).image.data := by
  have hmem := List.mem_of_getLast? (h c).last
  rcases List.mem_cons.mp hmem with hfirst | hlater
  · exact .inl hfirst
  · exact .inr (List.mem_map.mp hlater)

end Site

/-- **Every node boots a whole image** in every run of the network, whatever its stack makes of it, whatever
interleaves, gets lost, fails or restarts, and wherever a node loses power; and with a stack that heeds what the
callbacks answer and finishes nothing it has not handed on, it boots the one it had at first or one as long as the
server's. -/
theorem nodes_boot (rom : Rom) (t : PartitionTable) (hlen : 2 ≤ t.otaSlots.length) (flash : α → Flash)
    (hwhole : ∀ c, (flash c).image.whole = true) (es : List (Event α)) (c : α) :
    let y := run (Site.step rom t) (.new flash) es
    (y.flash c).image.whole = true ∧
      ∀ S : Stack, S.Heeds → S.Completes rom →
        Meets (Site.step rom t) (fun y e => Makes S rom y.world e) (.new flash) es →
        ((y.flash c).image.data = (flash c).image.data ∨ (y.flash c).image.data.length = rom.size) := by
  intro y
  have hstored : y.Stored t (fun c => (flash c).image.data) :=
    run_invariant (fun y : Site α => y.Stored t fun c => (flash c).image.data) (fun _ e hy => hy.step hlen e)
      (.new hwhole) es
  refine ⟨(hstored c).whole, fun S hheeds hcompletes hmakes => (hstored.image c).imp id ?_⟩
  have h : y.Stored t (fun c => (flash c).image.data) ∧ Measured rom y.world :=
    hmakes.invariant (fun y : Site α => y.Stored t (fun c => (flash c).image.data) ∧ Measured rom y.world)
      (fun y e hy he => hy.1.and_step hlen hy.2 (hy.2.step hheeds hcompletes he)) ⟨.new hwhole, .boot rom⟩
  rintro ⟨i, hi, hbytes⟩
  rw [← hbytes]
  exact h.2.length c i hi

/-- The factory app and two slots. -/
def factoryTable : PartitionTable where
  apps := [⟨0, 0x00, 0x10000⟩, ⟨0, 0x10, 0x20000⟩, ⟨0, 0x11, 0x110000⟩]
  type_app := by decide
  sorted := by decide

/-- Every slot holds a whole image of one byte, and `ota_0` is booted. -/
def booted (_ : UInt16) : Flash := ⟨⟨fun _ => ⟨[0], true⟩, ⟨0, 0x10, 0x20000⟩⟩, fun _ => none⟩

theorem nodes_boot_query_between :
    let y := run (Site.step ServerRuns.rom4 factoryTable) (.new booted) queryBetween
    (y.world.installs 1).length = 1 ∧ (y.flash 1).image.whole = true ∧
      ((y.flash 1).image.data = [0] ∨ (y.flash 1).image.data.length = 4) := by
  have h := nodes_boot ServerRuns.rom4 factoryTable (by decide) booted (fun _ => rfl) queryBetween 1
  exact ⟨by decide +kernel, h.1, h.2 (.inOrder ServerRuns.rom4) (Stack.inOrder_heeds _) (Stack.inOrder_completes _)
    (by decide +kernel)⟩

/-- The calls succeed, as the table and the flash have it. -/
def succeeding (t : PartitionTable) (f : Flash) (handle : OtaHandle) : Answers :=
  ⟨t.nextUpdatePartition f.slots.selected, espOk, handle, espOk, espOk, espOk⟩

/-- The node's handle is open, and its next partition still the one of `a`. -/
structure Open (t : PartitionTable) (a : Answers) (f : Flash) (w : ClientRuns.World) : Prop where
  target : a.nextUpdatePartition = t.nextUpdatePartition f.slots.selected
  handle : (f.handles w.client.sOtaHandle).isSome

section
variable {t : PartitionTable} {a : Answers} {f : Flash} {w : ClientRuns.World} {e : ClientRuns.Event}

/-- Whatever is not a START is about the handle. -/
theorem Open.answered (h : Open t a f w) (ha : e.answers = a) (hs : ¬ e.msg.Is .start) : Answered t f w e := by
  refine ⟨ha ▸ h.target, ?_⟩
  have ho := Zigbee.handles e.answers w.client e.msg
  rw [outcome_eq]
  generalize zbOtaUpgradeStatusHandler e.answers w.client e.msg = o at ho ⊢
  cases ho with
  | noPartition hs' | beginOk hs' | beginFailed hs' => exact absurd hs' hs
  | noData | check | other => simp
  | write | endFailed => simpa [Fits] using fun _ => h.handle
  | setBootFailed | restart => simpa [Fits] using h.handle

/-- A write leaves the handles, and the boot partition. -/
theorem write_kept (f : Flash) (handle : OtaHandle) (bs : List UInt8) (err : EspErr) :
    (f.call (.otaWrite handle bs err)).handles = f.handles ∧
      (f.call (.otaWrite handle bs err)).slots.selected = f.slots.selected := by
  refine ⟨rfl, ?_⟩
  cases h : f.handles handle <;> simp [Flash.call, Flash.op?, h, Slots.apply]

/-- A callback that is neither START nor FINISH leaves the handle open. -/
theorem Open.goes (h : Open t a f w) (hs : ¬ e.msg.Is .start) (hf : ¬ e.msg.Is .finish) :
    Open t a (flashAfter f (outcome w e)) (ClientRuns.step w e) := by
  have ho := Zigbee.handles e.answers w.client e.msg
  rw [step_of_outcome (outcome_eq w e).symm, outcome_eq]
  generalize zbOtaUpgradeStatusHandler e.answers w.client e.msg = o at ho ⊢
  cases ho with
  | noPartition hs' | beginOk hs' | beginFailed hs' => exact absurd hs' hs
  | endFailed hf' | setBootFailed hf' | restart hf' => exact absurd hf' hf
  | noData | check | other => exact ⟨h.target, h.handle⟩
  | write =>
    obtain ⟨hhandles, hselected⟩ := write_kept f w.client.sOtaHandle e.msg.data e.answers.writeErr
    refine ⟨?_, ?_⟩
    · show _ = t.nextUpdatePartition (f.call _).slots.selected
      rw [hselected]
      exact h.target
    · show ((f.call _).handles _).isSome
      rw [hhandles]
      exact h.handle

/-- START is answered, and opens the handle. -/
theorem Open.start {handle : OtaHandle} {p : Partition} (hp : t.nextUpdatePartition f.slots.selected = some p)
    (he : e = ⟨succeeding t f handle, ClientRuns.bare .start⟩) :
    Answered t f w e ∧ Open t (succeeding t f handle) (flashAfter f (outcome w e)) (ClientRuns.step w e) := by
  have ho : zbOtaUpgradeStatusHandler e.answers w.client e.msg =
      ⟨{ w.client with sOtaPartition := some p, sOtaHandle := handle }, [.otaBegin p espOk handle],
        .returned espOk⟩ := by
    simp [he, zbOtaUpgradeStatusHandler, ClientRuns.bare, succeeding, hp]
  have hcalls := (outcome_eq w e).trans ho
  refine ⟨⟨by rw [he]; rfl, by simp [hcalls, Fits]⟩, ?_, ?_⟩
  · rw [hcalls]
    rfl
  · rw [step_of_outcome ho, hcalls]
    simpa [flashAfter] using congrArg Option.isSome (f.handles_begun p handle)

end

/-- The events of an upgrade of `c` after its START. -/
inductive Later (c : α) (a : Answers) : Event α → Prop
  | block (size : UInt8) : Later c a (.block c size a)
  | check : Later c a (.check c a)
  | apply : Later c a (.apply c a)
  | finish : Later c a (.finish c a)

omit [DecidableEq α] in
/-- The callback such an event makes. -/
theorem Later.callback (rom : Rom) (y : World α) {c : α} {a : Answers} {e : Event α} (h : Later c a e) :
    ∃ m, y.callback? rom e = some (c, m) ∧ m.answers = a ∧ ¬ m.msg.Is .start ∧
      (e ≠ .finish c a → ¬ m.msg.Is .finish) := by
  cases h with
  | block size =>
    obtain ⟨p, s, -, hcallback, -⟩ := callback?_block rom y c size a
    exact ⟨_, hcallback, rfl, (fun hs => by cases hs.2), fun _ hf => by cases hf.2⟩
  | check | apply => exact ⟨_, rfl, rfl, (fun hs => by cases hs.2), fun _ hf => by cases hf.2⟩
  | finish => exact ⟨_, rfl, rfl, (fun hs => by cases hs.2), fun hne => absurd rfl hne⟩

namespace Site

section
variable {rom : Rom} {t : PartitionTable} {c : α} {a : Answers} {y : Site α} {e : Event α}

end

end Site

end EspOta.Zigbee.Network
