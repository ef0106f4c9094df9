/-
A node that the network leaves alone, in any state the network can be in.
Whatever was disturbed or lost before, a node whose counter is at zero takes
the image with whatever block sizes add up to it (`updates_alone_iff`); one
whose counter is not fails its CHECK, until it is power cycled
(`updates_after_power_cycle`).
-/
import EspOta.Zigbee.Network
import Mathlib.Data.List.TakeWhile

namespace EspOta.Zigbee.Network

open Lib
open ClientRuns (Handled written counted announced sinceStart upToStart lastStart sinceStart_cons counted_cons
  chosenPartition)
open EndToEnd (receiveOf)

variable {α : Type} [DecidableEq α]

/-! ## The upgrade of one node -/

/-- An upgrade of `c` in blocks of these sizes, with nothing else in the network. -/
def alone (c : α) (a : Answers) (sizes : List UInt8) : List (Event α) :=
  .query c a :: (sizes.map fun size => .block c size a) ++ [.check c a, .apply c a, .finish c a]

/-- The `esp_ota_*` calls succeed, for the partition `p`. -/
structure Succeeds (a : Answers) (p : Partition) : Prop where
  partition : a.nextUpdatePartition = some p
  begin : a.beginErr = espOk
  write : a.writeErr = espOk
  ends : a.endErr = espOk
  setBoot : a.setBootErr = espOk

/-- The node an event is of. -/
def Event.node : Event α → Option α
  | .query c _ | .block c _ _ | .check c _ | .apply c _ | .finish c _ | .other c _ _ | .powerCycle c => some c
  | .server _ | .serverRestart => none

theorem deliver_other {c d : α} (y : World α) (m : ClientRuns.Event) (hd : d ≠ c) :
    (y.deliver c m).nodes d = y.nodes d ∧ (y.deliver c m).installs d = y.installs d := by
  simp [World.deliver, World.setNode, Function.update_of_ne hd]

omit [DecidableEq α] in
theorem node_of_callback? {rom : Rom} {y : World α} {e : Event α} {c : α} {m : ClientRuns.Event}
    (h : y.callback? rom e = some (c, m)) : e.node = some c := by
  cases e with
  | query d a =>
    simp only [World.callback?] at h
    split at h <;> cases h
    rfl
  | block d size a =>
    simp only [World.callback?] at h
    split at h <;> cases h
    rfl
  | check | apply | finish | other => cases h; rfl
  | powerCycle | server | serverRestart => cases h

/-- An event of a node is nothing to the others. -/
theorem step_other (rom : Rom) {c d : α} (y : World α) {e : Event α} (he : e.node = some c) (hd : d ≠ c) :
    (step rom y e).nodes d = y.nodes d ∧ (step rom y e).installs d = y.installs d := by
  have hacts := acts rom y e
  generalize step rom y e = y' at hacts ⊢
  cases hacts with
  | started b a => cases he; exact deliver_other _ _ hd
  | handed b size a p s => cases he; exact deliver_other _ _ hd
  | told e b a u _ _ hcallback =>
    obtain rfl : c = b := Option.some.inj (he.symm.trans (node_of_callback? hcallback))
    exact deliver_other y _ hd
  | powerCycled b =>
    cases he
    simp [World.setNode, Function.update_of_ne hd]
  | served | restarted => cases he

theorem run_other {rom : Rom} {c d : α} {es : List (Event α)} (hes : ∀ e ∈ es, e.node = some c) (hd : d ≠ c)
    (y : World α) : (run (step rom) y es).nodes d = y.nodes d ∧ (run (step rom) y es).installs d = y.installs d := by
  induction es generalizing y with
  | nil => exact ⟨rfl, rfl⟩
  | cons e es ih =>
    obtain ⟨hnodes, hinstalls⟩ := ih (fun e' he' => hes e' (List.mem_cons_of_mem _ he')) (step rom y e)
    obtain ⟨hnode, hinstall⟩ := step_other rom y (hes e List.mem_cons_self) hd
    exact ⟨hnodes.trans hnode, hinstalls.trans hinstall⟩

omit [DecidableEq α] in
theorem alone_node (c : α) (a : Answers) (sizes : List UInt8) : ∀ e ∈ alone c a sizes, e.node = some c := by
  intro e he
  simp only [alone, List.cons_append, List.mem_cons, List.mem_append, List.mem_map, List.not_mem_nil, or_false] at he
  rcases he with rfl | ⟨size, -, rfl⟩ | rfl | rfl | rfl <;> rfl

/-! ## Step by step -/

/-- `c` has come from `y₀` to `n` bytes of its upgrade: its START is the one of the upgrade, and it has written the
image in order since. -/
structure Comes (rom : Rom) (c : α) (a : Answers) (y₀ y : World α) (n : Nat) : Prop where
  inOrder : InOrder rom c y
  going : Going (y.nodes c).log
  asked : asked (y.nodes c).log = n
  since : upToStart (y.nodes c).log =
    ⟨⟨a, ClientRuns.bare .start⟩, (y₀.nodes c).client⟩ :: (y₀.nodes c).log
  installs : y.installs c = y₀.installs c

theorem upToStart_cons (h : Handled) (log : List Handled) :
    upToStart (h :: log) = if h.Is .start then h :: log else upToStart log := by
  by_cases hs : h.Is .start <;> simp [upToStart, hs]

/-- The latest START heads what was handled up to it. -/
theorem lastStart_eq (log : List Handled) : lastStart log = (upToStart log).head? := by
  rw [lastStart, upToStart, List.find?_eq_head?_dropWhile_not]
  simp

theorem installed_of_not_finish {w : ClientRuns.World} {m : ClientRuns.Event} (h : ¬ m.msg.Is .finish) :
    installed w m = [] := by
  rw [List.eq_nil_iff_forall_not_mem]
  exact fun i hi => h (mem_installed hi).1

/-- A callback that answers `ESP_OK` is logged. -/
theorem step_of_ok {w : ClientRuns.World} {m : ClientRuns.Event} (h : (outcome w m).exit = .returned espOk) :
    ClientRuns.step w m = ⟨(outcome w m).client, ⟨m, w.client⟩ :: w.log⟩ := by
  rw [outcome_eq] at h
  rw [ClientRuns.step_of_outcome rfl, h, outcome_eq]

theorem log_deliver {y : World α} {c : α} {m : ClientRuns.Event} (h : (outcome (y.nodes c) m).exit = .returned espOk) :
    ((y.deliver c m).nodes c).log = ⟨m, (y.nodes c).client⟩ :: (y.nodes c).log := by
  simp [World.deliver, World.setNode, step_of_ok h]

theorem step_of_callback {rom : Rom} {y : World α} {e : Event α} {c : α} {m : ClientRuns.Event}
    (h : y.callback? rom e = some (c, m)) :
    step rom y e = World.deliver { y with server := y.served rom e } c m := by
  unfold step
  rw [h]

theorem log_step {rom : Rom} {y : World α} {e : Event α} {c : α} {m : ClientRuns.Event}
    (hm : y.callback? rom e = some (c, m)) (hok : (outcome (y.nodes c) m).exit = .returned espOk) :
    ((step rom y e).nodes c).log = ⟨m, (y.nodes c).client⟩ :: (y.nodes c).log := by
  rw [step_of_callback hm]
  exact log_deliver hok

/-- A callback at `c` that answers `ESP_OK`. -/
theorem Comes.callback {rom : Rom} {c : α} {a : Answers} {y₀ y : World α} {n : Nat} (h : Comes rom c a y₀ y n)
    {e : Event α} {m : ClientRuns.Event} (hm : y.callback? rom e = some (c, m)) (hplaced : Placed rom c y e)
    (hundisturbed : ¬ Disturbs c y e) (hok : (outcome (y.nodes c) m).exit = .returned espOk)
    (hs : ¬ m.msg.Is .start) (hstops : ¬ m.msg.upgradeStatus.Stops) (hf : ¬ m.msg.Is .finish) :
    Comes rom c a y₀ (step rom y e) (n + (⟨m, (y.nodes c).client⟩ : Handled).counted) := by
  have hlog := log_step hm hok
  refine ⟨h.inOrder.step (fun _ _ => hundisturbed) hplaced, ?_, ?_, ?_, ?_⟩
  · rw [hlog]
    exact ⟨hok, .inr ⟨hstops, h.going⟩⟩
  · rw [hlog, Zigbee.asked, sinceStart_cons, if_neg hs, counted_cons, Nat.add_comm, ← h.asked, Zigbee.asked]
  · rw [hlog, upToStart_cons, if_neg hs]
    exact h.since
  · rw [step_of_callback hm]
    simp [World.deliver, installed_of_not_finish hf, h.installs]

theorem Comes.start {rom : Rom} {c : α} {a : Answers} {p : Partition} (ha : Succeeds a p) {y : World α}
    (ht : ∀ d, Tracks rom (y.nodes d)) : Comes rom c a y (step rom y (.query c a)) 0 := by
  obtain ⟨hcallback, hserved⟩ := callback?_query rom y c a
  have hs : (⟨⟨a, ClientRuns.bare .start⟩, (y.nodes c).client⟩ : Handled).Is .start := ⟨rfl, rfl⟩
  have hok : (outcome (y.nodes c) ⟨a, ClientRuns.bare .start⟩).exit = .returned espOk := by
    simp [outcome_eq, zbOtaUpgradeStatusHandler, ClientRuns.bare, ha.partition, ha.begin]
  rw [step_of_callback hcallback, hserved]
  have hlog := log_deliver (y := { y with server := ⟨0⟩ }) hok
  refine ⟨.started ht c a, ?_, ?_, ?_, ?_⟩
  · rw [hlog]
    exact ⟨hok, .inl hs⟩
  · rw [hlog, asked_start hs]
  · rw [hlog, upToStart_cons, if_pos hs]
  · have hf : ¬ (ClientRuns.bare .start).Is .finish := fun hf => by cases hf.2
    simp [World.deliver, installed_of_not_finish (m := ⟨a, ClientRuns.bare .start⟩) hf]

/-- A RECEIVE answers what its write does. -/
theorem receive_exit (rom : Rom) (w : ClientRuns.World) (a : Answers) (p : Nat) {size : UInt8} (hpos : 0 < size.toNat) :
    (outcome w (receiveOf rom a p size)).exit = .returned a.writeErr := by
  have hdata : (receiveOf rom a p size).msg.data = rom.read p size.toNat := rfl
  have hne : (receiveOf rom a p size).msg.data ≠ [] := by
    intro hnil
    have hlength := rom.read_length p size.toNat
    rw [← hdata, hnil, List.length_nil] at hlength
    omega
  exact (Handled.outcome_of_receive (h := ⟨receiveOf rom a p size, w.client⟩) ⟨rfl, rfl⟩ hne).2

theorem Comes.block {rom : Rom} {c : α} {a : Answers} {y₀ y : World α} {n : Nat} (h : Comes rom c a y₀ y n)
    (hw : a.writeErr = espOk) {size : UInt8} (hpos : 0 < size.toNat) (hle : n + size.toNat ≤ rom.size) :
    Makes (.inOrder rom) rom y (.block c size a) ∧
      Comes rom c a y₀ (step rom y (.block c size a)) (n + size.toNat) := by
  obtain ⟨p, s, -, hcallback, -⟩ := callback?_block rom y c size a
  have hasked := h.asked
  have hsize : (receiveOf rom a p size).msg.payloadSize.toNat = size.toNat := UInt8.toNat_toUInt32 size
  constructor
  · intro k hk
    obtain rfl : (c, receiveOf rom a p size) = k := Option.some.inj (hcallback.symm.trans hk)
    show Going (y.nodes c).log ∧ 0 < (receiveOf rom a p size).msg.payloadSize.toNat ∧
      Zigbee.asked (y.nodes c).log + (receiveOf rom a p size).msg.payloadSize.toNat ≤ rom.size
    rw [hsize]
    exact ⟨h.going, hpos, by omega⟩
  · have hok : (outcome (y.nodes c) (receiveOf rom a p size)).exit = .returned espOk := by
      rw [receive_exit rom _ a p hpos, hw]
    have hcomes := h.callback hcallback (fun _ => ⟨h.going, hpos, by omega⟩) (fun hd => hd rfl) hok
      (fun hs => by cases hs.2) (fun hstops => hstops) fun hf => by cases hf.2
    rw [Handled.counted, if_pos (receiveOf_is rom a p size), hsize] at hcomes
    exact hcomes

theorem Comes.blocks {rom : Rom} {c : α} {a : Answers} (hw : a.writeErr = espOk) {sizes : List UInt8}
    (hpos : ∀ size ∈ sizes, 0 < size.toNat) {y₀ y : World α} {n : Nat} (h : Comes rom c a y₀ y n)
    (hle : n + (sizes.map (·.toNat)).sum ≤ rom.size) :
    Meets (step rom) (Makes (.inOrder rom) rom) y (sizes.map fun size => .block c size a) ∧
      Comes rom c a y₀ (run (step rom) y (sizes.map fun size => .block c size a))
        (n + (sizes.map (·.toNat)).sum) := by
  induction sizes generalizing y n with
  | nil => exact ⟨trivial, by simpa using h⟩
  | cons size sizes ih =>
    simp only [List.map_cons, List.sum_cons, run_cons, meets_cons] at hle ⊢
    obtain ⟨hmakes, hblock⟩ := h.block hw (hpos size List.mem_cons_self) (by omega)
    obtain ⟨hrest, hcomes⟩ := ih (fun s hs => hpos s (List.mem_cons_of_mem _ hs)) hblock (by omega)
    exact ⟨⟨hmakes, hrest⟩, by rwa [Nat.add_assoc] at hcomes⟩

omit [DecidableEq α] in
/-- Complete, CHECK passes just when nothing was counted before its START, modulo `2^32`. -/
theorem Comes.check_ok_iff {rom : Rom} (hne : rom.size ≠ 0) {c : α} {a : Answers} {y₀ y : World α}
    (h : Comes rom c a y₀ y rom.size) :
    (outcome (y.nodes c) ⟨a, ClientRuns.bare .check⟩).exit = .returned espOk ↔
      counted (y₀.nodes c).log % 2 ^ 32 = 0 := by
  have htracks := h.inOrder.tracks c
  have hasked : counted (sinceStart (y.nodes c).log) = rom.size := h.asked
  have hcounted : counted (y.nodes c).log = rom.size + counted (y₀.nodes c).log := by
    rw [← ClientRuns.sinceStart_append_upToStart (y.nodes c).log, ClientRuns.counted_append, hasked, h.since,
      counted_cons, Handled.counted, if_neg (fun hr => by cases hr.2), Nat.zero_add]
  have hlt : rom.size < 2 ^ 32 := rom.size_lt
  rw [outcome_eq, htracks.vars.check_ok_iff a ⟨rfl, rfl⟩, hcounted,
    htracks.told.announced (by rw [h.asked]; exact hne), UInt32.toNat_ofNat_of_lt' hlt]
  omega

/-- A CHECK that passes. -/
theorem Comes.check {rom : Rom} {c : α} {a : Answers} {y₀ y : World α} (h : Comes rom c a y₀ y rom.size)
    (hok : (outcome (y.nodes c) ⟨a, ClientRuns.bare .check⟩).exit = .returned espOk) :
    Makes (.inOrder rom) rom y (.check c a) ∧ Comes rom c a y₀ (step rom y (.check c a)) rom.size ∧
      Checked ((step rom y (.check c a)).nodes c).log := by
  have hcallback : y.callback? rom (.check c a) = some (c, ⟨a, ClientRuns.bare .check⟩) := rfl
  have hcomes := h.callback hcallback trivial id hok (fun hs => by cases hs.2) id fun hf => by cases hf.2
  refine ⟨?_, hcomes, ?_⟩
  · intro k hk
    cases hk
    exact ⟨h.going, h.asked⟩
  · rw [log_step hcallback hok]
    exact checked_check ⟨rfl, rfl⟩

/-- Checked, the node applies and finishes, and boots the image. -/
theorem Comes.finish {rom : Rom} {c : α} {a : Answers} {p : Partition} (ha : Succeeds a p) {y₀ y : World α}
    (h : Comes rom c a y₀ y rom.size) (hchecked : Checked (y.nodes c).log) :
    Meets (step rom) (Makes (.inOrder rom) rom) y [.apply c a, .finish c a] ∧
      (run (step rom) y [.apply c a, .finish c a]).installs c = y₀.installs c ++ [⟨p, rom.image⟩] := by
  have hok : (outcome (y.nodes c) ⟨a, ClientRuns.bare .apply⟩).exit = .returned espOk := by
    simp [outcome_eq, zbOtaUpgradeStatusHandler, ClientRuns.bare]
  have hcallback : y.callback? rom (.apply c a) = some (c, ⟨a, ClientRuns.bare .apply⟩) := rfl
  have happly := h.callback hcallback trivial id hok (fun hs => by cases hs.2) id fun hf => by cases hf.2
  have hchecked' : Checked ((step rom y (.apply c a)).nodes c).log := by
    rw [log_step hcallback hok]
    exact hchecked.cons fun hs => by cases hs.2
  have hmakes : Makes (.inOrder rom) rom y (.apply c a) := by
    intro k hk
    cases hk
    exact ⟨h.going, h.asked, hchecked⟩
  rw [meets_cons, meets_cons, run_cons, run_cons, run_nil]
  generalize step rom y (.apply c a) = y₁ at happly hchecked' ⊢
  have hmakes' : Makes (.inOrder rom) rom y₁ (.finish c a) := by
    intro k hk
    cases hk
    exact ⟨happly.going, happly.asked, hchecked'⟩
  refine ⟨⟨hmakes, hmakes', trivial⟩, ?_⟩
  have hpartition : (y₁.nodes c).client.sOtaPartition = some p := by
    rw [(happly.inOrder.tracks c).vars.partition, chosenPartition, lastStart_eq, happly.since]
    exact ha.partition
  have hcalls : (outcome (y₁.nodes c) ⟨a, ClientRuns.bare .finish⟩).calls =
      [.otaEnd (y₁.nodes c).client.sOtaHandle espOk, .setBootPartition (some p) espOk] := by
    simp [outcome_eq, zbOtaUpgradeStatusHandler, ClientRuns.bare, ha.ends, ha.setBoot, hpartition]
  have hbytes := happly.inOrder.written_all happly.going happly.asked
  have hfinish : step rom y₁ (.finish c a) = y₁.deliver c ⟨a, ClientRuns.bare .finish⟩ := step_of_callback rfl
  simp [hfinish, World.deliver, installed, hcalls, List.filterMap_cons, bootsFrom, hbytes, happly.installs]

omit [DecidableEq α] in
theorem Makes.of_proceeds {rom : Rom} {S : Stack} (hproceeds : S.Proceeds rom) {y : World α} {e : Event α}
    (h : Makes (.inOrder rom) rom y e) : Makes S rom y e := fun k hk => hproceeds _ _ (h k hk)

theorem meets_of_proceeds {rom : Rom} {S : Stack} (hproceeds : S.Proceeds rom) {y : World α} {es : List (Event α)}
    (h : Meets (step rom) (Makes (.inOrder rom) rom) y es) : Meets (step rom) (Makes S rom) y es :=
  h.imp (fun _ => True) (fun _ _ _ _ => trivial) (fun _ _ _ h => h.of_proceeds hproceeds) trivial

theorem alone_iff {rom : Rom} (hne : rom.size ≠ 0) {S : Stack} (hheeds : S.Heeds) (hproceeds : S.Proceeds rom) {c : α}
    {a : Answers} {p : Partition} (ha : Succeeds a p) {sizes : List UInt8} (hpos : ∀ size ∈ sizes, 0 < size.toNat)
    (hsum : (sizes.map (·.toNat)).sum = rom.size) {y : World α} (ht : ∀ d, Tracks rom (y.nodes d)) :
    Meets (step rom) (Makes S rom) y (alone c a sizes) ∧
        (run (step rom) y (alone c a sizes)).installs c = y.installs c ++ [⟨p, rom.image⟩] ↔
      counted (y.nodes c).log % 2 ^ 32 = 0 := by
  have hmakes : Makes (.inOrder rom) rom y (.query c a) := by
    intro k hk
    obtain rfl := Option.some.inj ((callback?_query rom y c a).1.symm.trans hk)
    trivial
  obtain ⟨hblocks, hcomes⟩ := (Comes.start ha ht (c := c)).blocks ha.write hpos (by omega)
  rw [Nat.zero_add, hsum] at hcomes
  rw [alone, List.cons_append, meets_cons, meets_append, run_cons, run_append, meets_cons, run_cons]
  generalize run (step rom) (step rom y (.query c a)) (sizes.map fun size => .block c size a) = y₁ at hcomes ⊢
  rw [← hcomes.check_ok_iff hne]
  have hcallback : y₁.callback? rom (.check c a) = some (c, ⟨a, ClientRuns.bare .check⟩) := rfl
  constructor
  -- What is made after CHECK is made because it passed.
  · rintro ⟨⟨-, -, -, happly, -⟩, -⟩
    have hgoing : Going ((step rom y₁ (.check c a)).nodes c).log := by
      rcases hheeds _ _ (happly (c, ⟨a, ClientRuns.bare .apply⟩) rfl) with hs | hstops | hgoing
      · cases hs
      · exact hstops.elim
      · exact hgoing
    rw [step_of_callback hcallback] at hgoing
    simp only [World.deliver, World.setNode, Function.update_self] at hgoing
    exact (going_step hgoing).2.1
  · intro hok
    obtain ⟨hcheck, hcomes', hchecked⟩ := hcomes.check hok
    obtain ⟨hfinish, hinstalls⟩ := hcomes'.finish ha hchecked
    exact ⟨⟨hmakes.of_proceeds hproceeds, meets_of_proceeds hproceeds hblocks, hcheck.of_proceeds hproceeds,
      meets_of_proceeds hproceeds hfinish⟩, hinstalls⟩

/-- **A node alone.** In every state the network can reach, the stack of a node that then has the server to itself,
and whose calls succeed, takes it through an upgrade to boot the image if and only if what the node ever counted since
its boot comes to a multiple of `2^32`; nothing changes at the other nodes. -/
theorem updates_alone_iff (rom : Rom) (hne : rom.size ≠ 0) {S : Stack} (hheeds : S.Heeds)
    (hproceeds : S.Proceeds rom) (es : List (Event α)) (c : α) {a : Answers} {p : Partition} (ha : Succeeds a p)
    {sizes : List UInt8} (hpos : ∀ size ∈ sizes, 0 < size.toNat) (hsum : (sizes.map (·.toNat)).sum = rom.size) :
    let y := run (step rom) .boot es
    let y' := run (step rom) y (alone c a sizes)
    (Meets (step rom) (Makes S rom) y (alone c a sizes) ∧ y'.installs c = y.installs c ++ [⟨p, rom.image⟩] ↔
        counted (y.nodes c).log % 2 ^ 32 = 0) ∧
      ∀ d, d ≠ c → y'.nodes d = y.nodes d ∧ y'.installs d = y.installs d := by
  intro y y'
  have ht : ∀ d, Tracks rom (y.nodes d) :=
    run_invariant (fun y : World α => ∀ d, Tracks rom (y.nodes d)) (fun _ e h => tracks_step h e) (fun _ => .boot rom) es
  exact ⟨alone_iff hne hheeds hproceeds ha hpos hsum ht, fun d hd => run_other (alone_node c a sizes) hd y⟩

/-- After one byte of four and nothing more, a node takes the image when it is power cycled, and not before. -/
def givenUp : List (Event UInt16) :=
  [.query 1 (ClientRuns.succeed 3), .block 1 1 (ClientRuns.succeed 3), .other 1 4 (ClientRuns.succeed 3)]

theorem succeeds_succeed : Succeeds (ClientRuns.succeed 3) ⟨0, 0x11, 0x110000⟩ := ⟨rfl, rfl, rfl, rfl, rfl⟩

theorem updates_alone_iff_given_up : let y := run (step ServerRuns.rom4) .boot givenUp
    ¬ Meets (step ServerRuns.rom4) (Makes (.inOrder ServerRuns.rom4) ServerRuns.rom4) y
        (alone 1 (ClientRuns.succeed 3) [3, 1]) ∧
      Meets (step ServerRuns.rom4) (Makes (.inOrder ServerRuns.rom4) ServerRuns.rom4) y
        (alone 2 (ClientRuns.succeed 3) [3, 1]) := by
  have hheeds := Stack.inOrder_heeds ServerRuns.rom4
  have hproceeds := Stack.inOrder_proceeds ServerRuns.rom4
  have hpos : ∀ size ∈ ([3, 1] : List UInt8), 0 < size.toNat := by simp
  have hone := (updates_alone_iff ServerRuns.rom4 (by decide) hheeds hproceeds givenUp 1 succeeds_succeed hpos
    (by decide)).1
  have htwo := (updates_alone_iff ServerRuns.rom4 (by decide) hheeds hproceeds givenUp 2 succeeds_succeed hpos
    (by decide)).1
  refine ⟨fun hmakes => absurd (hone.mp ⟨hmakes, by decide⟩) (by decide), (htwo.mpr (by decide)).1⟩

theorem installs_after_power_cycle {rom : Rom} (hne : rom.size ≠ 0) (c : α) {a : Answers} {p : Partition}
    (ha : Succeeds a p) {sizes : List UInt8} (hpos : ∀ size ∈ sizes, 0 < size.toNat)
    (hsum : (sizes.map (·.toNat)).sum = rom.size) {y : World α} (ht : ∀ d, Tracks rom (y.nodes d)) :
    Meets (step rom) (Makes (.inOrder rom) rom) y (.powerCycle c :: alone c a sizes) ∧
      (run (step rom) y (.powerCycle c :: alone c a sizes)).installs c = y.installs c ++ [⟨p, rom.image⟩] := by
  have hcycle : step rom y (.powerCycle c) = y.setNode c .boot := rfl
  have hlog : ((step rom y (.powerCycle c)).nodes c).log = [] := by
    simp [hcycle, World.setNode, ClientRuns.World.boot]
  obtain ⟨hmakes, hinstalls⟩ := (alone_iff hne (Stack.inOrder_heeds rom) (Stack.inOrder_proceeds rom) ha hpos hsum
    (tracks_step ht (.powerCycle c))).mpr (by rw [hlog]; rfl)
  exact ⟨⟨by simp [Makes, World.callback?], hmakes⟩, hinstalls⟩

omit [DecidableEq α] in
theorem powerCycle_node (c : α) (a : Answers) (sizes : List UInt8) :
    ∀ e ∈ .powerCycle c :: alone c a sizes, e.node = some c := by
  intro e he
  rcases List.mem_cons.mp he with rfl | he
  · rfl
  · exact alone_node c a sizes e he

/-- **A power cycle recovers.** Whatever state the network has come to, a node that is power cycled and then has the
server to itself, and whose calls succeed, boots the image, with every callback in order; nothing changes at the other
nodes. -/
theorem updates_after_power_cycle (rom : Rom) (hne : rom.size ≠ 0) (es : List (Event α)) (c : α) {a : Answers}
    {p : Partition} (ha : Succeeds a p) {sizes : List UInt8} (hpos : ∀ size ∈ sizes, 0 < size.toNat)
    (hsum : (sizes.map (·.toNat)).sum = rom.size) :
    let y := run (step rom) .boot es
    let y' := run (step rom) y (.powerCycle c :: alone c a sizes)
    Meets (step rom) (Makes (.inOrder rom) rom) y (.powerCycle c :: alone c a sizes) ∧
      y'.installs c = y.installs c ++ [⟨p, rom.image⟩] ∧
      ∀ d, d ≠ c → y'.nodes d = y.nodes d ∧ y'.installs d = y.installs d := by
  intro y y'
  have ht : ∀ d, Tracks rom (y.nodes d) :=
    run_invariant (fun y : World α => ∀ d, Tracks rom (y.nodes d)) (fun _ e h => tracks_step h e) (fun _ => .boot rom) es
  obtain ⟨hmakes, hinstalls⟩ := installs_after_power_cycle hne c ha hpos hsum ht
  exact ⟨hmakes, hinstalls, fun d hd => run_other (powerCycle_node c a sizes) hd y⟩

theorem updates_after_power_cycle_given_up : let y := run (step ServerRuns.rom4) .boot givenUp
    (run (step ServerRuns.rom4) y (.powerCycle 1 :: alone 1 (ClientRuns.succeed 3) [3, 1])).installs 1 =
      y.installs 1 ++ [⟨⟨0, 0x11, 0x110000⟩, ServerRuns.rom4.image⟩] :=
  (updates_after_power_cycle ServerRuns.rom4 (by decide) givenUp 1 succeeds_succeed
    (by simp : ∀ size ∈ ([3, 1] : List UInt8), 0 < size.toNat) (by decide)).2.1

end EspOta.Zigbee.Network
