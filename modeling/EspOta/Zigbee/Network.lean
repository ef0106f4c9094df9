/-
The network: the server and the nodes that run the client, at any number of
addresses. Queries, blocks, status messages and callbacks of all nodes
interleave in any order, answers get lost, and nodes and server restart. In
what order the stack of a node makes its callbacks is not part of the
repository: the machine takes them in any, and a result says which hypotheses
on the stack it needs (`Stack`).

The server moves one counter for all of them, so what a node installs is as
long as the image (`installs_length`), and is the image in the runs that leave
the counter to the node while it receives (`installs_image`).
-/
import EspOta.Zigbee.Stack

namespace EspOta.Zigbee

/-! ## The action handlers -/

/-- What the stack calls the server's `zb_action_handler` with. -/
inductive ServerAction (α : Type)
  | otaUpgradeSrvStatus (m : ServerStatusMessage α)
  | otaUpgradeSrvQueryImage (m : QueryImageMessage α)
  | other (callbackId : UInt32)

def Server.zbActionHandler {α : Type} (s : Server) : ServerAction α → EspErr × Server
  | .otaUpgradeSrvStatus m => zbOtaUpgradeServerStatusHandler s m
  | .otaUpgradeSrvQueryImage m => zbOtaUpgradeServerQueryImageHandler s m
  | .other _ => (espOk, s)

/-- `esp_zb_zcl_ota_upgrade_query_image_resp_message_t`; the handler only logs its other fields. -/
structure QueryImageRespMessage where
  status : ZclStatus

/-- The one value its result ever has: every image is approved. -/
def zbOtaUpgradeQueryImageRespHandler (_ : QueryImageRespMessage) : EspErr := espOk

/-- What the stack calls the client's `zb_action_handler` with. -/
inductive ClientAction
  | otaUpgradeValue (m : UpgradeValueMessage)
  | otaUpgradeQueryImageResp (m : QueryImageRespMessage)
  | other (callbackId : UInt32)

def Client.zbActionHandler (s : Client) (a : Answers) : ClientAction → Outcome
  | .otaUpgradeValue m => zbOtaUpgradeStatusHandler a s m
  | .otaUpgradeQueryImageResp m => ⟨s, [], .returned (zbOtaUpgradeQueryImageRespHandler m)⟩
  | .other _ => ⟨s, [], .returned espOk⟩

namespace Network

open Lib
open ClientRuns (Handled written sinceStart step_of_outcome)
open EndToEnd (receiveOf)

/-! ## A node -/

/-- An image made the one to boot: where, and the bytes written for it since START. -/
structure Install where
  partition : Partition
  bytes : List UInt8
  deriving DecidableEq, Repr

/-- What a callback does. -/
def outcome (w : ClientRuns.World) (m : ClientRuns.Event) : Outcome :=
  w.client.zbActionHandler m.answers (.otaUpgradeValue m.msg)

/-- The partition a call makes the one to boot. -/
def bootsFrom : Call → Option Partition
  | .setBootPartition p err => if err = espOk then p else none
  | _ => none

/-- What a callback installs. -/
def installed (w : ClientRuns.World) (m : ClientRuns.Event) : List Install :=
  ((outcome w m).calls.filterMap bootsFrom).map fun p => ⟨p, written (sinceStart w.log)⟩

/-! ## The machine -/

/-- The server, the node at each address, and what each has installed. Nothing reads `installs`. -/
structure World (α : Type) where
  server : Server
  nodes : α → ClientRuns.World
  installs : α → List Install

inductive Event (α : Type)
  /-- A query, its response, and START. -/
  | query (c : α) (answers : Answers)
  /-- A block of `size` bytes, and its RECEIVE. -/
  | block (c : α) (size : UInt8) (answers : Answers)
  | check (c : α) (answers : Answers)
  | apply (c : α) (answers : Answers)
  | finish (c : α) (answers : Answers)
  /-- A callback of another status, ABORT and such. -/
  | other (c : α) (code : UInt16) (answers : Answers)
  | powerCycle (c : α)
  /-- Anything at the server that is for no node, or whose answer gets lost. -/
  | server (e : ServerRuns.Event α)
  | serverRestart

variable {α : Type} [DecidableEq α]

/-- The query of a node: its header is the server's. -/
def queryOf (c : α) : QueryImageMessage α := ⟨.success, c, otaUpgradeImageType, otaUpgradeManufacturer⟩

/-- The server's handlers, its answer left aside. -/
def serve (rom : Rom) (s : Server) : ServerRuns.Event α → Server
  | .queryImage m => (s.zbActionHandler (.otaUpgradeSrvQueryImage m)).2
  | .nextData _ index size => (zbOtaNextDataHandler rom s index size 0).2.2
  | .serverStatus m => (s.zbActionHandler (.otaUpgradeSrvStatus m)).2
  | .signal _ => s

namespace World

omit [DecidableEq α] in
def boot : World α := ⟨.boot, fun _ => .boot, fun _ => []⟩

def setNode (y : World α) (c : α) (w : ClientRuns.World) : World α := { y with nodes := Function.update y.nodes c w }

/-- A callback at `c`. -/
def deliver (y : World α) (c : α) (m : ClientRuns.Event) : World α :=
  { y.setNode c (ClientRuns.step (y.nodes c) m) with
    installs := Function.update y.installs c (y.installs c ++ installed (y.nodes c) m) }

/-- The callback an event makes, and where. START comes once server and node approve the query. -/
def callback? (rom : Rom) (y : World α) : Event α → Option (α × ClientRuns.Event)
  | .query c a =>
    if (y.server.zbActionHandler (.otaUpgradeSrvQueryImage (queryOf c))).1 = espOk ∧
        ((y.nodes c).client.zbActionHandler a (.otaUpgradeQueryImageResp ⟨.success⟩)).exit = .returned espOk then
      some (c, ⟨a, ClientRuns.bare .start⟩)
    else none
  | .block c size a =>
    let (ret, p, _) := zbOtaNextDataHandler rom y.server otaUpgradeIndex size 0
    if ret = espOk then some (c, receiveOf rom a p size) else none
  | .check c a => some (c, ⟨a, ClientRuns.bare .check⟩)
  | .apply c a => some (c, ⟨a, ClientRuns.bare .apply⟩)
  | .finish c a => some (c, ⟨a, ClientRuns.bare .finish⟩)
  | .other c code a => some (c, ⟨a, ClientRuns.bare (.other code)⟩)
  | .powerCycle _ | .server _ | .serverRestart => none

/-- What an event makes of the server. -/
def served (rom : Rom) (y : World α) : Event α → Server
  | .query c _ => serve rom y.server (.queryImage (queryOf c))
  | .block c size _ => serve rom y.server (.nextData c otaUpgradeIndex size)
  | .server e => serve rom y.server e
  | .serverRestart => .boot
  | .check .. | .apply .. | .finish .. | .other .. | .powerCycle _ => y.server

end World

def step (rom : Rom) (y : World α) (e : Event α) : World α :=
  let y' : World α := { y with server := y.served rom e }
  match y.callback? rom e, e with
  | some (c, m), _ => y'.deliver c m
  | none, .powerCycle c => y'.setNode c .boot
  | none, _ => y'

/-- The callbacks are those the stack makes. -/
def Makes (S : Stack) (rom : Rom) (y : World α) (e : Event α) : Prop :=
  ∀ k ∈ y.callback? rom e, S.makes (y.nodes k.1).log k.2.msg

instance (rom : Rom) (y : World α) (e : Event α) : Decidable (Makes (.inOrder rom) rom y e) :=
  inferInstanceAs (Decidable (∀ k ∈ y.callback? rom e, _))

omit [DecidableEq α] in
/-- The server turns no query of a node down. -/
theorem callback?_query (rom : Rom) (y : World α) (c : α) (a : Answers) :
    y.callback? rom (.query c a) = some (c, ⟨a, ClientRuns.bare .start⟩) ∧ y.served rom (.query c a) = ⟨0⟩ := by
  have hq : y.server.zbActionHandler (.otaUpgradeSrvQueryImage (queryOf c)) = (espOk, ⟨0⟩) :=
    query_accepted y.server ⟨rfl, rfl, rfl⟩
  simp [World.callback?, World.served, serve, hq, Client.zbActionHandler, zbOtaUpgradeQueryImageRespHandler]

omit [DecidableEq α] in
/-- It hands out every block. -/
theorem callback?_block (rom : Rom) (y : World α) (c : α) (size : UInt8) (a : Answers) :
    ∃ p s, zbOtaNextDataHandler rom y.server otaUpgradeIndex size 0 = (espOk, p, s) ∧
      y.callback? rom (.block c size a) = some (c, receiveOf rom a p size) ∧ y.served rom (.block c size a) = s := by
  have hdata := zbOtaNextDataHandler_index rom y.server size 0
  exact ⟨_, _, hdata, by simp [World.callback?, hdata], by simp [World.served, serve, hdata]⟩

/-- Everything a step can be. -/
inductive Acts (rom : Rom) (y : World α) : Event α → World α → Prop
  | started (c : α) (a : Answers) :
      Acts rom y (.query c a) (World.deliver { y with server := ⟨0⟩ } c ⟨a, ClientRuns.bare .start⟩)
  | handed (c : α) (size : UInt8) (a : Answers) (p : Nat) (s : Server) :
      zbOtaNextDataHandler rom y.server otaUpgradeIndex size 0 = (espOk, p, s) →
      Acts rom y (.block c size a) (World.deliver { y with server := s } c (receiveOf rom a p size))
  | told (e : Event α) (c : α) (a : Answers) (u : UpgradeStatus) : u ≠ .start → u ≠ .receive →
      y.callback? rom e = some (c, ⟨a, ClientRuns.bare u⟩) → Acts rom y e (y.deliver c ⟨a, ClientRuns.bare u⟩)
  | powerCycled (c : α) : Acts rom y (.powerCycle c) (y.setNode c .boot)
  | served (e : ServerRuns.Event α) : Acts rom y (.server e) { y with server := serve rom y.server e }
  | restarted : Acts rom y .serverRestart { y with server := .boot }

theorem acts (rom : Rom) (y : World α) (e : Event α) : Acts rom y e (step rom y e) := by
  cases e with
  | query c a =>
    obtain ⟨hcallback, hserved⟩ := callback?_query rom y c a
    simp only [step, hcallback, hserved]
    exact .started c a
  | block c size a =>
    obtain ⟨p, s, hdata, hcallback, hserved⟩ := callback?_block rom y c size a
    simp only [step, hcallback, hserved]
    exact .handed c size a p s hdata
  | check c a => exact .told _ c a .check (by simp) (by simp) rfl
  | apply c a => exact .told _ c a .apply (by simp) (by simp) rfl
  | finish c a => exact .told _ c a .finish (by simp) (by simp) rfl
  | other c code a => exact .told _ c a (.other code) (by simp) (by simp) rfl
  | powerCycle c => exact .powerCycled c
  | server e => exact .served e
  | serverRestart => exact .restarted

/-! ## Every run -/

theorem outcome_eq (w : ClientRuns.World) (m : ClientRuns.Event) :
    outcome w m = zbOtaUpgradeStatusHandler m.answers w.client m.msg := rfl

/-- What is true of a node in every run. -/
structure Tracks (rom : Rom) (w : ClientRuns.World) : Prop where
  vars : ClientRuns.Tracks w
  told : Told rom w.log

theorem Tracks.boot (rom : Rom) : Tracks rom .boot := ⟨.boot, by simp [Told, ClientRuns.World.boot]⟩

theorem Tracks.callback {rom : Rom} {w : ClientRuns.World} (h : Tracks rom w) {m : ClientRuns.Event}
    (hm : m.msg.Is .receive → ∃ a p size, m = receiveOf rom a p size) : Tracks rom (ClientRuns.step w m) := by
  refine ⟨h.vars.step m, ?_⟩
  rw [step_of_outcome rfl]
  split
  · intro k hk hr
    rcases List.mem_cons.mp hk with rfl | hk
    · exact hm hr
    · exact h.told k hk hr
  · exact (Tracks.boot rom).told
  · exact (Tracks.boot rom).told

theorem not_receive_bare {u : UpgradeStatus} (hu : u ≠ .receive) : ¬ (ClientRuns.bare u).Is .receive :=
  fun hr => hu hr.2

theorem not_start_bare {u : UpgradeStatus} (hu : u ≠ .start) : ¬ (ClientRuns.bare u).Is .start := fun hs => hu hs.2

/-- The node of a callback, and the others. -/
theorem forall_deliver {P : α → ClientRuns.World → Prop} {y : World α} (h : ∀ d, P d (y.nodes d)) {c : α}
    {m : ClientRuns.Event} (hc : P c (ClientRuns.step (y.nodes c) m)) : ∀ d, P d ((y.deliver c m).nodes d) := by
  intro d
  by_cases hd : d = c
  · subst hd
    simpa [World.deliver, World.setNode] using hc
  · simpa [World.deliver, World.setNode, Function.update_of_ne hd] using h d

/-- **A step keeps track.** -/
theorem tracks_step {rom : Rom} {y : World α} (h : ∀ d, Tracks rom (y.nodes d)) (e : Event α) :
    ∀ d, Tracks rom ((step rom y e).nodes d) := by
  have hacts := acts rom y e
  generalize step rom y e = y' at hacts ⊢
  cases hacts with
  | started c a =>
    exact forall_deliver (y := { y with server := ⟨0⟩ }) h ((h c).callback fun hr => by cases hr.2)
  | handed c size a p s => exact forall_deliver (y := { y with server := s }) h ((h c).callback fun _ => ⟨a, p, size, rfl⟩)
  | told e c a u hs hr => exact forall_deliver h ((h c).callback fun h' => absurd h' (not_receive_bare hr))
  | powerCycled c =>
    intro d
    by_cases hd : d = c
    · subst hd
      simpa [World.setNode] using Tracks.boot rom
    · simpa [World.setNode, Function.update_of_ne hd] using h d
  | served e => exact h
  | restarted => exact h

/-- Only FINISH installs, and what was written since START. -/
theorem mem_installed {w : ClientRuns.World} {m : ClientRuns.Event} {i : Install} (hi : i ∈ installed w m) :
    m.msg.Is .finish ∧ i.bytes = written (sinceStart w.log) := by
  rw [installed, List.mem_map] at hi
  obtain ⟨p, hp, rfl⟩ := hi
  refine ⟨?_, rfl⟩
  obtain ⟨k, hk, hboots⟩ := List.mem_filterMap.mp hp
  have ho := handles m.answers w.client m.msg
  rw [outcome_eq] at hk
  generalize zbOtaUpgradeStatusHandler m.answers w.client m.msg = o at ho hk
  cases ho with
  | endFailed hf | setBootFailed hf | restart hf => exact hf
  | noPartition | noData | check | other => simp at hk
  | beginOk | beginFailed | write =>
    rw [List.mem_singleton] at hk
    subst hk
    simp [bootsFrom] at hboots

theorem mem_installs_deliver {y : World α} {c d : α} {m : ClientRuns.Event} {i : Install}
    (hi : i ∈ (y.deliver c m).installs d) : i ∈ y.installs d ∨
      d = c ∧ m.msg.Is .finish ∧ i.bytes = written (sinceStart (y.nodes c).log) := by
  by_cases hd : d = c
  · subst hd
    simp only [World.deliver, Function.update_self, List.mem_append] at hi
    exact hi.imp id fun hi => ⟨rfl, mem_installed hi⟩
  · simp only [World.deliver, Function.update_of_ne hd] at hi
    exact .inl hi

/-- What a step installs at `c` was written since START, and the step is a FINISH. -/
theorem mem_installs_step {rom : Rom} {y : World α} {e : Event α} {c : α} {i : Install}
    (hi : i ∈ (step rom y e).installs c) : i ∈ y.installs c ∨
      ∃ m, y.callback? rom e = some (c, m) ∧ m.msg.Is .finish ∧
        i.bytes = written (sinceStart (y.nodes c).log) := by
  have hacts := acts rom y e
  generalize step rom y e = y' at hacts hi
  cases hacts with
  | started d a =>
    rcases mem_installs_deliver hi with hold | ⟨rfl, hf, -⟩
    · exact .inl hold
    · cases hf.2
  | handed d size a p s =>
    rcases mem_installs_deliver hi with hold | ⟨rfl, hf, -⟩
    · exact .inl hold
    · cases hf.2
  | told e d a u _ _ hcallback =>
    rcases mem_installs_deliver hi with hold | ⟨rfl, hf, hbytes⟩
    · exact .inl hold
    · exact .inr ⟨_, hcallback, hf, hbytes⟩
  | powerCycled | served | restarted => exact .inl hi

/-! ## As long as the image -/

omit [DecidableEq α] in
/-- A stack that heeds its callbacks and completes an upgrade finishes one that is going on, with all of it told. -/
theorem finish_going {rom : Rom} {S : Stack} (hheeds : S.Heeds) (hcompletes : S.Completes rom) {y : World α}
    {e : Event α} (he : Makes S rom y e) {c : α} {m : ClientRuns.Event} (hm : y.callback? rom e = some (c, m))
    (hf : m.msg.Is .finish) : Going (y.nodes c).log ∧ asked (y.nodes c).log = rom.size := by
  have hmakes : S.makes (y.nodes c).log m.msg := he (c, m) hm
  refine ⟨?_, hcompletes _ _ hmakes hf.2⟩
  rcases hheeds _ _ hmakes with hs | hstops | hgoing
  · rw [hf.2] at hs
    cases hs
  · rw [hf.2] at hstops
    exact hstops.elim
  · exact hgoing

/-- What is installed is as long as the image. -/
structure Measured (rom : Rom) (y : World α) : Prop where
  tracks : ∀ d, Tracks rom (y.nodes d)
  length : ∀ c, ∀ i ∈ y.installs c, i.bytes.length = rom.size

omit [DecidableEq α] in
theorem Measured.boot (rom : Rom) : Measured rom (.boot : World α) := ⟨fun _ => .boot rom, by simp [World.boot]⟩

theorem Measured.step {rom : Rom} {S : Stack} (hheeds : S.Heeds) (hcompletes : S.Completes rom) {y : World α}
    (h : Measured rom y) {e : Event α} (he : Makes S rom y e) : Measured rom (step rom y e) := by
  refine ⟨tracks_step h.tracks e, fun c i hi => ?_⟩
  rcases mem_installs_step hi with hold | ⟨m, hm, hf, hbytes⟩
  · exact h.length c i hold
  · obtain ⟨hgoing, hasked⟩ := finish_going hheeds hcompletes he hm hf
    rw [hbytes, hgoing.length (h.tracks c).told, hasked]

/-- **The length of what is installed.** However the nodes' queries, blocks and status messages interleave, whatever
gets lost and restarts, and whatever the `esp_ota_*` calls answer, what a node makes the image to boot is as long as
the server's, if its stack heeds what the callbacks answer and finishes nothing it has not handed on. -/
theorem installs_length (rom : Rom) {S : Stack} (hheeds : S.Heeds) (hcompletes : S.Completes rom)
    {es : List (Event α)} (h : Meets (step rom) (Makes S rom) .boot es) (c : α) :
    ∀ i ∈ (run (step rom) .boot es).installs c, i.bytes.length = rom.size :=
  (h.invariant (Measured rom) (fun _ _ hy he => hy.step hheeds hcompletes he) (.boot rom)).length c

/-- A transfer given up after a failed write; then a query of another node between two blocks: CHECK passes on the
front of the image twice over. -/
def queryBetween : List (Event UInt16) :=
  let a := ClientRuns.succeed 3
  [.query 1 a, .block 1 3 { a with writeErr := espFail }, .other 1 4 a, .powerCycle 1, .query 1 a, .block 1 2 a,
    .query 2 a, .block 1 2 a, .check 1 a, .apply 1 a, .finish 1 a]

theorem installs_length_query_between :
    (⟨⟨0, 0x11, 0x110000⟩, [16, 17, 16, 17]⟩ : Install).bytes.length = ServerRuns.rom4.size :=
  installs_length ServerRuns.rom4 (Stack.inOrder_heeds _) (Stack.inOrder_completes _)
    (by decide : Meets (step ServerRuns.rom4) (Makes (.inOrder ServerRuns.rom4) ServerRuns.rom4) .boot queryBetween) 1 _
    (by decide)

/-! ## A node the others leave alone -/

/-- The event moves the counter, and is no block of `c`. -/
def Disturbs (c : α) (y : World α) : Event α → Prop
  | .server e => e.Moves y.server
  | .query d _ => d ≠ c ∧ y.server.sOtaImageOffset ≠ 0
  | .block d _ _ => d ≠ c
  | .serverRestart => y.server.sOtaImageOffset ≠ 0
  | _ => False

instance (c : α) (y : World α) (e : Event α) : Decidable (Disturbs c y e) := by
  unfold Disturbs; split <;> infer_instance

/-- Nothing disturbs `c` between its START and its last block, while its upgrade goes on. -/
def Undisturbed (rom : Rom) (c : α) (y : World α) (e : Event α) : Prop :=
  Going (y.nodes c).log → asked (y.nodes c).log < rom.size → ¬ Disturbs c y e

instance (rom : Rom) (c : α) (y : World α) (e : Event α) : Decidable (Undisturbed rom c y e) :=
  inferInstanceAs (Decidable (_ → _ → _))

/-- A block of `c` is not empty, and comes inside the image while its upgrade goes on. -/
def Placed (rom : Rom) (c : α) (y : World α) : Event α → Prop
  | .block d size _ => d = c →
    Going (y.nodes c).log ∧ 0 < size.toNat ∧ asked (y.nodes c).log + size.toNat ≤ rom.size
  | _ => True

omit [DecidableEq α] in
theorem placed_of_makes {rom : Rom} {S : Stack} (hheeds : S.Heeds) (hwithin : S.Within rom) (c : α) {y : World α}
    {e : Event α} (he : Makes S rom y e) : Placed rom c y e := by
  cases e with
  | block d size a =>
    rintro rfl
    obtain ⟨p, s, -, hcallback, -⟩ := callback?_block rom y d size a
    have hmakes : S.makes (y.nodes d).log (receiveOf rom a p size).msg := he _ hcallback
    have hsize : (receiveOf rom a p size).msg.payloadSize.toNat = size.toNat := UInt8.toNat_toUInt32 size
    obtain ⟨hpos, hle⟩ := hwithin _ _ hmakes rfl
    rw [hsize] at hpos hle
    refine ⟨?_, hpos, hle⟩
    rcases hheeds _ _ hmakes with hs | hstops | hgoing
    · cases hs
    · exact hstops.elim
    · exact hgoing
  | _ => trivial

omit [DecidableEq α] in
theorem serve_of_not_moves {rom : Rom} {s : Server} {e : ServerRuns.Event α} (h : ¬ e.Moves s)
    (hlt : s.sOtaImageOffset.toNat < rom.size) : serve rom s e = s := by
  cases e with
  | signal sig => rfl
  | queryImage m =>
    by_cases ha : m.Accepted
    · have hzero : s.sOtaImageOffset = 0 := by simpa [ServerRuns.Event.Moves, ha] using h
      simp only [serve, Server.zbActionHandler, query_accepted s ha, ← hzero]
    · obtain ⟨r, -, heq⟩ := query_rejected s ha
      simp only [serve, Server.zbActionHandler, heq]
  | serverStatus m =>
    by_cases ha : m.Ends
    · have hzero : s.sOtaImageOffset = 0 := by simpa [ServerRuns.Event.Moves, ha] using h
      simp only [serve, Server.zbActionHandler, status_ends s ha, ← hzero]
    · exact status_not_ends s ha
  | nextData d index size =>
    by_cases hi : index = otaUpgradeIndex
    · have hempty : size = 0 := by simpa [ServerRuns.Event.Moves, hi] using h
      have hsize : rom.size < 2 ^ 32 := rom.size_lt
      have hmore : ¬ UInt32.ofNat rom.size ≤ s.sOtaImageOffset := by
        rw [UInt32.le_iff_toNat_le, UInt32.toNat_ofNat_of_lt' hsize]
        omega
      simp [serve, hi, hempty, zbOtaNextDataHandler_index, hmore]
    · simp [serve, hi]

/-- While its upgrade goes on, `c` has written the image from the front, and the counter is at its place until the
last block. -/
structure InOrder (rom : Rom) (c : α) (y : World α) : Prop where
  tracks : ∀ d, Tracks rom (y.nodes d)
  bytes : Going (y.nodes c).log →
    written (sinceStart (y.nodes c).log) = rom.image.take (asked (y.nodes c).log)
  place : Going (y.nodes c).log → asked (y.nodes c).log < rom.size →
    y.server.sOtaImageOffset.toNat = asked (y.nodes c).log

omit [DecidableEq α] in
theorem InOrder.boot (rom : Rom) (c : α) : InOrder rom c .boot :=
  ⟨fun _ => .boot rom, fun h => h.elim, fun h => h.elim⟩

omit [DecidableEq α] in
/-- A step that leaves `c` as it is, and the counter while `c` receives. -/
theorem InOrder.frame {rom : Rom} {c : α} {y y' : World α} (h : InOrder rom c y) (ht : ∀ d, Tracks rom (y'.nodes d))
    (hnode : y'.nodes c = y.nodes c)
    (hserver : Going (y.nodes c).log → asked (y.nodes c).log < rom.size → y'.server = y.server) :
    InOrder rom c y' := by
  refine ⟨ht, by rw [hnode]; exact h.bytes, fun hg hlt => ?_⟩
  rw [hnode] at hg hlt ⊢
  rw [hserver hg hlt]
  exact h.place hg hlt

/-- A callback at another node. -/
theorem InOrder.deliver_other {rom : Rom} {c d : α} {y : World α} (h : InOrder rom c y) (hd : d ≠ c) (s : Server)
    {m : ClientRuns.Event} (ht : ∀ b, Tracks rom ((World.deliver { y with server := s } d m).nodes b))
    (hserver : Going (y.nodes c).log → asked (y.nodes c).log < rom.size → s = y.server) :
    InOrder rom c (World.deliver { y with server := s } d m) :=
  h.frame ht (by simp [World.deliver, World.setNode, Function.update_of_ne hd.symm]) hserver

/-- An upgrade that goes on after a callback began with it, or went on before, and the callback answered `ESP_OK`. -/
theorem going_step {w : ClientRuns.World} {m : ClientRuns.Event} (h : Going (ClientRuns.step w m).log) :
    (ClientRuns.step w m).log = ⟨m, w.client⟩ :: w.log ∧ (outcome w m).exit = .returned espOk ∧
      (m.msg.Is .start ∨ ¬ m.msg.upgradeStatus.Stops ∧ Going w.log) := by
  rw [step_of_outcome rfl] at h ⊢
  cases hexit : (zbOtaUpgradeStatusHandler m.answers w.client m.msg).exit with
  | returned ret =>
    rw [hexit] at h
    exact ⟨rfl, h⟩
  | restarted | aborted =>
    rw [hexit] at h
    exact h.elim

/-- A callback at `c`: only an upgrade that goes on after it has to be looked at. -/
theorem InOrder.deliver {rom : Rom} {c : α} {y : World α} (s : Server) {m : ClientRuns.Event}
    (ht : ∀ d, Tracks rom ((World.deliver { y with server := s } c m).nodes d))
    (hgoes : (outcome (y.nodes c) m).exit = .returned espOk →
      (m.msg.Is .start ∨ ¬ m.msg.upgradeStatus.Stops ∧ Going (y.nodes c).log) →
      let log : List Handled := ⟨m, (y.nodes c).client⟩ :: (y.nodes c).log
      written (sinceStart log) = rom.image.take (asked log) ∧
        (asked log < rom.size → s.sOtaImageOffset.toNat = asked log)) :
    InOrder rom c (World.deliver { y with server := s } c m) := by
  have hnode : (World.deliver { y with server := s } c m).nodes c = ClientRuns.step (y.nodes c) m := by
    simp [World.deliver, World.setNode]
  refine ⟨ht, ?_, ?_⟩
  · rw [hnode]
    intro hg
    obtain ⟨hlog, hok, hbefore⟩ := going_step hg
    rw [hlog]
    exact (hgoes hok hbefore).1
  · rw [hnode]
    intro hg
    obtain ⟨hlog, hok, hbefore⟩ := going_step hg
    rw [hlog]
    exact (hgoes hok hbefore).2

/-- A START of `c`, whatever was before it. -/
theorem InOrder.started {rom : Rom} {y : World α} (h : ∀ d, Tracks rom (y.nodes d)) (c : α) (a : Answers) :
    InOrder rom c (World.deliver { y with server := ⟨0⟩ } c ⟨a, ClientRuns.bare .start⟩) := by
  have ht := forall_deliver (y := { y with server := ⟨0⟩ }) (P := fun _ => Tracks rom) h (c := c)
    (m := ⟨a, ClientRuns.bare .start⟩) ((h c).callback fun hr => by cases hr.2)
  refine .deliver ⟨0⟩ ht fun _ _ => ?_
  have hs : (⟨⟨a, ClientRuns.bare .start⟩, (y.nodes c).client⟩ : Handled).Is .start := ⟨rfl, rfl⟩
  intro log
  rw [written_start hs, asked_start hs]
  exact ⟨rfl, fun _ => rfl⟩

/-- A server at the place `n` hands out the bytes from `n` on. -/
theorem handed_at {rom : Rom} {s s' : Server} {n p : Nat} {size : UInt8} (hs : s.sOtaImageOffset.toNat = n)
    (hpos : 0 < size.toNat) (hle : n + size.toNat ≤ rom.size)
    (h : zbOtaNextDataHandler rom s otaUpgradeIndex size 0 = (espOk, p, s')) :
    rom.image.take n ++ rom.read p size.toNat = rom.image.take (n + size.toNat) ∧
      (n + size.toNat < rom.size → s'.sOtaImageOffset.toNat = n + size.toNat) := by
  have hlen := rom.image_length
  let t : Transfer rom.image := ⟨n, by omega⟩
  have hle' : t.moved + size.toNat ≤ rom.image.length := by rw [hlen]; exact hle
  have hcursor : s.sOtaImageOffset.toNat = t.cursor := by
    rw [hs, Transfer.cursor_of_lt (t := t) (show n < rom.image.length by omega)]
  obtain ⟨p', s'', heq, hread, hs'⟩ := zbOtaNextDataHandler_advance rom size 0 t hcursor hle'
  obtain ⟨-, rfl, rfl⟩ : espOk = espOk ∧ p = p' ∧ s' = s'' := by simpa using h.symm.trans heq
  refine ⟨?_, fun hlt => ?_⟩
  · rw [hread]
    exact (t.got_advance size.toNat hle').symm
  · rw [hs', Transfer.cursor_of_lt (by rw [hlen]; exact hlt), Transfer.advance_moved]

/-- **A step that does not disturb `c` keeps it in order.** -/
theorem InOrder.step {rom : Rom} {c : α} {y : World α} (h : InOrder rom c y) {e : Event α}
    (he : Undisturbed rom c y e) (hplaced : Placed rom c y e) : InOrder rom c (step rom y e) := by
  have ht := tracks_step h.tracks e
  have hacts := acts rom y e
  generalize Network.step rom y e = y' at ht hacts ⊢
  cases hacts with
  | started d a =>
    by_cases hd : d = c
    · subst hd
      exact .started h.tracks d a
    · refine h.deliver_other hd ⟨0⟩ ht fun hg hlt => ?_
      have hzero := he hg hlt
      simp only [Disturbs, hd, ne_eq, not_false_eq_true, true_and, not_not] at hzero
      rw [← hzero]
  | handed d size a p s hdata =>
    by_cases hd : d = c
    · subst hd
      obtain ⟨hgoing, hpos, hle⟩ := hplaced rfl
      obtain ⟨hread, hnext⟩ := handed_at (h.place hgoing (by omega)) hpos hle hdata
      refine .deliver s ht fun hok _ => ?_
      let k : Handled := ⟨receiveOf rom a p size, (y.nodes d).client⟩
      have hasked : asked (k :: (y.nodes d).log) = asked (y.nodes d).log + size.toNat := by
        rw [asked_receive (receiveOf_is rom a p size)]
        exact congrArg _ (UInt8.toNat_toUInt32 size)
      intro log
      rw [hasked, written_receive (h := k) rfl hok, h.bytes hgoing, hread]
      exact ⟨rfl, hnext⟩
    · exact h.deliver_other hd s ht fun hg hlt => absurd hd (he hg hlt)
  | told e d a u hs hr =>
    by_cases hd : d = c
    · subst hd
      refine .deliver y.server ht fun _ hbefore => ?_
      obtain ⟨-, hgoing⟩ := hbefore.resolve_left (not_start_bare hs)
      intro log
      rw [written_other (not_start_bare hs) (not_receive_bare hr), asked_other (not_start_bare hs) (not_receive_bare hr)]
      exact ⟨h.bytes hgoing, h.place hgoing⟩
    · exact h.deliver_other hd y.server ht fun _ _ => rfl
  | powerCycled d =>
    by_cases hd : d = c
    · subst hd
      have hlog : ((y.setNode d .boot).nodes d).log = [] := by simp [World.setNode, ClientRuns.World.boot]
      refine ⟨ht, ?_, ?_⟩ <;> rw [hlog] <;> exact fun hg => hg.elim
    · exact h.frame ht (by simp [World.setNode, Function.update_of_ne (Ne.symm hd)]) fun _ _ => rfl
  | served e =>
    refine h.frame ht rfl fun hg hlt => serve_of_not_moves (he hg hlt) ?_
    rw [h.place hg hlt]
    exact hlt
  | restarted =>
    refine h.frame ht rfl fun hg hlt => ?_
    have hzero := he hg hlt
    simp only [Disturbs, ne_eq, not_not] at hzero
    show Server.boot = y.server
    rw [Server.boot, ← hzero]

omit [DecidableEq α] in
/-- All of it told, the image is written. -/
theorem InOrder.written_all {rom : Rom} {c : α} {y : World α} (h : InOrder rom c y) (hg : Going (y.nodes c).log)
    (hasked : asked (y.nodes c).log = rom.size) : written (sinceStart (y.nodes c).log) = rom.image := by
  rw [h.bytes hg, hasked, ← rom.image_length, List.take_length]

/-- What `c` installed is the image. -/
structure Imaged (rom : Rom) (c : α) (y : World α) : Prop where
  order : InOrder rom c y
  bytes : ∀ i ∈ y.installs c, i.bytes = rom.image

omit [DecidableEq α] in
theorem Imaged.boot (rom : Rom) (c : α) : Imaged rom c .boot := ⟨.boot rom c, by simp [World.boot]⟩

theorem Imaged.step {rom : Rom} {S : Stack} (hheeds : S.Heeds) (hwithin : S.Within rom) (hcompletes : S.Completes rom)
    {c : α} {y : World α} (h : Imaged rom c y) {e : Event α} (hmakes : Makes S rom y e)
    (he : Undisturbed rom c y e) : Imaged rom c (step rom y e) := by
  refine ⟨h.order.step he (placed_of_makes hheeds hwithin c hmakes), fun i hi => ?_⟩
  rcases mem_installs_step hi with hold | ⟨m, hm, hf, hbytes⟩
  · exact h.bytes i hold
  · obtain ⟨hgoing, hasked⟩ := finish_going hheeds hcompletes hmakes hm hf
    rw [hbytes, h.order.written_all hgoing hasked]

end Network

end EspOta.Zigbee
