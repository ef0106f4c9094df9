/-
The receiver at the end of a link that loses any packages and garbles others:
it flips at most one bit of each command package, and at most one of what the
packages of each sector carry.

The check values find every such error, and a lost package makes its sector
too short. The receiver then waits for that sector for good, since the sender
goes on to the next: what it accepts is always the firmware from the front
(`Noise.heard`), and all of it only when no package of the firmware was lost
(`Noise.all_arrived`).
-/
import EspOta.Ble.SectorCheck

namespace EspOta.Ble

open Lib

/-! ## One flipped bit -/

theorem differences_append {as bs cs ds : Bytes} (h : as.length = cs.length) :
    differences (as ++ bs) (cs ++ ds) = differences as cs ++ differences bs ds := by
  rw [differences, List.flatMap_append, List.flatMap_append, List.zipWith_append (by simp [h])]
  rfl

theorem eq_of_no_difference {as bs : Bytes} (hlen : as.length = bs.length)
    (h : (differences as bs).count true = 0) : as = bs := by
  by_contra hne
  exact List.count_eq_zero.mp h (true_mem_differences hlen hne)

/-- **A check value finds one flipped bit**, in the bytes it is the check of or in itself. -/
theorem crc16_one_bit {data data' sum sum' : Bytes} (hsize : data.length ≤ sectorSize)
    (hdata : data'.length = data.length) (hsum : sum'.length = sum.length)
    (hbits : (differences (data' ++ sum') (data ++ sum)).count true ≤ 1)
    (hcrc : ofLe sum = crc16 data) (hcrc' : ofLe sum' = crc16 data') : data' = data := by
  by_contra hne
  rw [differences_append hdata, List.count_append] at hbits
  have hpos := List.count_pos_iff.mpr (true_mem_differences hdata hne)
  have hone : (differences data' data).count true = 1 := by omega
  have hsame : sum' = sum := eq_of_no_difference hsum (by omega)
  have hends : differences data' data = extremeBits := by
    refine (crc16_few hdata hsize hne (.inl hone)).mp ?_
    rw [← hcrc', hsame, hcrc]
  rw [hends, extremeBits_count] at hone
  omega

/-! ## Commands -/

/-- A package with the same number of bytes and at most one bit flipped. -/
structure OneBit (sent arrives : Bytes) : Prop where
  length : arrives.length = sent.length
  bits : (differences arrives sent).count true ≤ 1

theorem OneBit.refl (p : Bytes) : OneBit p p := by
  refine ⟨rfl, ?_⟩
  have hno : true ∉ differences p p := by
    rw [differences, List.zipWith_self]
    simp
  rw [List.count_eq_zero.mpr hno]
  omega

/-- A garbled command is none, or says what the command sent says. -/
theorem OneBit.command {p q : Bytes} (h : OneBit p q) (hp : IsCommand p) (hq : IsCommand q) :
    commandId q = commandId p ∧ announcedLength q = announcedLength p := by
  have hcut : ∀ r : Bytes, r.length = 20 → r.extract 0 18 ++ r.extract 18 20 = r := by
    intro r hr
    have htail : (r.drop 18).take (20 - 18) = r.drop 18 := List.take_of_length_le (by simp [hr])
    rw [List.extract_eq_take_drop, List.extract_eq_take_drop, List.drop_zero, htail]
    exact List.take_append_drop 18 r
  have hsame : q.extract 0 18 = p.extract 0 18 := by
    refine crc16_one_bit ?_ (by simp [hp.1, hq.1]) (by simp [hp.1, hq.1]) ?_ hp.2 hq.2
    · simp [hp.1, sectorSize]
    · rw [hcut q hq.1, hcut p hp.1]
      exact h.bits
  have hpart : ∀ n m, m ≤ 18 → q.extract n m = p.extract n m := by
    intro n m hm
    have hinner : ∀ r : Bytes, r.extract n m = (r.extract 0 18).extract n m := by
      intro r
      simp only [List.extract_eq_take_drop, List.drop_zero, List.drop_take, List.take_take]
      congr 1
      omega
    rw [hinner q, hsame, ← hinner p]
  exact ⟨congrArg ofLe (hpart 0 2 (by omega)), congrArg ofLe (hpart 2 6 (by omega))⟩

/-- A garbled command is heard as the one sent, or not at all. -/
theorem OneBit.receive {p q : Bytes} (h : OneBit p q) (hp : IsCommand p) (r : Option Download) :
    (receive r ⟨.command, q⟩).1 = r ∨ receive r ⟨.command, q⟩ = receive r ⟨.command, p⟩ := by
  by_cases hq : IsCommand q
  · obtain ⟨hid, hlen⟩ := h.command hp hq
    right
    simp only [Ble.receive, hp, hq, hid, hlen]
  · left
    simp [Ble.receive, hq]

/-! ## A sector -/

/-- What the packages of the `i`-th sector become if none is lost: the index and the number of each arrive as they
are, and at most one bit of what they carry is flipped. -/
structure Garbles (i : Nat) (sector : Bytes) (arrives : Nat → Bytes) : Prop where
  header : ∀ j < packetCount sector, (arrives j).take 3 = (firmwarePacket i sector j).take 3
  length : ∀ j < packetCount sector, (arrives j).length = (firmwarePacket i sector j).length
  bits : (differences (((List.range (packetCount sector)).map arrives).flatMap packetPayload)
    ((sectorPackets i sector).flatMap packetPayload)).count true ≤ 1

theorem Garbles.refl (i : Nat) (sector : Bytes) : Garbles i sector (firmwarePacket i sector) :=
  ⟨fun _ _ => rfl, fun _ _ => rfl, (OneBit.refl _).bits⟩

theorem fields_of_header {p q : Bytes} (h : p.take 3 = q.take 3) :
    packetIndex p = packetIndex q ∧ packetSeq p = packetSeq q := by
  have hpart : ∀ n m, m ≤ 3 → p.extract n m = q.extract n m := by
    intro n m hm
    have hinner : ∀ r : Bytes, r.extract n m = (r.take 3).extract n m := by
      intro r
      simp only [List.extract_eq_take_drop, List.drop_take, List.take_take]
      congr 1
      omega
    rw [hinner p, h, ← hinner q]
  exact ⟨congrArg ofLe (hpart 0 2 (by omega)), congrArg ofLe (hpart 2 3 (by omega))⟩

/-- Packages of other sectors change nothing. -/
theorem Download.receive_others {d : Download} {ps : List Bytes} (h : ∀ p ∈ ps, packetIndex p ≠ d.expected) :
    d.receivePackets ps = d := by
  induction ps with
  | nil => rfl
  | cons p ps ih =>
    have hp : (d.receivePacket p).1 = d := by
      unfold receivePacket
      split
      · rfl
      · rw [if_pos (h p List.mem_cons_self)]
    show (d.receivePacket p).1.receivePackets ps = d
    rw [hp]
    exact ih fun q hq => h q (List.mem_cons_of_mem _ hq)

section
variable {i : Nat} {sector : Bytes} {arrives : Nat → Bytes}

theorem Garbles.payload_length (h : Garbles i sector arrives) {j : Nat} (hj : j < packetCount sector) :
    (packetPayload (arrives j)).length = (packetPayload (firmwarePacket i sector j)).length := by
  simp only [packetPayload, List.length_drop, h.length j hj]

variable (hi : i < 256 ^ 2)
include hi

theorem Garbles.continues (h : Garbles i sector arrives) (hle : sector.length ≤ sectorSize) {d : Download}
    (hd : d.expected = i) {j : Nat} (hj : j < packetCount sector - 1) : d.Continues (arrives j) := by
  have hk := packetCount_le hle
  obtain ⟨hl, hindex, hseq, -⟩ := firmwarePacket_fields hi hle hj
  obtain ⟨hindex', hseq'⟩ := fields_of_header (h.header j (by omega))
  refine ⟨?_, ?_, ?_⟩
  · rw [h.length j (by omega)]; exact hl
  · rw [hindex', hindex, hd]
  · rw [hseq', hseq]; omega

theorem Garbles.ends (h : Garbles i sector arrives) {d : Download} (hd : d.expected = i)
    (hpos : 0 < sector.length) : d.Ends (arrives (packetCount sector - 1)) := by
  have hk := packetCount_pos hpos
  obtain ⟨hl, hindex, hseq, -⟩ := lastPacket_fields hi hpos
  rw [lastPacket] at hl hindex hseq
  obtain ⟨hindex', hseq'⟩ := fields_of_header (h.header (packetCount sector - 1) (by omega))
  refine ⟨?_, ?_, ?_⟩
  · rw [h.length _ (by omega)]; exact hl
  · rw [hindex', hindex, hd]
  · rw [hseq', hseq]

end

/-- What is too short for the sector awaited is refused. -/
theorem Download.close_short {d : Download} {data : Bytes} (hd : d.buffer = [])
    (h : (sectorBody data).length < d.awaited) : ({ d with buffer := data } : Download).close.1 = d := by
  have hawait : ({ d with buffer := data } : Download).awaited = d.awaited := rfl
  simp only [close, hawait]
  rw [if_pos (.inr h), ← hd]

/-- A sector with one bit flipped in it, in the padding or in the check value is refused, or accepted as sent. -/
theorem Download.close_garbled {d : Download} {sector padding data : Bytes} (hd : d.buffer = [])
    (hawaited : d.awaited = sector.length) (hpos : 0 < sector.length) (hle : sector.length ≤ sectorSize)
    (hlen : data.length = sector.length + padding.length + 2)
    (hbits : (differences data ((sector ++ padding) ++ packLe 2 (crc16 sector))).count true ≤ 1) :
    ({ d with buffer := data } : Download).close.1 = { d with accepted := d.accepted ++ [sector] } ∨
      ({ d with buffer := data } : Download).close.1 = d := by
  let body := data.take (data.length - 2)
  let sector' := body.take sector.length
  let padding' := body.drop sector.length
  let sum' := data.drop (data.length - 2)
  have hsector : sector'.length = sector.length := by simp [sector', body]; omega
  have hpadding : padding'.length = padding.length := by simp [padding', body]; omega
  have hsum : sum'.length = (packLe 2 (crc16 sector)).length := by simp [sum']; omega
  have hdata : data = (sector' ++ padding') ++ sum' := by
    rw [List.take_append_drop, List.take_append_drop]
  have hparts : (differences (sector' ++ sum') (sector ++ packLe 2 (crc16 sector))).count true ≤ 1 := by
    rw [hdata, differences_append (by simp [hsector, hpadding]), differences_append hsector,
      List.count_append, List.count_append] at hbits
    rw [differences_append hsector, List.count_append]
    omega
  have hawait : ({ d with buffer := data } : Download).awaited = sector.length := hawaited
  have hlong : ¬ (sector.length = 0 ∨ (sectorBody data).length < sector.length) := by
    simp only [sectorBody, List.length_take]
    omega
  simp only [close, hawait]
  rw [if_neg hlong]
  split
  · right; rw [← hd]
  · left
    rename_i hcrc
    have hsame : sector' = sector :=
      crc16_one_bit hle hsector hsum hparts (ofLe_packLe (crc16_lt sector)) (Decidable.not_not.mp hcrc)
    show ({ d with accepted := d.accepted ++ [sector'], buffer := [] } : Download) = _
    rw [hsame, ← hd]

/-- What a sector's packages carry, but for the last. -/
theorem Garbles.first_payload {i : Nat} {sector : Bytes} {arrives : Nat → Bytes} (h : Garbles i sector arrives)
    (hi : i < 256 ^ 2) (hle : sector.length ≤ sectorSize) {j : Nat} (hj : j < packetCount sector - 1) :
    (packetPayload (arrives j)).length = mtuSize - 4 := by
  rw [h.payload_length (by omega), (firmwarePacket_fields hi hle hj).2.2.2, block_length]
  simp only [packetCount, blockCount, mtuSize] at *
  omega

/-- What the last package carries: the end of the sector, filled up, and the check value. -/
theorem Garbles.last_payload {i : Nat} {sector : Bytes} {arrives : Nat → Bytes} (h : Garbles i sector arrives)
    (hi : i < 256 ^ 2) (hpos : 0 < sector.length) : (packetPayload (arrives (packetCount sector - 1))).length =
      max (sector.length - (packetCount sector - 1) * (mtuSize - 4)) (mtuSize - 6) + 2 := by
  have hk := packetCount_pos hpos
  have hlast := (lastPacket_fields hi hpos).2.2.2
  rw [lastPacket] at hlast
  rw [h.payload_length (by omega), hlast]
  simp only [sectorPadding, List.length_append, List.length_replicate, block_length, packLe_length]
  simp only [packetCount, blockCount, mtuSize] at *
  omega

/-- What all of them carry. -/
theorem Garbles.payload {i : Nat} {sector : Bytes} {arrives : Nat → Bytes} (h : Garbles i sector arrives)
    (hi : i < 256 ^ 2) (hpos : 0 < sector.length) (hle : sector.length ≤ sectorSize) :
    (((List.range (packetCount sector)).map arrives).flatMap packetPayload).length =
      sector.length + (sectorPadding sector).length + 2 := by
  have hsent := congrArg List.length (payloads_eq hi hpos hle)
  rw [List.length_append, List.length_append, packLe_length] at hsent
  rw [← hsent, sectorPackets, List.length_flatMap, List.length_flatMap, List.map_map, List.map_map]
  congr 1
  exact List.map_congr_left fun j hj => h.payload_length (List.mem_range.mp hj)

/-- **The packages of the sector awaited**, some of them lost: the sector is accepted when none is missing, and
otherwise waited for. -/
theorem Garbles.heard {i : Nat} {sector : Bytes} {arrives : Nat → Bytes} (h : Garbles i sector arrives)
    (hi : i < 256 ^ 2) (hpos : 0 < sector.length) (hle : sector.length ≤ sectorSize) {d : Download}
    (hd : d.buffer = []) (hexpected : d.expected = i) (hawaited : d.awaited = sector.length) {ps : List Bytes}
    (hps : ps.Sublist ((List.range (packetCount sector)).map arrives)) :
    (ps = (List.range (packetCount sector)).map arrives ∧
      d.receivePackets ps = { d with accepted := d.accepted ++ [sector] }) ∨
    ∃ buffer, d.receivePackets ps = { d with buffer := buffer } := by
  have hk := packetCount_pos hpos
  let first := (List.range (packetCount sector - 1)).map arrives
  let last := arrives (packetCount sector - 1)
  have hall : (List.range (packetCount sector)).map arrives = first ++ [last] := by
    have hsucc : packetCount sector = packetCount sector - 1 + 1 := by omega
    rw [hsucc, List.range_succ, List.map_append]
    rfl
  have hfirst : ∀ {qs : List Bytes}, qs.Sublist first →
      (∀ q ∈ qs, d.Continues q) ∧ (qs.flatMap packetPayload).length = qs.length * (mtuSize - 4) := by
    intro qs hqs
    have hmem : ∀ q ∈ qs, ∃ j < packetCount sector - 1, arrives j = q := by
      intro q hq
      obtain ⟨j, hj, rfl⟩ := List.mem_map.mp (hqs.subset hq)
      exact ⟨j, List.mem_range.mp hj, rfl⟩
    constructor
    · intro q hq
      obtain ⟨j, hj, rfl⟩ := hmem q hq
      exact h.continues hi hle hexpected hj
    · have hsame : ∀ q ∈ qs, (packetPayload q).length = mtuSize - 4 := by
        intro q hq
        obtain ⟨j, hj, rfl⟩ := hmem q hq
        exact h.first_payload hi hle hj
      rw [List.length_flatMap, List.map_congr_left hsame, List.map_const', List.sum_replicate, smul_eq_mul]
  rw [hall] at hps
  obtain ⟨qs, rs, rfl, hqs, hrs⟩ := List.sublist_append_iff.mp hps
  obtain ⟨hcont, hlen⟩ := hfirst hqs
  rcases List.sublist_singleton.mp hrs with rfl | rfl
  -- The last package is lost: the sector is not ended.
  · right
    rw [List.append_nil, Download.receive_continues hcont, hd]
    exact ⟨_, rfl⟩
  · have hends := h.ends hi hexpected hpos
    let data := (qs ++ [last]).flatMap packetPayload
    have hrun : d.receivePackets (qs ++ [last]) = ({ d with buffer := data } : Download).close.1 := by
      have hears : d.Hears qs last data := ⟨hd, hcont, hends, rfl⟩
      show run (fun d p => (d.receivePacket p).1) d (qs ++ [last]) = _
      rw [run_append, run_cons, run_nil]
      exact congrArg Prod.fst hears.receive
    by_cases hwhole : qs = first
    -- None is lost.
    · subst hwhole
      have hdata : data = ((List.range (packetCount sector)).map arrives).flatMap packetPayload := by rw [hall]
      have hbits := h.bits
      rw [← hdata, payloads_eq hi hpos hle] at hbits
      rw [hrun, hall]
      rcases Download.close_garbled hd hawaited hpos hle (hdata ▸ h.payload hi hpos hle) hbits with heq | heq
      · exact .inl ⟨rfl, heq⟩
      · exact .inr ⟨d.buffer, heq⟩
    -- One before the last is lost: the sector is too short.
    · right
      have hfewer : qs.length < packetCount sector - 1 := by
        have hle' := hqs.length_le
        have hne := mt hqs.eq_of_length hwhole
        simp only [first, List.length_map, List.length_range] at hle' hne
        omega
      have hdata : data.length = qs.length * (mtuSize - 4) + (packetPayload last).length := by
        simp only [data, List.flatMap_append, List.flatMap_singleton, List.length_append, hlen]
      have hlast := h.last_payload hi hpos
      have hshort : (sectorBody data).length < d.awaited := by
        rw [sectorBody, List.length_take, hawaited, hdata, hlast]
        simp only [packetCount, blockCount, mtuSize] at *
        omega
      exact ⟨d.buffer, by rw [hrun]; exact Download.close_short hd hshort⟩

/-! ## A whole transfer -/

theorem receive_stop_map (r : Option Download) : (receive r stop).1 = r.map ({ · with stopped := true }) := by
  cases r with
  | none =>
    have hcmd : IsCommand stop.packet := commandPacket_isCommand (by simp) _
    have hid : commandId stop.packet = stopOtaCmd := commandPacket_id (by decide) _
    show (receive none ⟨.command, stop.packet⟩).1 = _
    simp [receive, hcmd, hid, startOtaCmd, stopOtaCmd]
  | some d => exact receive_stop d

/-- What the packages of a firmware become if none is lost. -/
structure Noise (firmware : Bytes) where
  first : Bytes
  packet : Nat → Nat → Bytes
  last : Bytes
  start : OneBit (start firmware).packet first
  sector : ∀ i < sectorCount firmware, Garbles i (sectorOf firmware i) (packet i)
  stop : OneBit stop.packet last

/-- The receiver after the writes. -/
def hear (r : Option Download) (ws : List Write) : Option Download := run (fun r w => (receive r w).1) r ws

theorem hear_append (r : Option Download) (ws vs : List Write) : hear r (ws ++ vs) = hear (hear r ws) vs :=
  run_append _ _ _ _

theorem hear_recvFw (d : Download) (ps : List Bytes) :
    hear (some d) (ps.map (⟨.recvFw, ·⟩)) = some (d.receivePackets ps) := run_recvFw d ps

theorem hear_recvFw_none (ps : List Bytes) : hear none (ps.map (⟨.recvFw, ·⟩)) = none := by
  induction ps with
  | nil => rfl
  | cons p ps ih => exact ih

/-- The receiver of `firmware` that waits for its `m`-th sector. -/
def waiting (firmware : Bytes) (m : Nat) (buffer : Bytes) : Download :=
  { received firmware m with buffer := buffer }

theorem waiting_expected (firmware : Bytes) (m : Nat) (buffer : Bytes) :
    (waiting firmware m buffer).expected = m := by
  simp [waiting, received, Download.expected]

namespace Noise

variable {firmware : Bytes}

/-- Nothing is garbled. -/
def none (firmware : Bytes) : Noise firmware where
  first := (Ble.start firmware).packet
  packet i := firmwarePacket i (sectorOf firmware i)
  last := Ble.stop.packet
  start := .refl _
  sector i _ := .refl i _
  stop := .refl _

/-- The packages of the `i`-th sector. -/
def packets (noise : Noise firmware) (i : Nat) : List Bytes :=
  (List.range (packetCount (sectorOf firmware i))).map (noise.packet i)

/-- The START and the packages of the first `k` sectors. -/
def upTo (noise : Noise firmware) (k : Nat) : List Write :=
  ⟨.command, noise.first⟩ :: (List.range k).flatMap fun i => (noise.packets i).map (⟨.recvFw, ·⟩)

def writes (noise : Noise firmware) : List Write :=
  noise.upTo (sectorCount firmware) ++ [⟨.command, noise.last⟩]

theorem upTo_succ (noise : Noise firmware) (k : Nat) :
    noise.upTo (k + 1) = noise.upTo k ++ (noise.packets k).map (⟨.recvFw, ·⟩) := by
  simp [upTo, List.range_succ]

/-- What the receiver is when some of the START and of the packages of the first `k` sectors have arrived: it
missed the START, or it accepted the sectors, all the packages having arrived, or it waits for an earlier one. -/
inductive Heard (noise : Noise firmware) (k : Nat) (ws : List Write) : Option Download → Prop
  | deaf : Heard noise k ws .none
  | inStep : ws = noise.upTo k → Heard noise k ws (some (received firmware k))
  | behind (m : Nat) (buffer : Bytes) : m < k → Heard noise k ws (some (waiting firmware m buffer))

theorem stop_isCommand : IsCommand Ble.stop.packet := commandPacket_isCommand (by simp) _

theorem stop_commandId : commandId Ble.stop.packet = stopOtaCmd := commandPacket_id (by decide) _

/-- A START is heard first, if at all. -/
theorem start_first (noise : Noise firmware) {vs : List Write} {w : Write}
    (hws : (vs ++ [w]).Sublist noise.writes) (hc : w.characteristic = .command) (hw : IsCommand w.packet)
    (hid : commandId w.packet = startOtaCmd) : vs = [] := by
  obtain ⟨as, bs, heq, has, hbs⟩ := List.sublist_append_iff.mp hws
  rcases List.sublist_singleton.mp hbs with rfl | rfl
  · rw [List.append_nil] at heq
    rw [← heq] at has
    change (vs ++ [w]).Sublist ([⟨.command, noise.first⟩] ++ _) at has
    obtain ⟨cs, ds, heq, hcs, hds⟩ := List.sublist_append_iff.mp has
    rcases List.eq_nil_or_concat' ds with rfl | ⟨es, v, rfl⟩
    · rw [List.append_nil] at heq
      have hlen := hcs.length_le
      rw [← heq, List.length_append, List.length_singleton, List.length_singleton] at hlen
      exact List.eq_nil_of_length_eq_zero (by omega)
    · rw [← List.append_assoc] at heq
      obtain rfl : w = v := List.singleton_inj.mp (List.append_inj' heq rfl).2
      obtain ⟨i, -, hmem⟩ := List.mem_flatMap.mp (hds.subset (List.mem_concat_self))
      obtain ⟨p, -, rfl⟩ := List.mem_map.mp hmem
      cases hc
  · obtain ⟨-, hlast⟩ := List.append_inj' heq rfl
    cases hlast
    rw [(noise.stop.command stop_isCommand hw).1, stop_commandId] at hid
    simp [startOtaCmd, stopOtaCmd] at hid

theorem heard_start (noise : Noise firmware) (h : firmware.length ≤ maxSize) {ws : List Write}
    (hws : ws.Sublist (noise.upTo 0)) : noise.Heard 0 ws (hear .none ws) := by
  have hlen : firmware.length < 256 ^ 4 := by simp only [maxSize, sectorSize] at h; omega
  rcases List.sublist_singleton.mp hws with rfl | rfl
  · exact .deaf
  · have hcommand : IsCommand (Ble.start firmware).packet := commandPacket_isCommand (by simp) startOtaCmd
    rcases noise.start.receive hcommand .none with heq | heq
    · rw [show hear .none [⟨.command, noise.first⟩] = .none from heq]
      exact .deaf
    · have hstart : hear .none [⟨.command, noise.first⟩] = some (received firmware 0) :=
        (congrArg Prod.fst heq).trans (receive_start hlen .none)
      rw [hstart]
      exact .inStep rfl

/-- **One more sector.** -/
theorem Heard.sector {noise : Noise firmware} (h : firmware.length ≤ maxSize) {k : Nat}
    (hk : k < sectorCount firmware) {ws : List Write} {r : Option Download} (hr : noise.Heard k ws r)
    {ps : List Bytes} (hps : ps.Sublist (noise.packets k)) :
    noise.Heard (k + 1) (ws ++ ps.map (⟨.recvFw, ·⟩)) (hear r (ps.map (⟨.recvFw, ·⟩))) := by
  have hi : k < 256 ^ 2 := Nat.lt_of_lt_of_le hk (sectorCount_le h)
  have hpos := sectorOf_length_pos hk
  have hle := sectorOf_length_le firmware k
  have hgarbles := noise.sector k hk
  cases hr with
  | deaf => rw [hear_recvFw_none]; exact .deaf
  | inStep hws =>
    have hexpected : (received firmware k).expected = k := waiting_expected firmware k []
    rw [hear_recvFw]
    have hawaited := received_awaited firmware k
    rcases hgarbles.heard hi hpos hle rfl hexpected hawaited hps with ⟨hall, heq⟩ | ⟨buffer, heq⟩
    · have hnext : ({ received firmware k with
          accepted := (received firmware k).accepted ++ [sectorOf firmware k] } : Download) =
          received firmware (k + 1) := by simp [received, List.range_succ]
      rw [heq, hnext]
      exact .inStep (by rw [hws, hall, noise.upTo_succ]; rfl)
    · rw [heq]
      exact .behind k buffer (Nat.lt_succ_self k)
  | behind m buffer hm =>
    have hothers : ∀ p ∈ ps, packetIndex p ≠ (waiting firmware m buffer).expected := by
      intro p hp
      obtain ⟨j, hj, rfl⟩ := List.mem_map.mp (hps.subset hp)
      have hj := List.mem_range.mp hj
      have hformat := sectorPackets_format hi hpos (block_length _ _ _)
      have hindex := hformat.index (firmwarePacket k (sectorOf firmware k) j)
        (List.mem_map_of_mem (List.mem_range.mpr hj))
      rw [(fields_of_header (hgarbles.header j hj)).1, hindex, waiting_expected]
      omega
    rw [hear_recvFw, Download.receive_others hothers]
    exact .behind m buffer (Nat.lt_succ_of_lt hm)

theorem heard_sectors (noise : Noise firmware) (h : firmware.length ≤ maxSize) {k : Nat}
    (hk : k ≤ sectorCount firmware) {ws : List Write} (hws : ws.Sublist (noise.upTo k)) :
    noise.Heard k ws (hear .none ws) := by
  induction k generalizing ws with
  | zero => exact noise.heard_start h hws
  | succ k ih =>
    rw [noise.upTo_succ] at hws
    obtain ⟨vs, us, rfl, hvs, hus⟩ := List.sublist_append_iff.mp hws
    obtain ⟨ps, hps, rfl⟩ := List.sublist_map_iff.mp hus
    rw [hear_append]
    exact (ih (by omega) hvs).sector h hk hps

/-- **What a receiver can be** at the end of such a link: it has accepted the first sectors of the firmware, and
all of them only when all their packages arrived. -/
theorem heard (noise : Noise firmware) (h : firmware.length ≤ maxSize) {ws : List Write}
    (hws : ws.Sublist noise.writes) {d : Download} (hd : hear .none ws = some d) :
    d.announced = firmware.length ∧ ∃ m ≤ sectorCount firmware,
      d.accepted = (received firmware m).accepted ∧
      (m = sectorCount firmware → noise.upTo (sectorCount firmware) <+: ws) := by
  obtain ⟨vs, us, rfl, hvs, hus⟩ := List.sublist_append_iff.mp hws
  have hstop : ∀ r : Option Download, hear r us = r ∨ hear r us = r.map ({ · with stopped := true }) := by
    intro r
    rcases List.sublist_singleton.mp hus with rfl | rfl
    · exact .inl rfl
    · rcases noise.stop.receive stop_isCommand r with heq | heq
      · exact .inl heq
      · exact .inr ((congrArg Prod.fst heq).trans (receive_stop_map r))
  have hheard := noise.heard_sectors h (Nat.le_refl _) hvs
  rw [hear_append] at hd
  generalize hear .none vs = r at hheard hd
  cases hheard with
  | deaf => rcases hstop .none with heq | heq <;> rw [heq] at hd <;> cases hd
  | inStep hall =>
    have hpre : noise.upTo (sectorCount firmware) <+: vs ++ us := ⟨us, by rw [hall]⟩
    rcases hstop (some (received firmware (sectorCount firmware))) with heq | heq <;> rw [heq] at hd <;>
      cases hd <;> exact ⟨rfl, _, Nat.le_refl _, rfl, fun _ => hpre⟩
  | behind m buffer hm =>
    rcases hstop (some (waiting firmware m buffer)) with heq | heq <;> rw [heq] at hd <;> cases hd <;>
      exact ⟨rfl, m, by omega, rfl, by omega⟩

end Noise

theorem received_image (firmware : Bytes) (m : Nat) :
    (received firmware m).image = firmware.take (m * sectorSize) :=
  flatten_blocks_take _ _ _

theorem Noise.image_initial {firmware : Bytes} (noise : Noise firmware) (h : firmware.length ≤ maxSize)
    {ws : List Write} (hws : ws.Sublist noise.writes) {d : Download} (hd : hear .none ws = some d) :
    d.image <+: firmware := by
  obtain ⟨-, m, -, hacc, -⟩ := noise.heard h hws hd
  have himage : d.image = firmware.take (m * sectorSize) := by
    rw [Download.image, hacc]
    exact received_image firmware m
  rw [himage]
  exact List.take_prefix _ _

/-- The first sectors are the whole firmware only when they are all its sectors. -/
theorem eq_sectorCount {firmware : Bytes} {m : Nat} (hm : m ≤ sectorCount firmware)
    (h : (received firmware m).image = firmware) : m = sectorCount firmware := by
  rcases Nat.lt_or_eq_of_le hm with hlt | heq
  · have hlen := congrArg List.length h
    have hmore : m * sectorSize < firmware.length := (lt_blockCount (by decide)).mp hlt
    rw [received_image, List.length_take] at hlen
    omega
  · exact heq

/-- Whole only when nothing but the STOP is missing. -/
theorem Noise.arrived_of_whole {firmware : Bytes} (noise : Noise firmware) (h : firmware.length ≤ maxSize)
    {ws : List Write} (hws : ws.Sublist noise.writes) {d : Download} (hd : hear .none ws = some d)
    (himage : d.image = firmware) : noise.writes.dropLast <+: ws := by
  obtain ⟨-, m, hm, hacc, hall⟩ := noise.heard h hws hd
  rw [Download.image, hacc] at himage
  rw [writes, List.dropLast_concat]
  exact hall (eq_sectorCount hm himage)

theorem whole_of_arrived {firmware : Bytes} (h : firmware.length ≤ maxSize) {ws : List Write}
    (hws : ws.Sublist (script firmware)) (hpre : (script firmware).dropLast <+: ws) :
    ∃ d, hear none ws = some d ∧ d.image = firmware := by
  have hdrop : (script firmware).dropLast = (Noise.none firmware).upTo (sectorCount firmware) :=
    List.dropLast_concat
  obtain ⟨us, rfl⟩ := hpre
  have hlen : firmware.length < 256 ^ 4 := by simp only [maxSize, sectorSize] at h; omega
  have hupTo : hear none (script firmware).dropLast = some (received firmware (sectorCount firmware)) := by
    rw [hdrop]
    show hear (receive none (start firmware)).1 _ = _
    rw [receive_start hlen]
    exact receive_sectors h (Nat.le_refl _)
  -- What follows the packages of the firmware is the STOP at most.
  have hrest : us.Sublist [stop] := by
    rw [hdrop] at hws
    exact (List.append_sublist_append_left _).mp hws
  rw [hear_append, hupTo]
  have himage : (received firmware (sectorCount firmware)).image = firmware := sectors_flatten firmware
  rcases List.sublist_singleton.mp hrest with rfl | rfl
  · exact ⟨_, rfl, himage⟩
  · exact ⟨_, receive_stop_map _, himage⟩

/-- Without its STOP a script still has a last package. -/
theorem script_not_prefix (firmware : Bytes) : ¬ (script firmware).dropLast <+: (script firmware).dropLast.dropLast := by
  intro hpre
  have hlen := hpre.length_le
  simp only [script, List.length_dropLast, List.length_append, List.length_cons, List.length_nil] at hlen
  omega

/-- **A link that loses packages.** Whatever it loses, the receiver accepts the firmware from the front; and the
whole of it just when nothing but the STOP was lost. -/
theorem whole_iff_arrived {firmware : Bytes} (h : firmware.length ≤ maxSize) {ws : List Write}
    (hws : ws.Sublist (script firmware)) :
    (∀ d, hear none ws = some d → d.image <+: firmware) ∧
      ((∃ d, hear none ws = some d ∧ d.image = firmware) ↔ (script firmware).dropLast <+: ws) := by
  refine ⟨fun d hd => ?_, ?_, whole_of_arrived h hws⟩
  · exact (Noise.none firmware).image_initial h hws hd
  · rintro ⟨d, hd, himage⟩
    exact (Noise.none firmware).arrived_of_whole h hws hd himage

/-- Of two sectors the STOP is lost, or the last package too. -/
theorem whole_iff_arrived_two_sectors :
    (∃ d, hear none (script twoSectors).dropLast = some d ∧ d.image = twoSectors) ∧
    ¬ ∃ d, hear none (script twoSectors).dropLast.dropLast = some d ∧ d.image = twoSectors := by
  have hsub := List.dropLast_sublist (script twoSectors)
  constructor
  · exact (whole_iff_arrived twoSectors_fits hsub).2.mpr (List.prefix_refl _)
  · rw [(whole_iff_arrived twoSectors_fits ((List.dropLast_sublist _).trans hsub)).2]
    exact script_not_prefix twoSectors

end EspOta.Ble
