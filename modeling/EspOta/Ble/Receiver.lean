/-
The receiver the README describes: its package formats, and what it does
with each package.

It accepts a sector when a package marked 0xFF ends it, the packages carry
the index it expects and the CRC in the last two bytes is that of the
sector's bytes, as many as are missing and a sector holds; it replies an
error otherwise and keeps waiting for the same sector.
`Download.receive_sector` is the rule for a whole sector.
-/
import EspOta.Lib.Run
import EspOta.Ble.Sender

namespace EspOta.Ble

open Lib

/-! ## Package formats -/

/-- Command_ID, bytes 0 to 1. -/
def commandId (p : Bytes) : Nat := ofLe (p.extract 0 2)

/-- The length in a START package, bytes 2 to 5. -/
def announcedLength (p : Bytes) : Nat := ofLe (p.extract 2 6)

/-- Twenty bytes, the last two the CRC of bytes 0 to 17. -/
def IsCommand (p : Bytes) : Prop :=
  p.length = 20 ∧ ofLe (p.extract 18 20) = (crc 0x1021#16 0xFFFF#16 (p.extract 0 18)).toNat

instance (p : Bytes) : Decidable (IsCommand p) := inferInstanceAs (Decidable (_ ∧ _))

/-- Sector_Index, bytes 0 to 1. -/
def packetIndex (p : Bytes) : Nat := ofLe (p.extract 0 2)

/-- Packet_Seq, byte 2. -/
def packetSeq (p : Bytes) : Nat := ofLe (p.extract 2 3)

/-- PayLoad, from byte 3. -/
def packetPayload (p : Bytes) : Bytes := p.drop 3

/-- What the payloads of a sector carry before the CRC: the sector and its padding. -/
def sectorBody (data : Bytes) : Bytes := data.take (data.length - 2)

/-- The CRC at the end of a sector's payloads. -/
def sectorCrc (data : Bytes) : Nat := ofLe (data.drop (data.length - 2))

/-! ## The receiver -/

inductive AckStatus
  | success | crcError | sectorIndexError (desired : Nat) | payloadLengthError
  deriving DecidableEq, Repr

inductive Reply
  | ack (sectorIndex : Nat) (status : AckStatus)
  | response (commandId : Nat) (accept : Bool)
  deriving DecidableEq, Repr

/-- A download since its START: the sectors accepted, and the payloads of the one awaited. -/
structure Download where
  announced : Nat
  accepted : List Bytes
  buffer : Bytes
  stopped : Bool
  deriving DecidableEq

namespace Download

def start (announced : Nat) : Download := ⟨announced, [], [], false⟩

def image (d : Download) : Bytes := d.accepted.flatten

/-- The Sector_Index awaited. -/
def expected (d : Download) : Nat := d.accepted.length

/-- The length of the sector awaited. -/
def awaited (d : Download) : Nat := min sectorSize (d.announced - d.image.length)

/-- The check at the end of a sector. -/
def close (d : Download) : Download × AckStatus :=
  let sector := (sectorBody d.buffer).take d.awaited
  let waiting := { d with buffer := [] }
  if d.awaited = 0 ∨ (sectorBody d.buffer).length < d.awaited then (waiting, .payloadLengthError)
  else if sectorCrc d.buffer ≠ crc16 sector then (waiting, .crcError)
  else ({ waiting with accepted := d.accepted ++ [sector] }, .success)

def receivePacket (d : Download) (p : Bytes) : Download × List Reply :=
  if p.length < 3 then (d, [.ack d.expected .payloadLengthError])
  else if packetIndex p ≠ d.expected then (d, [.ack (packetIndex p) (.sectorIndexError d.expected)])
  else
    let d := { d with buffer := d.buffer ++ packetPayload p }
    if packetSeq p ≠ 0xFF then (d, [])
    else
      let (d, status) := d.close
      (d, [.ack (packetIndex p) status])

end Download

/-- A write arrives; there is no download before the first START. -/
def receive (r : Option Download) (w : Write) : Option Download × List Reply :=
  match w.characteristic, r with
  | .recvFw, none => (none, [])
  | .recvFw, some d => ((d.receivePacket w.packet).1, (d.receivePacket w.packet).2)
  | .command, r =>
    if ¬ IsCommand w.packet then (r, [])
    else if commandId w.packet = startOtaCmd then
      (some (.start (announcedLength w.packet)), [.response startOtaCmd true])
    else if commandId w.packet = stopOtaCmd then
      (r.map ({ · with stopped := true }), [.response stopOtaCmd true])
    else (r, [.response (commandId w.packet) false])

/-- The firmware a transcript carries: the image of its download, stopped and complete. -/
def decode (ws : List Write) : Option Bytes :=
  match run (fun r w => (receive r w).1) none ws with
  | some d => if d.stopped ∧ d.image.length = d.announced then some d.image else none
  | none => none

/-! ## A whole sector -/

/-- A package of the sector awaited that does not end it. -/
structure Download.Continues (d : Download) (p : Bytes) : Prop where
  length : 3 ≤ p.length
  index : packetIndex p = d.expected
  seq : packetSeq p ≠ 0xFF

/-- The package that ends the sector awaited. -/
structure Download.Ends (d : Download) (p : Bytes) : Prop where
  length : 3 ≤ p.length
  index : packetIndex p = d.expected
  seq : packetSeq p = 0xFF

namespace Download

/-- The download after the packages, in order. -/
def receivePackets (d : Download) (ps : List Bytes) : Download := run (fun d p => (d.receivePacket p).1) d ps

theorem Continues.receive {d : Download} {p : Bytes} (h : d.Continues p) :
    (d.receivePacket p).1 = { d with buffer := d.buffer ++ packetPayload p } := by
  have hl : ¬ p.length < 3 := Nat.not_lt.mpr h.length
  simp [receivePacket, hl, h.index, h.seq]

theorem Ends.receive {d : Download} {p : Bytes} (h : d.Ends p) :
    (d.receivePacket p).1 = ({ d with buffer := d.buffer ++ packetPayload p } : Download).close.1 := by
  have hl : ¬ p.length < 3 := Nat.not_lt.mpr h.length
  simp [receivePacket, hl, h.index, h.seq]

theorem receive_continues {d : Download} {ps : List Bytes} (h : ∀ p ∈ ps, d.Continues p) :
    d.receivePackets ps = { d with buffer := d.buffer ++ ps.flatMap packetPayload } := by
  induction ps generalizing d with
  | nil => simp [receivePackets]
  | cons p ps ih =>
    have hp : d.Continues p := h p (by simp)
    have hps : ∀ q ∈ ps, ({ d with buffer := d.buffer ++ packetPayload p } : Download).Continues q := by
      intro q hq
      have := h q (by simp [hq])
      exact ⟨this.length, this.index, this.seq⟩
    have := ih hps
    simp only [receivePackets, run_cons, hp.receive] at *
    simp [this]

/-- **The rule for a sector.** Packages of the sector awaited, the last of them marked, whose payloads
carry enough bytes and the right CRC, are accepted as the bytes awaited. -/
theorem receive_sector {d : Download} {ps : List Bytes} {q : Bytes} (hb : d.buffer = [])
    (hps : ∀ p ∈ ps, d.Continues p) (hq : d.Ends q) (h0 : 0 < d.awaited)
    (hlen : d.awaited ≤ (sectorBody ((ps ++ [q]).flatMap packetPayload)).length)
    (hcrc : sectorCrc ((ps ++ [q]).flatMap packetPayload) =
      crc16 ((sectorBody ((ps ++ [q]).flatMap packetPayload)).take d.awaited)) :
    d.receivePackets (ps ++ [q]) =
      { d with accepted :=
          d.accepted ++ [(sectorBody ((ps ++ [q]).flatMap packetPayload)).take d.awaited] } := by
  have hq' : ({ d with buffer := ps.flatMap packetPayload } : Download).Ends q :=
    ⟨hq.length, hq.index, hq.seq⟩
  have hdata : ps.flatMap packetPayload ++ packetPayload q = (ps ++ [q]).flatMap packetPayload := by simp
  have hpre : d.receivePackets ps = { d with buffer := ps.flatMap packetPayload } := by
    rw [receive_continues hps, hb, List.nil_append]
  have hrun : d.receivePackets (ps ++ [q]) = ((d.receivePackets ps).receivePacket q).1 := by
    simp only [receivePackets, run_append, run_cons, run_nil]
  rw [hrun, hpre, hq'.receive, hdata]
  have hawait : ({ d with buffer := (ps ++ [q]).flatMap packetPayload } : Download).awaited = d.awaited := rfl
  have hshort : ¬ (d.awaited = 0 ∨
      (sectorBody ((ps ++ [q]).flatMap packetPayload)).length < d.awaited) := by omega
  simp only [close, hawait]
  rw [if_neg hshort, if_neg (by simpa using hcrc)]
  simp [hb]

end Download

end EspOta.Ble
