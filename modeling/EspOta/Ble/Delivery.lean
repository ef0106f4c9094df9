/-
The sender against the README's receiver over a link that may do anything
to a package.

The sender never reads a reply, so whether it completes depends on its
writes not raising and on nothing the receiver says (`complete_iff`); what
the receiver then holds is the firmware when the packages arrived as sent.
-/
import EspOta.Ble.SenderFormat

namespace EspOta.Ble

open Lib

/-- What becomes of a write. -/
inductive Delivery
  | intact
  /-- Other bytes arrive in its place. -/
  | corrupted (arrives : Bytes)
  | lost
  /-- `write_gatt_char` raises. -/
  | rejected
  deriving DecidableEq, Repr

/-- The link and the receiver at its end; `writes` counts the writes that did not raise. -/
structure Session where
  writes : Nat
  receiver : Option Download
  replies : List Reply
  deriving DecidableEq

namespace Session

def init : Session := ⟨0, none, []⟩

def arrive (y : Session) (w : Write) : Session :=
  ⟨y.writes + 1, (receive y.receiver w).1, y.replies ++ (receive y.receiver w).2⟩

/-- The `k`-th write meets `pattern k`. -/
def deliver (pattern : Nat → Delivery) (y : Session) (w : Write) : Except PyError Session :=
  match pattern y.writes with
  | .intact => .ok (y.arrive w)
  | .corrupted arrives => .ok (y.arrive { w with packet := arrives })
  | .lost => .ok { y with writes := y.writes + 1 }
  | .rejected => .error .bleakError

/-- The receiver has accepted every sector, and they make up the firmware. -/
def Accepted (y : Session) (firmware : Bytes) : Prop :=
  ∃ d, y.receiver = some d ∧ d.accepted = sectors firmware ∧ d.accepted.flatten = firmware

end Session

open Session

variable {pattern : Nat → Delivery}

theorem deliver_ok_iff {y : Session} {w : Write} :
    (∃ y', deliver pattern y w = .ok y') ↔ pattern y.writes ≠ .rejected := by
  unfold deliver
  cases pattern y.writes <;> simp

theorem deliver_writes {y y' : Session} {w : Write} (h : deliver pattern y w = .ok y') :
    y'.writes = y.writes + 1 := by
  unfold deliver at h
  split at h <;> cases h <;> rfl

theorem deliver_intact {y y' : Session} {w : Write} (h : deliver pattern y w = .ok y')
    (hp : pattern y.writes = .intact) : y'.receiver = (receive y.receiver w).1 := by
  rw [deliver, hp] at h
  cases h
  rfl

/-- The writes all go through just when none of them is rejected. -/
theorem deliver_all_iff {ws : List Write} {y : Session} :
    (∃ y', ws.foldlM (deliver pattern) y = .ok y') ↔ ∀ k < ws.length, pattern (y.writes + k) ≠ .rejected := by
  induction ws generalizing y with
  | nil => simp [pure, Except.pure]
  | cons w ws ih =>
    simp only [List.foldlM_cons, bind_eq_ok]
    constructor
    · rintro ⟨y', y₁, hw, hws⟩ k hk
      cases k with
      | zero => exact deliver_ok_iff.mp ⟨y₁, hw⟩
      | succ k =>
        have := ih.mp ⟨y', hws⟩ k (by simpa using hk)
        rwa [deliver_writes hw, Nat.add_assoc, Nat.add_comm 1 k] at this
    · intro h
      obtain ⟨y₁, hw⟩ := (deliver_ok_iff (w := w)).mpr (h 0 (by simp))
      have hrest : ∀ k < ws.length, pattern (y₁.writes + k) ≠ .rejected := by
        intro k hk
        have := h (k + 1) (by simpa using hk)
        rwa [deliver_writes hw, Nat.add_assoc, Nat.add_comm 1 k]
      obtain ⟨y', hws⟩ := ih.mpr hrest
      exact ⟨y', y₁, hw, hws⟩

theorem deliver_all_writes {ws : List Write} {y y' : Session} (h : ws.foldlM (deliver pattern) y = .ok y') :
    y'.writes = y.writes + ws.length := by
  induction ws generalizing y with
  | nil => cases h; rfl
  | cons w ws ih =>
    rw [List.foldlM_cons, bind_eq_ok] at h
    obtain ⟨y₁, hw, hws⟩ := h
    rw [ih hws, deliver_writes hw, List.length_cons]
    omega

/-- Writes that all arrive as sent move the receiver as the transcript does. -/
theorem deliver_all_intact {ws : List Write} {y y' : Session} (h : ws.foldlM (deliver pattern) y = .ok y')
    (hp : ∀ k < ws.length, pattern (y.writes + k) = .intact) :
    y'.receiver = run (fun r w => (receive r w).1) y.receiver ws := by
  induction ws generalizing y with
  | nil => cases h; rfl
  | cons w ws ih =>
    rw [List.foldlM_cons, bind_eq_ok] at h
    obtain ⟨y₁, hw, hws⟩ := h
    rw [run_cons, ← deliver_intact hw (hp 0 (by simp))]
    refine ih hws (fun k hk => ?_)
    have := hp (k + 1) (by simpa using hk)
    rwa [deliver_writes hw, Nat.add_assoc, Nat.add_comm 1 k]

/-- **Completion says that no write raised, and no more**: the sender completes just when the file fits
and none of its writes is rejected, whatever arrives and whatever is replied. When it completes and
every package arrived as sent, the receiver has accepted every sector of the firmware. -/
theorem complete_iff (firmware : Bytes) (pattern : Nat → Delivery) :
    ((∃ y, sendFirmware (deliver pattern) .init firmware = .ok y) ↔
      firmware.length ≤ maxSize ∧ ∀ k < (script firmware).length, pattern k ≠ .rejected) ∧
    ∀ y, sendFirmware (deliver pattern) .init firmware = .ok y →
      y.writes = (script firmware).length ∧
        ((∀ k < y.writes, pattern k = .intact) → y.Accepted firmware) := by
  rcases Nat.lt_or_ge maxSize firmware.length with hlong | hfits
  · have hno := sendFirmware_ne_ok (deliver pattern) hlong .init
    refine ⟨⟨fun ⟨y, hy⟩ => absurd hy (hno y), fun h => absurd h.1 (by omega)⟩, ?_⟩
    exact fun y hy => absurd hy (hno y)
  · rw [sendFirmware_eq (deliver pattern) hfits]
    refine ⟨?_, fun y hy => ?_⟩
    · rw [deliver_all_iff]
      simp only [init, Nat.zero_add]
      exact ⟨fun h => ⟨hfits, h⟩, fun h => h.2⟩
    · have hw := deliver_all_writes hy
      simp only [init, Nat.zero_add] at hw
      refine ⟨hw, fun hp => ?_⟩
      have hrecv := deliver_all_intact hy (fun k hk => by simpa [init] using hp k (by omega))
      rw [receive_script hfits] at hrecv
      exact ⟨_, hrecv, rfl, sectors_flatten firmware⟩

/-- The first firmware package arrives with another sector index. -/
def oneCorrupted (k : Nat) : Delivery := if k = 1 then .corrupted [1, 0, 0xFF, 7, 0, 0] else .intact

/-- A file of two sectors completes when a package is corrupted, and is accepted when none is. -/
theorem complete_iff_two_sectors :
    (∃ y, sendFirmware (deliver oneCorrupted) .init twoSectors = .ok y ∧
      y.writes = (script twoSectors).length) ∧
    ∃ y, sendFirmware (deliver fun _ => .intact) .init twoSectors = .ok y ∧ y.Accepted twoSectors := by
  constructor
  · have h := complete_iff twoSectors oneCorrupted
    have hnone : ∀ k < (script twoSectors).length, oneCorrupted k ≠ .rejected := by
      intro k _
      rw [oneCorrupted]
      split <;> simp
    obtain ⟨y, hy⟩ := h.1.mpr ⟨twoSectors_fits, hnone⟩
    exact ⟨y, hy, (h.2 y hy).1⟩
  · have h := complete_iff twoSectors fun _ => .intact
    obtain ⟨y, hy⟩ := h.1.mpr ⟨twoSectors_fits, fun _ _ => by simp⟩
    exact ⟨y, hy, (h.2 y hy).2 fun _ _ => rfl⟩

/-- The receiver replies an error and keeps waiting; the sender completes. -/
theorem complete_not_accepted :
    ¬ ∀ (firmware : Bytes) (pattern : Nat → Delivery) (y : Session),
      sendFirmware (deliver pattern) .init firmware = .ok y → y.Accepted firmware := by
  intro h
  have hrun : sendFirmware (deliver oneCorrupted) .init [7] = .ok ⟨3, some ⟨1, [], [], true⟩,
      [.response 1 true, .ack 1 (.sectorIndexError 0), .response 2 true]⟩ := by decide +kernel
  obtain ⟨d, hd, hacc, -⟩ := h [7] oneCorrupted _ hrun
  cases hd
  exact absurd hacc (by decide)

end EspOta.Ble
