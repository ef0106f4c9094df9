/-
The Zigbee stack between the network and a client's callbacks. It is not part
of the repository, so it is a parameter: which message it may make a callback
with, after the callbacks it made since the node booted. What a result relies
on of it is one of the hypotheses named here, and `Stack.inOrder` meets them
all.

The rest is what the log of a node says whatever its stack does, as long as
every RECEIVE in it was handed out by the server (`Told`).
-/
import EspOta.Zigbee.EndToEnd

namespace EspOta.Zigbee

open ClientRuns (Handled written counted announced sinceStart lastStart sinceStart_cons announced_cons counted_cons)
open EndToEnd (receiveOf)

/-- A status of none of the kinds an upgrade goes on with. -/
def UpgradeStatus.Stops : UpgradeStatus → Prop
  | .other _ => True
  | .start | .receive | .apply | .check | .finish => False

instance (u : UpgradeStatus) : Decidable u.Stops := by
  unfold UpgradeStatus.Stops; split <;> infer_instance

/-- An upgrade is going on: START and every callback since answered `ESP_OK`, and none was of another kind. -/
def Going : List Handled → Prop
  | [] => False
  | h :: log => h.outcome.exit = .returned espOk ∧ (h.Is .start ∨ ¬ h.msg.upgradeStatus.Stops ∧ Going log)

instance Going.decidable : ∀ log, Decidable (Going log)
  | [] => .isFalse id
  | _ :: log => @instDecidableAnd _ _ _ (@instDecidableOr _ _ _ (@instDecidableAnd _ _ _ (Going.decidable log)))

/-- How much of the image RECEIVEs told of since START. -/
def asked (log : List Handled) : Nat := counted (sinceStart log)

/-- A CHECK came since START. -/
def Checked (log : List Handled) : Prop := ∃ k ∈ sinceStart log, k.Is .check

instance (log : List Handled) : Decidable (Checked log) := inferInstanceAs (Decidable (∃ k ∈ _, _))

/-- What comes next in an upgrade in order: blocks inside the image until it is complete, CHECK, APPLY, FINISH. -/
def Next (rom : Rom) (log : List Handled) (m : UpgradeValueMessage) : Prop :=
  match m.upgradeStatus with
  | .start | .other _ => True
  | .receive => Going log ∧ 0 < m.payloadSize.toNat ∧ asked log + m.payloadSize.toNat ≤ rom.size
  | .check => Going log ∧ asked log = rom.size
  | .apply | .finish => Going log ∧ asked log = rom.size ∧ Checked log

instance (rom : Rom) (log : List Handled) (m : UpgradeValueMessage) : Decidable (Next rom log m) := by
  unfold Next; split <;> infer_instance

/-- The stack of a node: after the callbacks of a log it may make one with this message. -/
structure Stack where
  makes : List Handled → UpgradeValueMessage → Prop

namespace Stack

/-- It heeds what a callback answers, and what it told itself: with no upgrade going on it makes no callback but
START, or one of another kind. -/
def Heeds (S : Stack) : Prop := ∀ log m, S.makes log m →
  m.upgradeStatus = .start ∨ m.upgradeStatus.Stops ∨ Going log

/-- A block it hands on is not empty, and inside the image. -/
def Within (S : Stack) (rom : Rom) : Prop := ∀ log m, S.makes log m → m.upgradeStatus = .receive →
  0 < m.payloadSize.toNat ∧ asked log + m.payloadSize.toNat ≤ rom.size

/-- It finishes an upgrade only when the whole image was handed on. -/
def Completes (S : Stack) (rom : Rom) : Prop := ∀ log m, S.makes log m → m.upgradeStatus = .finish →
  asked log = rom.size

/-- It may make every callback of an upgrade in order. -/
def Proceeds (S : Stack) (rom : Rom) : Prop := ∀ log m, Next rom log m → S.makes log m

/-- The stack that makes these and no others. -/
def inOrder (rom : Rom) : Stack := ⟨Next rom⟩

instance (rom : Rom) (log : List Handled) (m : UpgradeValueMessage) : Decidable ((inOrder rom).makes log m) :=
  inferInstanceAs (Decidable (Next rom log m))

theorem inOrder_heeds (rom : Rom) : (inOrder rom).Heeds := by
  intro log m h
  simp only [inOrder, Next] at h
  split at h
  · exact .inl ‹_›
  · rename_i hm
    rw [hm]
    exact .inr (.inl trivial)
  · exact .inr (.inr h.1)
  · exact .inr (.inr h.1)
  · exact .inr (.inr h.1)
  · exact .inr (.inr h.1)

theorem inOrder_completes (rom : Rom) : (inOrder rom).Completes rom := by
  intro log m h hf
  simp only [inOrder, Next, hf] at h
  exact h.2.1

theorem inOrder_proceeds (rom : Rom) : (inOrder rom).Proceeds rom := fun _ _ h => h

end Stack

/-! ## What a log says -/

section
variable {h : Handled} {log : List Handled}

/-- A message that is neither a START nor a RECEIVE writes nothing. -/
theorem Handled.written_of_other (hr : ¬ h.Is .receive) : h.written = [] := by
  have hle := h.written_length_le
  rw [Handled.counted, if_neg hr] at hle
  exact List.eq_nil_of_length_eq_zero (Nat.le_zero.mp hle)

theorem asked_start (hs : h.Is .start) : asked (h :: log) = 0 := by
  rw [asked, sinceStart_cons, if_pos hs]
  rfl

theorem asked_other (hs : ¬ h.Is .start) (hr : ¬ h.Is .receive) : asked (h :: log) = asked log := by
  rw [asked, sinceStart_cons, if_neg hs, counted_cons, Handled.counted, if_neg hr, Nat.zero_add, asked]

theorem asked_receive (hr : h.Is .receive) : asked (h :: log) = asked log + h.msg.payloadSize.toNat := by
  have hs : ¬ h.Is .start := fun hs => by cases hr.unique hs
  rw [asked, sinceStart_cons, if_neg hs, counted_cons, Handled.counted, if_pos hr, Nat.add_comm, asked]

theorem checked_check (hc : h.Is .check) : Checked (h :: log) := by
  refine ⟨h, ?_, hc⟩
  rw [sinceStart_cons, if_neg fun hs => by cases hc.unique hs]
  exact List.mem_cons_self

theorem Checked.cons (hs : ¬ h.Is .start) (hchecked : Checked log) : Checked (h :: log) := by
  obtain ⟨k, hk, hc⟩ := hchecked
  refine ⟨k, ?_, hc⟩
  rw [sinceStart_cons, if_neg hs]
  exact List.mem_cons_of_mem _ hk

theorem written_start (hs : h.Is .start) : written (sinceStart (h :: log)) = [] := by
  rw [sinceStart_cons, if_pos hs]
  rfl

theorem written_other (hs : ¬ h.Is .start) (hr : ¬ h.Is .receive) :
    written (sinceStart (h :: log)) = written (sinceStart log) := by
  rw [sinceStart_cons, if_neg hs, written, Handled.written_of_other hr, List.append_nil]

theorem receiveOf_is (rom : Rom) (a : Answers) (p : Nat) (size : UInt8) : (receiveOf rom a p size).msg.Is .receive :=
  ⟨rfl, rfl⟩

/-- The block of a RECEIVE that answers `ESP_OK` was written. -/
theorem Handled.written_of_ok {rom : Rom} {a : Answers} {p : Nat} {size : UInt8}
    (hr : h.toEvent = receiveOf rom a p size) (hok : h.outcome.exit = .returned espOk) :
    h.written = rom.read p size.toNat := by
  have hrecv : h.Is .receive := by rw [Handled.Is, hr]; exact receiveOf_is rom a p size
  have hdata : h.msg.data = rom.read p size.toNat := by rw [hr]; rfl
  by_cases hne : h.msg.data = []
  · have hlength := congrArg List.length (hdata.symm.trans hne)
    rw [Rom.read_length] at hlength
    have hzero : h.counted = 0 := by
      rw [Handled.counted, if_pos hrecv, hr]
      exact (UInt8.toNat_toUInt32 size).trans hlength
    have hle := h.written_length_le
    rw [hzero] at hle
    rw [← hdata, hne]
    exact List.eq_nil_of_length_eq_zero (Nat.le_zero.mp hle)
  · have hw : h.answers.writeErr = espOk := by
      have hexit := (Handled.outcome_of_receive hrecv hne).2
      rw [hok] at hexit
      simpa using hexit.symm
    rw [EndToEnd.written_of_receive hrecv hne hw, hdata]

theorem written_receive {rom : Rom} {a : Answers} {p : Nat} {size : UInt8} (hr : h.toEvent = receiveOf rom a p size)
    (hok : h.outcome.exit = .returned espOk) :
    written (sinceStart (h :: log)) = written (sinceStart log) ++ rom.read p size.toNat := by
  have hrecv : h.Is .receive := by rw [Handled.Is, hr]; exact receiveOf_is rom a p size
  have hs : ¬ h.Is .start := fun hs => by cases hrecv.unique hs
  rw [sinceStart_cons, if_neg hs, written, Handled.written_of_ok hr hok]

/-- Every RECEIVE of the log carries a block the server handed out. -/
def Told (rom : Rom) (log : List Handled) : Prop :=
  ∀ k ∈ log, k.Is .receive → ∃ a p size, k.toEvent = receiveOf rom a p size

variable {rom : Rom}

theorem Told.tail (h' : Told rom (h :: log)) : Told rom log := fun k hk => h' k (List.mem_cons_of_mem _ hk)

/-- **While an upgrade goes on, all it told of was written.** -/
theorem Going.length (hg : Going log) (ht : Told rom log) : (written (sinceStart log)).length = asked log := by
  induction log with
  | nil => exact hg.elim
  | cons h log ih =>
    obtain ⟨hok, hbefore⟩ := hg
    by_cases hs : h.Is .start
    · rw [written_start hs, asked_start hs, List.length_nil]
    · have ih := ih (hbefore.resolve_left hs).2 ht.tail
      by_cases hr : h.Is .receive
      · obtain ⟨a, p, size, he⟩ := ht h List.mem_cons_self hr
        rw [written_receive he hok, asked_receive hr, List.length_append, ih, Rom.read_length, he]
        simp [receiveOf]
      · rw [written_other hs hr, asked_other hs hr, ih]

/-- Once anything was told of, the size of the image was announced. -/
theorem Told.announced (ht : Told rom log) (hne : asked log ≠ 0) : announced log = UInt32.ofNat rom.size := by
  induction log with
  | nil => exact absurd rfl hne
  | cons h log ih =>
    by_cases hr : h.Is .receive
    · obtain ⟨a, p, size, he⟩ := ht h List.mem_cons_self hr
      rw [announced_cons, if_pos hr, he]
      rfl
    · rw [announced_cons, if_neg hr]
      by_cases hs : h.Is .start
      · exact absurd (asked_start hs) hne
      · rw [asked_other hs hr] at hne
        exact ih ht.tail hne

end

end EspOta.Zigbee
