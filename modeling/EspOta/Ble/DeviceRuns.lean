/-
Runs of the BLE device: the actions of all parties in one list, in the order
in which they happen. Every run keeps the bytes in order (`run_flow`), and the
task comes to its end only with as many bytes written as were announced
(`Late.step`).
-/
import EspOta.Ble.OtaTask

namespace EspOta.Ble

open Lib

namespace Device

/-- One action; an action that cannot happen in a state leaves it as it is. -/
def step (d : Device) (a : Action) : Device := (d.step? a).getD d

/-- The party is there and need not wait. -/
def Happens (d : Device) (a : Action) : Prop := (d.step? a).isSome

instance (d : Device) (a : Action) : Decidable (d.Happens a) := inferInstanceAs (Decidable (_ = true))

theorem Happens.steps {d : Device} {a : Action} (h : d.Happens a) : Steps d a (d.step a) := by
  obtain ⟨d', hd⟩ := Option.isSome_iff_exists.mp h
  rw [step, hd]
  exact Ble.steps hd

theorem step_of_not_happens {d : Device} {a : Action} (h : ¬ d.Happens a) : d.step a = d := by
  rw [step, Option.not_isSome_iff_eq_none.mp h]
  rfl

/-- The bytes of the chunks are the bytes written and those on their way. -/
theorem run_flow {es : List Action} (h : Meets step Happens .boot es) :
    Flow (es.flatMap Action.brings) (run step .boot es) := by
  refine h.history (fun es d => Flow (es.flatMap Action.brings) d) (fun es d a hf ha => ?_) .boot
  rw [List.flatMap_append, List.flatMap_singleton]
  exact hf.step ha.steps

/-! ## Ending late -/

/-- The task has not come to its end, or it has written at least `n` bytes. -/
def Late (n : Nat) (d : Device) : Prop :=
  ((d.phase.Left → d.phase = .failed) ∧ ∀ k ∈ d.calls, ¬ Finishes k) ∨ n ≤ d.written.length

theorem Late.boot (n : Nat) : Late n .boot := .inl ⟨by simp [Device.boot, Phase.Left], by simp [Device.boot]⟩

/-- The bytes written stay written. -/
theorem written_length_le {d d' : Device} {a : Action} (h : Steps d a d') :
    d.written.length ≤ d'.written.length := by
  cases h <;> simp [written]

/-- What is announced counts when the task compares: then at least `n` bytes have to be written for it to end. -/
theorem Late.step {n : Nat} {d d' : Device} {a : Action} (h : Late n d) (hs : Steps d a d')
    (hcount : d.phase = .comparing → d.fwLength ≤ d.recvLen → n ≤ d.written.length) : Late n d' := by
  have hmono := written_length_le hs
  rcases h with ⟨hleft, hcalls⟩ | hlen
  · by_cases htask : ∃ c, a = .task c
    · obtain ⟨c, rfl⟩ := htask
      by_cases hl : d.phase.Left
      · obtain ⟨hp, -⟩ := hs.after_loop hl
        rw [hleft hl] at hp
        simp at hp
      · rcases hs.in_loop hl with ⟨he, hle, -⟩ | ⟨hfailed, hnew⟩
        · have hp : d.phase = .comparing := by
            cases hs with
            | complete hp => exact hp
            | _ => simp_all [Phase.Left]
          exact .inr (Nat.le_trans (hcount hp hle) hmono)
        · exact .inl ⟨hfailed, fun k hk => (hnew k hk).elim (hcalls k) id⟩
    · obtain ⟨hp, hc⟩ := hs.phase_of_not_task fun c hc => htask ⟨c, hc⟩
      rw [Late, hp, hc]
      exact .inl ⟨hleft, hcalls⟩
  · exact .inr (Nat.le_trans hlen hmono)

/-- The other parties do not bring the task to its end. -/
theorem Late.other {n : Nat} {d d' : Device} {a : Action} (h : Late n d) (hs : Steps d a d')
    (ha : ∀ c, a ≠ .task c) : Late n d' := by
  obtain ⟨hp, hc⟩ := hs.phase_of_not_task ha
  rw [Late, hp, hc, written, hc]
  exact h

/-- Past its loop, or at a call that finishes, the task has written as much. -/
theorem Late.le {n : Nat} {d : Device} (h : Late n d)
    (hend : (d.phase.Left ∧ d.phase ≠ .failed) ∨ ∃ k ∈ d.calls, Finishes k) : n ≤ d.written.length := by
  rcases h with ⟨hleft, hcalls⟩ | hlen
  · rcases hend with ⟨hl, hne⟩ | ⟨k, hk, hf⟩
    · exact absurd (hleft hl) hne
    · exact absurd hf (hcalls k hk)
  · exact hlen

/-- The count reached an announced length of `n`, so as many bytes are written. -/
theorem written_of_count {bytes : List UInt8} {n : Nat} {d : Device} (hf : Flow bytes d) (hn : n < 2 ^ 32)
    (hlength : d.fwLength = UInt32.ofNat n) (hle : d.fwLength ≤ d.recvLen) : n ≤ d.written.length := by
  rw [hlength, hf.count, UInt32.le_iff_toNat_le, UInt32.toNat_ofNat', UInt32.toNat_ofNat',
    Nat.mod_eq_of_lt hn] at hle
  exact Nat.le_trans hle (Nat.mod_le _ _)

/-! ## Before the first byte -/

/-- The task waits for its first byte, or failed before. -/
structure Idle (d : Device) : Prop where
  phase : d.phase = .start ∨ d.phase = .receiving ∨ d.phase = .failed
  calls : ∀ k ∈ d.calls, ¬ Finishes k

/-- Nothing on its way: the task cannot take an item out. -/
theorem Idle.step {d d' : Device} {a : Action} (h : Idle d) (hs : Steps d a d') (hf : Flow [] d) : Idle d' := by
  obtain ⟨hphase, hcalls⟩ := h
  have hsnoc : ∀ c : Call, ¬ Finishes c → ∀ k ∈ d.calls ++ [c], ¬ Finishes k := by
    intro c hc k hk
    rcases List.mem_append.mp hk with hk | hk
    · exact hcalls k hk
    · rw [List.mem_singleton.mp hk]
      exact hc
  cases hs with
  | received n r hp hr =>
    have hpending : d.pending = [] := (List.append_eq_nil_iff.mp hf.bytes).2
    have hqueued : d.ring.queued = [] := (List.append_eq_nil_iff.mp (List.append_eq_nil_iff.mp hpending).1).2
    obtain ⟨happ, hlen, hn, -⟩ := Ringbuf.receive?_eq_some hr
    rw [hqueued, List.append_eq_nil_iff] at happ
    rw [happ.1, List.length_nil] at hlen
    omega
  | notSelected => exact ⟨.inr (.inr rfl), hcalls⟩
  | notBegun => exact ⟨.inr (.inr rfl), hsnoc _ id⟩
  | begun => exact ⟨.inr (.inl rfl), hsnoc _ id⟩
  | announced | refused | sent | blocks | unblocked => exact ⟨hphase, hcalls⟩
  | writeFailed _ hp | wrote hp | returned hp | again hp | complete hp | endFailed _ hp | ended hp
  | bootFailed _ hp | bootSet hp => simp [hp] at hphase

theorem Idle.not_ended {d : Device} (h : Idle d) :
    ¬ ((d.phase.Left ∧ d.phase ≠ .failed) ∨ ∃ k ∈ d.calls, Finishes k) := by
  rintro (⟨hl, hne⟩ | ⟨k, hk, hf⟩)
  · rcases h.phase with hp | hp | hp <;> simp [hp, Phase.Left] at hl hne
  · exact h.calls k hk hf

end Device

end EspOta.Ble
