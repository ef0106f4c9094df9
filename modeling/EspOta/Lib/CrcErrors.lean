/-
Which errors a cyclic redundancy check tells apart, for any register width
and any polynomial with a constant term.

The register is linear: two messages of one length leave registers that
differ by what their difference leaves from zero (`crcBits_xor`). A
difference within as many bits as the register is wide leaves something
(`crcBits_window`), and two wrong bits cancel just when their distance is a
period of the register shifting on its own (`crcBits_pair`). The shifts from
one are the powers of a ring, multiplied by `times`, so a period is found by
squaring.
-/
import EspOta.Lib.Crc
import Mathlib.Algebra.Order.Ring.Int
import Mathlib.Data.List.GetD
import Mathlib.Data.Nat.Prime.Basic
import Mathlib.Dynamics.PeriodicPts.Defs

namespace EspOta.Lib

variable {w : Nat} {poly : BitVec w}

/-- The register after the bits. -/
def crcBits (poly init : BitVec w) (bits : List Bool) : BitVec w := bits.foldl (crcBit poly) init

/-- The register shifting on its own. -/
def shift (poly c : BitVec w) : BitVec w := crcBit poly c false

theorem crcBit_eq (poly c : BitVec w) (b : Bool) :
    crcBit poly c b = shift poly c ^^^ if b then poly else 0#w := by
  unfold shift crcBit
  cases c.msb <;> cases b
  · simp
  · simp
  · simp
  · show c <<< 1 = c <<< 1 ^^^ poly ^^^ poly
    rw [BitVec.xor_assoc, BitVec.xor_self, BitVec.xor_zero]

theorem crcBit_zero_true (poly : BitVec w) : crcBit poly 0#w true = poly := by simp [crcBit]

@[simp] theorem crcBits_nil (poly c : BitVec w) : crcBits poly c [] = c := rfl

@[simp] theorem crcBits_cons (poly c : BitVec w) (b : Bool) (bs : List Bool) :
    crcBits poly c (b :: bs) = crcBits poly (crcBit poly c b) bs := rfl

theorem crcBits_append (poly c : BitVec w) (bs cs : List Bool) :
    crcBits poly c (bs ++ cs) = crcBits poly (crcBits poly c bs) cs := List.foldl_append

/-! ## Linearity -/

theorem xor_xor_cancel (a b p : BitVec w) : a ^^^ p ^^^ (b ^^^ p) = a ^^^ b := by
  rw [BitVec.xor_comm b p, ← BitVec.xor_assoc, BitVec.xor_assoc a p p, BitVec.xor_self, BitVec.xor_zero]

theorem shift_xor (poly c d : BitVec w) : shift poly (c ^^^ d) = shift poly c ^^^ shift poly d := by
  unfold shift crcBit
  rw [BitVec.msb_xor, BitVec.shiftLeft_xor_distrib]
  cases c.msb <;> cases d.msb <;> simp
  · ac_rfl
  · ac_rfl
  · rw [xor_xor_cancel]

theorem crcBit_xor (poly c d : BitVec w) (a b : Bool) :
    crcBit poly (c ^^^ d) (a ^^ b) = crcBit poly c a ^^^ crcBit poly d b := by
  simp only [crcBit_eq, shift_xor]
  cases a <;> cases b <;> simp
  · ac_rfl
  · ac_rfl
  · rw [xor_xor_cancel]

/-- **Two messages of one length** leave registers that differ as their difference says. -/
theorem crcBits_xor {as bs : List Bool} (h : as.length = bs.length) (c d : BitVec w) :
    crcBits poly (c ^^^ d) (List.zipWith xor as bs) = crcBits poly c as ^^^ crcBits poly d bs := by
  induction as generalizing bs c d with
  | nil =>
    cases bs with
    | nil => rfl
    | cons b bs => cases h
  | cons a as ih =>
    cases bs with
    | nil => cases h
    | cons b bs =>
      rw [List.zipWith_cons_cons, crcBits_cons, crcBit_xor]
      exact ih (Nat.succ.inj h) _ _

/-! ## Shifting -/

@[simp] theorem shift_zero (poly : BitVec w) : shift poly 0#w = 0#w := by simp [shift, crcBit]

theorem shift_of_msb {c : BitVec w} (h : c.msb = false) : shift poly c = c <<< 1 := by simp [shift, crcBit, h]

/-- With a constant term in the polynomial nothing is shifted out for good. -/
theorem shift_eq_zero (hodd : poly.getLsbD 0 = true) {c : BitVec w} (h : shift poly c = 0#w) : c = 0#w := by
  cases hm : c.msb with
  | true =>
    have h0 : (shift poly c).getLsbD 0 = true := by simp [shift, crcBit, hm, hodd]
    rw [h] at h0
    simp at h0
  | false =>
    rw [shift_of_msb hm] at h
    apply BitVec.eq_of_getLsbD_eq
    intro i hi
    rw [BitVec.getLsbD_zero]
    by_cases hlast : i + 1 < w
    · have hbit : (c <<< 1).getLsbD (i + 1) = false := by rw [h, BitVec.getLsbD_zero]
      rw [BitVec.getLsbD_shiftLeft] at hbit
      simpa only [hlast, decide_true, Bool.true_and, Nat.not_lt.mpr (Nat.le_add_left 1 i), decide_false,
        Bool.not_false, Nat.add_sub_cancel] using hbit
    · have htop : i = w - 1 := by omega
      rw [htop, ← BitVec.msb_eq_getLsbD_last]
      exact hm

theorem shift_injective (hodd : poly.getLsbD 0 = true) : Function.Injective (shift poly) := by
  intro c d h
  have hzero : c ^^^ d = 0#w := shift_eq_zero hodd (by rw [shift_xor, h, BitVec.xor_self])
  exact BitVec.xor_eq_zero_iff.mp hzero

theorem iterate_shift_eq_zero (hodd : poly.getLsbD 0 = true) {n : Nat} {c : BitVec w} :
    (shift poly)^[n] c = 0#w ↔ c = 0#w := by
  have hzero : (shift poly)^[n] 0#w = 0#w := Function.iterate_fixed (shift_zero poly) n
  constructor
  · intro h
    exact (shift_injective hodd).iterate n (h.trans hzero.symm)
  · intro h
    rw [h, hzero]

theorem crcBits_replicate (poly c : BitVec w) (n : Nat) :
    crcBits poly c (List.replicate n false) = (shift poly)^[n] c := by
  induction n generalizing c with
  | zero => rfl
  | succ n ih => rw [List.replicate_succ, crcBits_cons, ih]; rfl

/-! ## A window -/

/-- The bits at the top of a register, the first one uppermost. -/
def load (w : Nat) : List Bool → BitVec w
  | [] => 0#w
  | b :: bs => (if b then BitVec.twoPow w (w - 1) else 0#w) ^^^ load w bs >>> 1

theorem getLsbD_load (bs : List Bool) {i : Nat} (hi : i < w) :
    (load w bs).getLsbD i = bs.getD (w - 1 - i) false := by
  induction bs generalizing i with
  | nil => simp [load]
  | cons b bs ih =>
    rw [load, BitVec.getLsbD_xor, BitVec.getLsbD_ushiftRight]
    by_cases hlast : 1 + i < w
    · have htop : (if b then BitVec.twoPow w (w - 1) else 0#w).getLsbD i = false := by
        cases b <;> simp [BitVec.getLsbD_twoPow]; omega
      have hsucc : w - 1 - i = w - 1 - (1 + i) + 1 := by omega
      rw [htop, ih hlast, hsucc, List.getD_cons_succ, Bool.false_xor]
    · have htop : (if b then BitVec.twoPow w (w - 1) else 0#w).getLsbD i = b := by
        cases b <;> simp [BitVec.getLsbD_twoPow]; omega
      have hzero : w - 1 - i = 0 := by omega
      rw [htop, BitVec.getLsbD_of_ge _ _ (by omega), hzero, List.getD_cons_zero, Bool.xor_false]

theorem shift_ushiftRight {c : BitVec w} (h : c.getLsbD 0 = false) : shift poly (c >>> 1) = c := by
  rw [shift_of_msb (by simp [BitVec.msb_ushiftRight])]
  apply BitVec.eq_of_getLsbD_eq
  intro i hi
  cases i with
  | zero => simp [h]
  | succ i => simp [hi, Nat.add_comm 1 i]

theorem shift_twoPow (hw : 0 < w) : shift poly (BitVec.twoPow w (w - 1)) = poly := by
  have hmsb : (BitVec.twoPow w (w - 1)).msb = true := by
    rw [BitVec.msb_eq_getLsbD_last, BitVec.getLsbD_twoPow]
    simp [hw]
  have hout : BitVec.twoPow w (w - 1) <<< 1 = 0#w := by
    apply BitVec.eq_of_getLsbD_eq
    intro i hi
    rw [BitVec.getLsbD_shiftLeft, BitVec.getLsbD_twoPow]
    simp
    omega
  simp [shift, crcBit, hmsb, hout]

/-- Bits of data may as well be in the register to begin with. -/
theorem crcBits_eq_iterate {bs : List Bool} (h : bs.length ≤ w) (c : BitVec w) :
    crcBits poly c bs = (shift poly)^[bs.length] (c ^^^ load w bs) := by
  induction bs generalizing c with
  | nil => simp [load]
  | cons b bs ih =>
    have hlt : bs.length < w := h
    have hlow : (load w bs).getLsbD 0 = false := by
      rw [getLsbD_load bs (by omega), List.getD_eq_default _ _ (by omega)]
    have htop : shift poly (if b then BitVec.twoPow w (w - 1) else 0#w) = if b then poly else 0#w := by
      cases b <;> simp [shift_twoPow (Nat.zero_lt_of_lt hlt)]
    calc crcBits poly c (b :: bs)
        = (shift poly)^[bs.length] (crcBit poly c b ^^^ load w bs) := by rw [crcBits_cons, ih (Nat.le_of_lt hlt)]
      _ = (shift poly)^[bs.length] (shift poly (c ^^^ load w (b :: bs))) := by
          rw [load, shift_xor, shift_xor, shift_ushiftRight hlow, htop, crcBit_eq, BitVec.xor_assoc]
      _ = (shift poly)^[(b :: bs).length] (c ^^^ load w (b :: bs)) := rfl

/-- **A window of bits** no wider than the register leaves something, if any of them is set. -/
theorem crcBits_burst (hodd : poly.getLsbD 0 = true) {bs : List Bool} (h : bs.length ≤ w) (htrue : true ∈ bs) :
    crcBits poly 0#w bs ≠ 0#w := by
  intro hzero
  rw [crcBits_eq_iterate h, iterate_shift_eq_zero hodd, BitVec.zero_xor] at hzero
  obtain ⟨i, hi, hbit⟩ := List.getElem_of_mem htrue
  have hload := @getLsbD_load w bs (w - 1 - i) (by omega)
  have hback : w - 1 - (w - 1 - i) = i := by omega
  rw [hzero, hback, List.getD_eq_getElem _ _ hi, hbit] at hload
  simp at hload

/-- The bits set lie within `n` places. -/
def InWindow (n : Nat) (es : List Bool) : Prop := ∃ i, ∀ j, es.getD j false = true → i ≤ j ∧ j < i + n

theorem eq_zeros {es : List Bool} (h : true ∉ es) : es = List.replicate es.length false := by
  refine List.eq_replicate_iff.mpr ⟨rfl, fun b hb => ?_⟩
  cases b with
  | false => rfl
  | true => exact absurd hb h

theorem InWindow.split {n : Nat} {es : List Bool} (h : InWindow n es) :
    ∃ l m r, es = List.replicate l false ++ (m ++ List.replicate r false) ∧ m.length ≤ n := by
  obtain ⟨i, hi⟩ := h
  have hset : ∀ j (hj : j < es.length), es[j] = true → i ≤ j ∧ j < i + n := by
    intro j hj htrue
    exact hi j (by rw [List.getD_eq_getElem _ _ hj, htrue])
  have hbefore : true ∉ es.take i := by
    intro hmem
    obtain ⟨j, hj, htrue⟩ := List.getElem_of_mem hmem
    rw [List.getElem_take] at htrue
    rw [List.length_take] at hj
    have := hset j (by omega) htrue
    omega
  have hafter : true ∉ es.drop (i + n) := by
    intro hmem
    obtain ⟨j, hj, htrue⟩ := List.getElem_of_mem hmem
    rw [List.getElem_drop] at htrue
    rw [List.length_drop] at hj
    have := hset (i + n + j) (by omega) htrue
    omega
  refine ⟨(es.take i).length, (es.drop i).take n, (es.drop (i + n)).length, ?_, List.length_take_le n _⟩
  rw [← eq_zeros hbefore, ← eq_zeros hafter, ← List.drop_drop, List.take_append_drop, List.take_append_drop]

theorem crcBits_zeros (poly : BitVec w) (n : Nat) : crcBits poly 0#w (List.replicate n false) = 0#w := by
  rw [crcBits_replicate]
  exact Function.iterate_fixed (shift_zero poly) n

theorem crcBits_window (hodd : poly.getLsbD 0 = true) {es : List Bool} (h : InWindow w es) (htrue : true ∈ es) :
    crcBits poly 0#w es ≠ 0#w := by
  obtain ⟨l, m, r, hes, hm⟩ := h.split
  have htrue' : true ∈ m := by
    rw [hes] at htrue
    simpa [List.mem_replicate] using htrue
  intro hzero
  rw [hes, crcBits_append, crcBits_zeros, crcBits_append, crcBits_replicate, iterate_shift_eq_zero hodd] at hzero
  exact crcBits_burst hodd hm htrue' hzero

/-! ## Two bits -/

theorem eq_zeros_of_count {es : List Bool} (h : es.count true = 0) : es = List.replicate es.length false :=
  eq_zeros (List.count_eq_zero.mp h)

theorem split_of_count {es : List Bool} {k : Nat} (h : es.count true = k + 1) :
    ∃ p rest, es = List.replicate p false ++ true :: rest ∧ rest.count true = k := by
  induction es with
  | nil => cases h
  | cons e es ih =>
    cases e with
    | true => exact ⟨0, es, rfl, by simpa using h⟩
    | false =>
      obtain ⟨p, rest, hes, hrest⟩ := ih (by simpa using h)
      exact ⟨p + 1, rest, by rw [hes]; rfl, hrest⟩

/-- **Two wrong bits** cancel just when their distance is a period of the shifting register. -/
theorem crcBits_pair (hodd : poly.getLsbD 0 = true) (d n : Nat) :
    crcBits poly 0#w (true :: List.replicate d false ++ true :: List.replicate n false) = 0#w ↔
      Function.IsPeriodicPt (shift poly) (d + 1) poly := by
  rw [crcBits_append, crcBits_cons, crcBits_cons, crcBits_replicate, crcBits_replicate, crcBit_zero_true,
    iterate_shift_eq_zero hodd, crcBit_eq, if_pos rfl, BitVec.xor_eq_zero_iff,
    ← Function.iterate_succ_apply' (shift poly) d poly]
  rfl

theorem crcBits_one (hodd : poly.getLsbD 0 = true) {es : List Bool} (h : es.count true = 1) :
    crcBits poly 0#w es ≠ 0#w := by
  obtain ⟨p, rest, hes, hrest⟩ := split_of_count h
  rw [hes, crcBits_append, crcBits_zeros, crcBits_cons, crcBit_zero_true, eq_zeros_of_count hrest,
    crcBits_replicate, Ne, iterate_shift_eq_zero hodd]
  intro hzero
  rw [hzero] at hodd
  simp at hodd

/-- **Two bits of a message** no longer than the period and one bit cancel only if they are its ends. -/
theorem crcBits_two (hodd : poly.getLsbD 0 = true) {n : Nat}
    (hperiod : Function.minimalPeriod (shift poly) poly = n + 1) {es : List Bool} (h : es.count true = 2)
    (hlen : es.length ≤ n + 2) :
    crcBits poly 0#w es = 0#w ↔ es = true :: (List.replicate n false ++ [true]) := by
  obtain ⟨p, rest, hes, hrest⟩ := split_of_count h
  obtain ⟨d, tail, htail, hzeros⟩ := split_of_count hrest
  rw [eq_zeros_of_count hzeros] at htail
  have hcut : es = List.replicate p false ++
      (true :: List.replicate d false ++ true :: List.replicate tail.length false) := by rw [hes, htail]; rfl
  constructor
  · intro hzero
    rw [hcut, crcBits_append, crcBits_zeros, crcBits_pair hodd] at hzero
    have hdvd : n + 1 ∣ d + 1 := hperiod ▸ hzero.minimalPeriod_dvd
    have hle : n + 1 ≤ d + 1 := Nat.le_of_dvd (Nat.succ_pos d) hdvd
    rw [hcut] at hlen
    simp only [List.length_append, List.length_cons, List.length_replicate] at hlen
    have hp : p = 0 := by omega
    have hd : d = n := by omega
    have ht : tail.length = 0 := by omega
    rw [hcut, hp, hd, ht]
    rfl
  · intro hends
    have hpair : es = true :: List.replicate n false ++ true :: List.replicate 0 false := hends
    rw [hpair, crcBits_pair hodd, ← hperiod]
    exact Function.isPeriodicPt_minimalPeriod _ _

/-! ## Periods by squaring -/

/-- The sum of the shifts of `v` that the upper `k` bits of `u` name, each counted from the last of them. -/
def timesUpTo (poly u v : BitVec w) : Nat → BitVec w
  | 0 => 0#w
  | k + 1 => shift poly (timesUpTo poly u v k) ^^^ if u.getMsbD k then v else 0#w

/-- The product of two registers, modulo the polynomial. -/
def times (poly u v : BitVec w) : BitVec w := timesUpTo poly u v w

/-- The number the binary digits say, the first digit the highest. -/
def digitsNumber (ds : List Bool) : Nat := ds.foldl (fun n d => 2 * n + d.toNat) 0

/-- One shifted as often as the binary digits say, by squaring. -/
def shiftsOfOne (poly : BitVec w) (ds : List Bool) : BitVec w :=
  ds.foldl (fun s d => if d then shift poly (times poly s s) else times poly s s) 1#w

theorem timesUpTo_one (poly u : BitVec w) {k : Nat} (h : k ≤ w) : timesUpTo poly u 1#w k = u >>> (w - k) := by
  induction k with
  | zero => exact (BitVec.ushiftRight_eq_zero (Nat.le_refl w)).symm
  | succ k ih =>
    have hmsb : (u >>> (w - k)).msb = false := by simp [BitVec.msb_ushiftRight]; omega
    rw [timesUpTo, ih (by omega), shift_of_msb hmsb]
    apply BitVec.eq_of_getLsbD_eq
    intro i hi
    cases i with
    | zero =>
      have hbit : u.getMsbD k = u.getLsbD (w - (k + 1)) := by
        rw [BitVec.getMsbD_eq_getLsbD, Nat.sub_sub, Nat.add_comm 1 k]
        simp
        omega
      simp only [BitVec.getLsbD_xor, BitVec.getLsbD_shiftLeft, BitVec.getLsbD_ushiftRight, Nat.add_zero, hbit]
      cases u.getLsbD (w - (k + 1)) <;> simp [hi]
    | succ i =>
      have hbit : w - (k + 1) + (i + 1) = w - k + i := by omega
      cases u.getMsbD k <;> simp [hi, hbit]

theorem times_one (poly u : BitVec w) : times poly u 1#w = u := by
  rw [times, timesUpTo_one poly u (Nat.le_refl w), Nat.sub_self]
  simp

theorem shift_timesUpTo (poly u v : BitVec w) (k : Nat) :
    shift poly (timesUpTo poly u v k) = timesUpTo poly u (shift poly v) k := by
  induction k with
  | zero => exact shift_zero poly
  | succ k ih =>
    rw [timesUpTo, shift_xor, ih, timesUpTo]
    cases u.getMsbD k <;> simp

theorem iterate_shift_times (poly u v : BitVec w) (n : Nat) :
    (shift poly)^[n] (times poly u v) = times poly u ((shift poly)^[n] v) := by
  induction n generalizing v with
  | zero => rfl
  | succ n ih =>
    rw [Function.iterate_succ_apply, times, shift_timesUpTo, ← times, ih, Function.iterate_succ_apply]

/-- **Shifting is multiplying**: a register is shifted by multiplying it with one shifted as often. -/
theorem iterate_shift_eq_times (poly u : BitVec w) (n : Nat) :
    (shift poly)^[n] u = times poly u ((shift poly)^[n] 1#w) := by
  rw [← iterate_shift_times, times_one]

theorem shiftsOfOne_eq (poly : BitVec w) (ds : List Bool) :
    shiftsOfOne poly ds = (shift poly)^[digitsNumber ds] 1#w := by
  induction ds using List.reverseRecOn with
  | nil => rfl
  | append_singleton ds d ih =>
    have hsquare : times poly (shiftsOfOne poly ds) (shiftsOfOne poly ds) =
        (shift poly)^[2 * digitsNumber ds] 1#w := by
      rw [ih, ← iterate_shift_eq_times, ← Function.iterate_add_apply, Nat.two_mul]
    have hstep : shiftsOfOne poly (ds ++ [d]) =
        if d then shift poly (times poly (shiftsOfOne poly ds) (shiftsOfOne poly ds))
        else times poly (shiftsOfOne poly ds) (shiftsOfOne poly ds) := by
      rw [shiftsOfOne, List.foldl_append]; rfl
    have hnumber : digitsNumber (ds ++ [d]) = 2 * digitsNumber ds + d.toNat := by
      rw [digitsNumber, List.foldl_append]; rfl
    rw [hstep, hnumber, hsquare]
    cases d with
    | false => rfl
    | true => exact (Function.iterate_succ_apply' (shift poly) _ _).symm

theorem isPeriodicPt_shift_iff (poly u : BitVec w) (ds : List Bool) :
    Function.IsPeriodicPt (shift poly) (digitsNumber ds) u ↔ times poly u (shiftsOfOne poly ds) = u := by
  rw [shiftsOfOne_eq, ← iterate_shift_eq_times]
  rfl

/-- **The least period** is a period none of whose quotients by a prime is one. -/
theorem minimalPeriod_eq_of_div_prime {α : Type} {f : α → α} {x : α} {n : Nat}
    (hper : Function.IsPeriodicPt f n x) (hdiv : ∀ p, p.Prime → p ∣ n → ¬ Function.IsPeriodicPt f (n / p) x) :
    Function.minimalPeriod f x = n := by
  obtain ⟨q, hq⟩ := hper.minimalPeriod_dvd
  by_cases hone : q = 1
  · rw [hq, hone, Nat.mul_one]
  · have hmin : q.minFac ∣ n := Nat.dvd_trans q.minFac_dvd (hq ▸ Nat.dvd_mul_left _ _)
    have hquot : n / q.minFac = Function.minimalPeriod f x * (q / q.minFac) := by
      rw [← Nat.mul_div_assoc _ q.minFac_dvd, ← hq]
    refine absurd ?_ (hdiv q.minFac (Nat.minFac_prime hone) hmin)
    rw [hquot]
    exact (Function.isPeriodicPt_minimalPeriod f x).mul_const _

/-! ## Bytes -/

/-- Where two messages differ, bit by bit. -/
def differences (as bs : List UInt8) : List Bool := List.zipWith xor (as.flatMap bitsOf) (bs.flatMap bitsOf)

@[simp] theorem bitsOf_length (b : UInt8) : (bitsOf b).length = 8 := rfl

theorem bitsOf_injective : Function.Injective bitsOf := by
  intro a b h
  have hbits : ∀ i, i < 8 → a.toNat.testBit i = b.toNat.testBit i := by
    intro i hi
    have hget : (bitsOf a).getD (7 - i) false = (bitsOf b).getD (7 - i) false := by rw [h]
    have hback : 7 - (7 - i) = i := by omega
    simpa [bitsOf, List.getD_eq_getElem?_getD, List.getElem?_range, (by omega : 7 - i < 8), hback] using hget
  apply UInt8.toNat_inj.mp
  apply Nat.eq_of_testBit_eq
  intro i
  by_cases hi : i < 8
  · exact hbits i hi
  · have hpow : 2 ^ 8 ≤ 2 ^ i := Nat.pow_le_pow_right (by decide) (Nat.not_lt.mp hi)
    rw [Nat.testBit_lt_two_pow (Nat.lt_of_lt_of_le a.toNat_lt hpow),
      Nat.testBit_lt_two_pow (Nat.lt_of_lt_of_le b.toNat_lt hpow)]

@[simp] theorem flatMap_bitsOf_length (bs : List UInt8) : (bs.flatMap bitsOf).length = 8 * bs.length := by
  induction bs with
  | nil => rfl
  | cons b bs ih => rw [List.flatMap_cons, List.length_append, ih, bitsOf_length, List.length_cons]; omega

theorem flatMap_bitsOf_injective : Function.Injective (List.flatMap bitsOf) := by
  intro as bs h
  induction as generalizing bs with
  | nil =>
    cases bs with
    | nil => rfl
    | cons b bs => cases h
  | cons a as ih =>
    cases bs with
    | nil => cases h
    | cons b bs =>
      rw [List.flatMap_cons, List.flatMap_cons] at h
      obtain ⟨hhead, htail⟩ := List.append_inj h rfl
      rw [bitsOf_injective hhead, ih htail]

theorem eq_of_zipWith_xor {as bs : List Bool} (h : as.length = bs.length)
    (hzero : true ∉ List.zipWith xor as bs) : as = bs := by
  induction as generalizing bs with
  | nil => exact (List.length_eq_zero_iff.mp h.symm).symm
  | cons a as ih =>
    cases bs with
    | nil => cases h
    | cons b bs =>
      simp only [List.zipWith_cons_cons, List.mem_cons, not_or] at hzero
      have hhead : a = b := by
        cases a <;> cases b <;> simp at hzero ⊢
      rw [hhead, ih (Nat.succ.inj h) hzero.2]

section
variable {as bs : List UInt8} (hlen : as.length = bs.length)
include hlen

theorem differences_length : (differences as bs).length = 8 * as.length := by
  rw [differences, List.length_zipWith, flatMap_bitsOf_length, flatMap_bitsOf_length, hlen, Nat.min_self]

theorem true_mem_differences (h : as ≠ bs) : true ∈ differences as bs := by
  by_contra hzero
  have hbits : (as.flatMap bitsOf).length = (bs.flatMap bitsOf).length := by simp [hlen]
  exact h (flatMap_bitsOf_injective (eq_of_zipWith_xor hbits hzero))

/-- **Two messages of one length** have one check value when their difference leaves nothing. -/
theorem crc_eq_iff (poly init : BitVec w) :
    crc poly init as = crc poly init bs ↔ crcBits poly 0#w (differences as bs) = 0#w := by
  have hbits : (as.flatMap bitsOf).length = (bs.flatMap bitsOf).length := by simp [hlen]
  have hxor := @crcBits_xor w poly _ _ hbits init init
  rw [BitVec.xor_self] at hxor
  rw [differences, hxor, BitVec.xor_eq_zero_iff]
  rfl

end

end EspOta.Lib
