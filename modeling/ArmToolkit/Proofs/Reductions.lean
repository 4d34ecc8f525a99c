import ArmToolkit.Proofs.ElementArithmetic
import ArmToolkit.Proofs.VectorInstructions

/-!
# `Proofs.Reductions` — the active lanes of a vector in one number

## Contents
- **Extrema.** `Extreme` says what the greatest or the least of some numbers is, and a fold gives it (`extreme_foldl`).
- **Exact results.** `ReductionOp.Exact` says what a reduction has to give: sums of integers, extrema of integers, and bits by
  the bits of all elements. There is one such result (`ReductionOp.Exact.unique`), and the fold of the elements is it
  (`ReductionOp.result_exact`).
- **Words.** `ReductionOp.onWords` is the loop of a machine that has 64-bit words alone. It keeps a signed result in a whole
  word and cuts it at the end, and gives the same (`ReductionOp.onWords_eq`).
- **Instructions.** `Simulator.execute_reductions`: an accepted reduction leaves the exact result of the active lanes in its
  destination, and zeros above it.
-/

namespace ArmToolkit.A64

open BitmaskImmediate (onesBelow)

/-! ## Extrema -/

/-- **The greatest or the least of some integers**, by the order in which it is the last. Where there are none it is a number
    that is given for this case. -/
structure Extreme (order : Int → Int → Prop) (neutral : Int) (zs : List Int) (z : Int) : Prop where
  bounds : ∀ y ∈ zs, order y z
  attained : z ∈ zs ∨ zs = [] ∧ z = neutral

/-- There is one extreme at most. -/
theorem Extreme.unique {order : Int → Int → Prop} (antisymm : ∀ {x y}, order x y → order y x → x = y) {neutral z z' : Int}
    {zs : List Int} (h : Extreme order neutral zs z) (h' : Extreme order neutral zs z') : z = z' := by
  rcases h.attained with member | ⟨rfl, rfl⟩
  · rcases h'.attained with member' | ⟨rfl, -⟩
    · exact antisymm (h'.bounds z member) (h.bounds z' member')
    · cases member
  · rcases h'.attained with member' | ⟨-, rfl⟩
    · cases member'
    · rfl

/-- **A choice of the greater or the less of two integers.** -/
structure Chooses (order : Int → Int → Prop) (choose : Int → Int → Int) : Prop where
  either : ∀ x y, choose x y = x ∨ choose x y = y
  left : ∀ x y, order x (choose x y)
  right : ∀ x y, order y (choose x y)
  trans : ∀ {x y z}, order x y → order y z → order x z

theorem chooses_max : Chooses (· ≤ ·) max :=
  ⟨fun x y => by omega, Int.le_max_left, Int.le_max_right, Int.le_trans⟩

theorem chooses_min : Chooses (· ≥ ·) min :=
  ⟨fun x y => by omega, Int.min_le_left, Int.min_le_right, fun hx hy => Int.le_trans hy hx⟩

namespace Chooses

variable {order : Int → Int → Prop} {choose : Int → Int → Int} {neutral : Int}

/-- A number that is chosen again and again is the last of all. -/
theorem extreme_from (h : Chooses order choose) (z : Int) (zs : List Int) :
    Extreme order neutral (z :: zs) (zs.foldl choose z) := by
  -- by the numbers that are left, with the one chosen so far as the first
  induction zs generalizing z with
  | nil =>
    have same : choose z z = z := (h.either z z).elim id id
    refine ⟨?_, .inl List.mem_cons_self⟩
    intro y hy
    obtain rfl := List.mem_singleton.mp hy
    have last := h.left y y
    rwa [same] at last
  | cons y zs ih =>
    obtain ⟨bounds, attained⟩ := ih (choose z y)
    have last := bounds (choose z y) List.mem_cons_self
    refine ⟨?_, .inl ?_⟩
    · intro x hx
      rcases List.mem_cons.mp hx with rfl | hx
      · exact h.trans (h.left x y) last
      · rcases List.mem_cons.mp hx with rfl | hx
        · exact h.trans (h.right z x) last
        · exact bounds x (List.mem_cons_of_mem _ hx)
    · rcases attained with member | ⟨none, -⟩
      · rcases List.mem_cons.mp member with chosen | member
        · rw [List.foldl_cons, chosen]
          rcases h.either z y with first | second
          · simp [first]
          · simp [second]
        · exact List.mem_cons_of_mem _ (List.mem_cons_of_mem _ member)
      · cases none

/-- **A fold of choices** from a number that is never chosen gives the extreme one. -/
theorem extreme_foldl (h : Chooses order choose) {zs : List Int} (identity : ∀ z ∈ zs, choose neutral z = z) :
    Extreme order neutral zs (zs.foldl choose neutral) := by
  cases zs with
  | nil => exact ⟨fun _ hy => absurd hy List.not_mem_nil, .inr ⟨rfl, rfl⟩⟩
  | cons z zs =>
    rw [List.foldl_cons, identity z List.mem_cons_self]
    exact h.extreme_from z zs

end Chooses

/-! ## Exact results -/

namespace ReductionOp

/-- The number of bits of the result: sums have 64, and other results are as wide as the elements. -/
def width (op : ReductionOp) (n : Nat) : Nat :=
  match op with
  | saddv | uaddv => 64
  | smaxv | umaxv | sminv | uminv | orv | eorv | andv => n

/-- **What a reduction of some elements has to give.** -/
def Exact {n : Nat} (op : ReductionOp) (xs : List (BitVec n)) (r : BitVec (op.width n)) : Prop :=
  match op with
  | saddv => (r.toNat : Int) = xs.foldl (fun sum x => sum + x.toInt) 0 % (twoPow 64 : Int)
  | uaddv => r.toNat = xs.foldl (fun sum x => sum + x.toNat) 0 % twoPow 64
  | smaxv => Extreme (· ≤ ·) (-(twoPow (n - 1) : Int)) (xs.map BitVec.toInt) r.toInt
  | umaxv => Extreme (· ≤ ·) 0 (xs.map fun x => (x.toNat : Int)) r.toNat
  | sminv => Extreme (· ≥ ·) (twoPow (n - 1) - 1) (xs.map BitVec.toInt) r.toInt
  | uminv => Extreme (· ≥ ·) (twoPow n - 1) (xs.map fun x => (x.toNat : Int)) r.toNat
  | orv => ∀ i < n, r.getLsbD i = xs.any fun x => x.getLsbD i
  | eorv => ∀ i < n, r.getLsbD i = decide (xs.countP (fun x => x.getLsbD i) % 2 = 1)
  | andv => ∀ i < n, r.getLsbD i = xs.all fun x => x.getLsbD i

variable {n : Nat} {op : ReductionOp}

/-- **There is one exact result at most.** -/
theorem Exact.unique {xs : List (BitVec n)} {r r' : BitVec (op.width n)} (h : op.Exact xs r) (h' : op.Exact xs r') :
    r = r' := by
  have signed : ∀ {r r' : BitVec n}, r.toInt = r'.toInt → r = r' := BitVec.toInt_inj.mp
  have unsigned : ∀ {m} {r r' : BitVec m}, (r.toNat : Int) = r'.toNat → r = r' := fun same =>
    BitVec.eq_of_toNat_eq (Int.ofNat_inj.mp same)
  cases op with
  | saddv => exact unsigned (h.trans h'.symm)
  | uaddv => exact BitVec.eq_of_toNat_eq (h.trans h'.symm)
  | smaxv => exact signed (Extreme.unique Int.le_antisymm h h')
  | sminv => exact signed (Extreme.unique (fun hx hy => Int.le_antisymm hy hx) h h')
  | umaxv => exact unsigned (Extreme.unique Int.le_antisymm h h')
  | uminv => exact unsigned (Extreme.unique (fun hx hy => Int.le_antisymm hy hx) h h')
  | orv | eorv | andv => exact BitVec.eq_of_getLsbD_eq fun i hi => (h i hi).trans (h' i hi).symm

/-- What is read from a fold of elements, where each step can be told from what is read. -/
theorem read_foldl {β : Type} {op : ElementOp} {read : BitVec n → β} {step : β → β → β}
    (exact : ∀ a b, read (op.apply a b) = step (read a) (read b)) (xs : List (BitVec n)) (start : BitVec n) :
    read (xs.foldl op.apply start) = (xs.map read).foldl step (read start) := by
  rw [List.foldl_map]
  exact (List.foldl_hom read fun x y => (exact x y).symm).symm

/-- A bit of elements that are combined by `and` is set if all of them have it. -/
theorem getLsbD_foldl_and (xs : List (BitVec n)) (start : BitVec n) (i : Nat) :
    (xs.foldl (ElementOp.apply .and) start).getLsbD i = (start.getLsbD i && xs.all fun x => x.getLsbD i) := by
  induction xs generalizing start with
  | nil => simp
  | cons x xs ih =>
    rw [List.foldl_cons, ih, ElementOp.apply, BitVec.getLsbD_and, List.all_cons, Bool.and_assoc]

/-- A bit of elements that are combined by `or` is set if one of them has it. -/
theorem getLsbD_foldl_or (xs : List (BitVec n)) (start : BitVec n) (i : Nat) :
    (xs.foldl (ElementOp.apply .orr) start).getLsbD i = (start.getLsbD i || xs.any fun x => x.getLsbD i) := by
  induction xs generalizing start with
  | nil => simp
  | cons x xs ih =>
    rw [List.foldl_cons, ih, ElementOp.apply, BitVec.getLsbD_or, List.any_cons, Bool.or_assoc]

/-- A bit of elements that are combined by exclusive `or` is set if an odd number of them have it. -/
theorem getLsbD_foldl_eor (xs : List (BitVec n)) (start : BitVec n) (i : Nat) :
    (xs.foldl (ElementOp.apply .eor) start).getLsbD i =
      (start.getLsbD i ^^ decide (xs.countP (fun x => x.getLsbD i) % 2 = 1)) := by
  induction xs generalizing start with
  | nil => simp
  | cons x xs ih =>
    rw [List.foldl_cons, ih, ElementOp.apply, BitVec.getLsbD_xor, List.countP_cons, Bool.xor_assoc]
    congr 1
    cases x.getLsbD i with
    | false => simp
    | true =>
      rw [if_pos rfl, Bool.true_xor, ← decide_not, decide_eq_decide]
      omega

/-- A fold that chooses the greater or the less of two elements, from one that is never chosen. -/
theorem extreme_read {order : Int → Int → Prop} {choose : Int → Int → Int} (chooses : Chooses order choose) {op : ElementOp}
    (read : BitVec n → Int) (exact : ∀ a b, read (op.apply a b) = choose (read a) (read b)) {start : BitVec n}
    {neutral : Int} (starts : read start = neutral) (identity : ∀ x, choose neutral (read x) = read x)
    (xs : List (BitVec n)) : Extreme order neutral (xs.map read) (read (xs.foldl op.apply start)) := by
  rw [read_foldl exact, starts]
  refine chooses.extreme_foldl fun z hz => ?_
  obtain ⟨x, -, rfl⟩ := List.mem_map.mp hz
  exact identity x

/-- The least signed element is the lower end of the signed range. -/
theorem intMin_toInt (positive : 0 < n) : (BitVec.intMin n).toInt = -(twoPow (n - 1) : Int) := by
  rw [BitVec.toInt_intMin_of_pos positive]
  exact_mod_cast rfl

/-- The greatest signed element is the upper end of the signed range. -/
theorem intMax_toInt : (BitVec.intMax n).toInt = twoPow (n - 1) - 1 := by
  rw [BitVec.toInt_intMax]
  exact_mod_cast rfl

/-- The result of a reduction: the fold, as wide as the result is. -/
def result (op : ReductionOp) (xs : List (BitVec n)) : BitVec (op.width n) := (Semantics.fold op xs).setWidth _

/-- **The fold of some elements is the exact result.** -/
theorem result_exact (positive : 0 < n) (narrow : n ≤ 64) (op : ReductionOp) (xs : List (BitVec n)) :
    op.Exact xs (op.result xs) := by
  have cut : ∀ r : BitVec n, (r.setWidth 64).setWidth n = r := setWidth_extended narrow
  -- sums are read as integers, extremes by the order that they are chosen in, and the others bit by bit
  cases op with
  | saddv =>
    have sum : xs.foldl (fun sum x => sum + x.signExtend 64) (BitVec.ofInt 64 0) =
        BitVec.ofInt 64 (xs.foldl (fun sum x => sum + x.toInt) 0) :=
      List.foldl_hom (BitVec.ofInt 64) fun sum x => (BitVec.ofInt_add sum x.toInt).symm
    show (((xs.foldl (fun sum x => sum + x.signExtend 64) (BitVec.ofInt 64 0)).setWidth 64).toNat : Int) = _
    rw [BitVec.setWidth_eq, sum, BitVec.toNat_ofInt]
    exact Int.toNat_of_nonneg (Int.emod_nonneg _ (by decide))
  | uaddv =>
    have sum : xs.foldl (fun sum x => sum + x.setWidth 64) (BitVec.ofNat 64 0) =
        BitVec.ofNat 64 (xs.foldl (fun sum x => sum + x.toNat) 0) :=
      List.foldl_hom (BitVec.ofNat 64) fun sum x => by rw [BitVec.ofNat_add, BitVec.ofNat_toNat]
    show ((xs.foldl (fun sum x => sum + x.setWidth 64) (BitVec.ofNat 64 0)).setWidth 64).toNat = _
    rw [BitVec.setWidth_eq, sum]
    exact BitVec.toNat_ofNat ..
  | smaxv =>
    show Extreme _ _ _ (((xs.foldl (ElementOp.apply .smax) (BitVec.intMin n)).setWidth 64).setWidth n).toInt
    rw [cut]
    refine extreme_read chooses_max BitVec.toInt (ElementOp.apply_exact positive .smax) (intMin_toInt positive)
      (fun x => ?_) xs
    have range := toInt_bounds x
    omega
  | sminv =>
    show Extreme _ _ _ (((xs.foldl (ElementOp.apply .smin) (BitVec.intMax n)).setWidth 64).setWidth n).toInt
    rw [cut]
    refine extreme_read chooses_min BitVec.toInt (ElementOp.apply_exact positive .smin) intMax_toInt (fun x => ?_) xs
    have range := toInt_bounds x
    omega
  | umaxv =>
    show Extreme _ _ _ (((xs.foldl (ElementOp.apply .umax) 0).setWidth 64).setWidth n).toNat
    rw [cut]
    refine extreme_read chooses_max (fun x => (x.toNat : Int)) (fun a b => ?_) ?_ (fun x => ?_) xs
    · exact (congrArg Nat.cast (ElementOp.apply_exact positive .umax a b)).trans (by omega)
    · exact congrArg Nat.cast (BitVec.toNat_zero (w := n))
    · omega
  | uminv =>
    show Extreme _ _ _ (((xs.foldl (ElementOp.apply .umin) (BitVec.allOnes n)).setWidth 64).setWidth n).toNat
    rw [cut]
    refine extreme_read chooses_min (fun x => (x.toNat : Int)) (fun a b => ?_) ?_ (fun x => ?_) xs
    · exact (congrArg Nat.cast (ElementOp.apply_exact positive .umin a b)).trans (by omega)
    · rw [BitVec.toNat_allOnes]
      exact Int.ofNat_sub (twoPow_pos n)
    · have below : x.toNat < twoPow n := x.isLt
      omega
  | orv =>
    intro i hi
    show (((xs.foldl (ElementOp.apply .orr) 0).setWidth 64).setWidth n).getLsbD i = _
    rw [cut, getLsbD_foldl_or]
    simp
  | eorv =>
    intro i hi
    show (((xs.foldl (ElementOp.apply .eor) 0).setWidth 64).setWidth n).getLsbD i = _
    rw [cut, getLsbD_foldl_eor]
    simp
  | andv =>
    intro i hi
    show (((xs.foldl (ElementOp.apply .and) (BitVec.allOnes n)).setWidth 64).setWidth n).getLsbD i = _
    rw [cut, getLsbD_foldl_and]
    simp [hi]

/-! ## Words -/

/-- The word that a reduction of elements of some bits starts from. -/
def start (op : ReductionOp) (bits : Nat) : BitVec 64 :=
  match op with
  | saddv | uaddv | umaxv | orv | eorv => 0
  | uminv | andv => onesBelow bits
  | smaxv => -onesBelow (bits - 1) - 1
  | sminv => onesBelow (bits - 1)

/-- **One step of the loop**: the zero-extended element in a word is combined with the result so far. -/
def step (op : ReductionOp) (bits : Nat) (result value : BitVec 64) : BitVec 64 :=
  let signed := signedWord bits value
  match op with
  | saddv => result + signed
  | uaddv => result + value
  | smaxv => if result.slt signed then signed else result
  | umaxv => if result < value then value else result
  | sminv => if signed.slt result then signed else result
  | uminv => if value < result then value else result
  | orv => result ||| value
  | eorv => result ^^^ value
  | andv => result &&& value

/-- **The loop over words.** -/
def onWords (op : ReductionOp) (bits : Nat) (values : List (BitVec 64)) : BitVec 64 :=
  values.foldl (op.step bits) (op.start bits)

/-- The word of an element that is sign-extended is the extension. -/
theorem signedWord_eq (positive : 0 < n) (narrow : n ≤ 64) (x : BitVec n) :
    signedWord n (x.setWidth 64) = x.signExtend 64 := by
  rw [← BitVec.ofInt_toInt (x := signedWord n (x.setWidth 64)), toInt_signedWord positive narrow]
  rfl

/-- A sign-extended element is in the lowest bits of the word. -/
theorem setWidth_signExtend (narrow : n ≤ 64) (x : BitVec n) : (x.signExtend 64).setWidth n = x := by
  show (BitVec.ofInt 64 x.toInt).setWidth n = x
  rw [setWidth_ofInt narrow, BitVec.ofInt_toInt]

/-- A sign-extended element has the signed value of the element. -/
theorem toInt_signExtend_element (positive : 0 < n) (narrow : n ≤ 64) (x : BitVec n) :
    (x.signExtend 64).toInt = x.toInt := by
  rw [← signedWord_eq positive narrow, toInt_signedWord positive narrow]

/-- **A loop whose result is an extended element at each step** ends with the fold of the elements. -/
theorem onWords_of_steps (narrow : n ≤ 64) (op : ReductionOp) (element : ElementOp) {extend : BitVec n → BitVec 64}
    (whole : ∀ x, (extend x).setWidth n = x) {first : BitVec n} (starts : op.start n = extend first)
    (steps : ∀ a b, op.step n (extend a) (b.setWidth 64) = extend (element.apply a b)) (xs : List (BitVec n)) :
    (op.onWords n (xs.map fun x => x.setWidth 64)).setWidth n = ((xs.foldl element.apply first).setWidth 64).setWidth n := by
  rw [onWords, List.foldl_map, starts, List.foldl_hom extend steps, whole, setWidth_extended narrow]

/-- **The loop over words gives the same result**, cut to its width. -/
theorem onWords_eq (positive : 0 < n) (narrow : n ≤ 64) (op : ReductionOp) (xs : List (BitVec n)) :
    (op.onWords n (xs.map fun x => x.setWidth 64)).setWidth (op.width n) = op.result xs := by
  have signed := signedWord_eq positive narrow
  have value := toInt_signExtend_element positive narrow
  have small : n - 1 < 64 := by omega
  have ones : onesBelow n = (BitVec.allOnes n).setWidth 64 := by
    apply BitVec.eq_of_toNat_eq
    rw [toNat_onesBelow narrow, BitVec.toNat_setWidth_of_le narrow, BitVec.toNat_allOnes]
    rfl
  have zero : (0 : BitVec 64) = (0 : BitVec n).setWidth 64 := (BitVec.setWidth_zero 64 n).symm
  -- the word of the loop is the fold of the elements, extended by sign for signed extremes and by zeros else
  cases op with
  | saddv =>
    show (List.foldl (fun sum x => sum + signedWord n x) 0 (xs.map (BitVec.setWidth 64))).setWidth 64 = _
    simp only [List.foldl_map, signed]
    rfl
  | uaddv =>
    show (List.foldl (fun sum x => sum + x) 0 (xs.map (BitVec.setWidth 64))).setWidth 64 = _
    rw [List.foldl_map]
    rfl
  | smaxv =>
    refine onWords_of_steps narrow .smaxv .smax (setWidth_signExtend narrow) ?_ (fun a b => ?_) xs
    · apply BitVec.eq_of_toInt_eq
      rw [value, intMin_toInt positive]
      exact toInt_least small
    · simp only [step, signed, BitVec.slt_iff_toInt_lt, value, ElementOp.apply]
      split <;> rfl
  | sminv =>
    refine onWords_of_steps narrow .sminv .smin (setWidth_signExtend narrow) ?_ (fun a b => ?_) xs
    · apply BitVec.eq_of_toInt_eq
      rw [value, intMax_toInt]
      exact toInt_greatest small
    · simp only [step, signed, BitVec.slt_iff_toInt_lt, value, ElementOp.apply]
      split <;> rfl
  | umaxv =>
    refine onWords_of_steps narrow .umaxv .umax (setWidth_extended narrow) zero (fun a b => ?_) xs
    simp only [step, BitVec.lt_def, BitVec.toNat_setWidth_of_le narrow, ElementOp.apply]
    split <;> rfl
  | uminv =>
    refine onWords_of_steps narrow .uminv .umin (setWidth_extended narrow) ones (fun a b => ?_) xs
    simp only [step, BitVec.lt_def, BitVec.toNat_setWidth_of_le narrow, ElementOp.apply]
    split <;> rfl
  | orv =>
    exact onWords_of_steps narrow .orv .orr (setWidth_extended narrow) zero (fun _ _ => BitVec.setWidth_or.symm) xs
  | eorv =>
    exact onWords_of_steps narrow .eorv .eor (setWidth_extended narrow) zero (fun _ _ => BitVec.setWidth_xor.symm) xs
  | andv =>
    exact onWords_of_steps narrow .andv .and (setWidth_extended narrow) ones (fun _ _ => BitVec.setWidth_and.symm) xs

end ReductionOp

/-! ## Instructions -/

namespace Simulator

open Semantics (laneAt regAt scalarBits)

variable {sim : Simulator} {inst : Instruction} {op : ReductionOp} {vl : VectorLength} {l : LaneSize}

/-- **The destination is as wide as the result.** -/
theorem Accepts.scalarBits_eq (h : sim.Accepts inst (.reduction op) vl l) : scalarBits (arg inst.ops 0) = op.width l.bits := by
  have source : (arg inst.ops 2).lane = some l := h.lane
  have lane : (arg inst.ops 0).lane = if op = .saddv ∨ op = .uaddv then some .d else some l := by
    cases op with
    | saddv | uaddv => exact h.passes.passes (c := .laneIs 0 (some .d)) (by simp [Form.checks])
    | smaxv | umaxv | sminv | uminv | orv | eorv | andv =>
      exact (h.passes.passes (c := .sameLane 0 2) (by simp [Form.checks])).trans source
  rw [scalarBits, lane]
  cases op <;> rfl

/-- The destination after a reduction. -/
theorem Accepts.reduces (h : sim.Accepts inst (.reduction op) vl l) :
    (sim.execute inst).failure = none ∧ (sim.execute inst).sim.core.regs.zBits (regAt inst.ops 0) =
      (op.result ((activeLanes l.bytes (sim.core.regs.pBits (regAt inst.ops 1)) (vl.lanes l)).map
        (sim.core.regs.zLane (regAt inst.ops 2) l.bits))).setWidth 2048 := by
  have code : regAt inst.ops 0 < 32 := (h.passes.keepsRegister (i := 0) rfl _ rfl).1
  have lane : laneAt inst.ops 2 = l := (h.size Sizing.noConfusion List.mem_cons_self).2
  have width := h.scalarBits_eq
  have executed : Semantics.execute (.reduction op) inst.cond inst.ops sim.core =
      Semantics.registersOnly sim.core (Semantics.reduction vl inst.ops sim.core.regs op) := h.execute rfl
  obtain ⟨succeeds, left⟩ := execute_registers h.formed executed
  refine ⟨succeeds, ?_⟩
  rw [left]
  subst lane
  show (sim.core.regs.setZ _ _).zBits _ = _
  rw [Registers.zBits_setZ, if_pos ⟨rfl, code⟩, width]
  rfl

/-- **A reduction is exact.** An accepted reduction takes the elements of the lanes that are active before it, in rising order.
    It leaves in its destination, which may be its source, the one exact result, and zeros above. The result is also what a
    loop over 64-bit words has in its lowest bits. -/
theorem execute_reductions (sim : Simulator) :
    ∀ inst op vl l, sim.Accepts inst (.reduction op) vl l →
      let before := sim.core.regs
      let xs := (activeLanes l.bytes (before.pBits (regAt inst.ops 1)) (vl.lanes l)).map (before.zLane (regAt inst.ops 2) l.bits)
      (sim.execute inst).failure = none ∧ ∃ r : BitVec (op.width l.bits),
        (∀ r', op.Exact xs r' ↔ r' = r) ∧ r = (op.onWords l.bits (xs.map fun x => x.setWidth 64)).setWidth _ ∧
          (sim.execute inst).sim.core.regs.zBits (regAt inst.ops 0) = r.setWidth 2048 := by
  intro inst op vl l h before xs
  obtain ⟨succeeds, left⟩ := h.reduces
  obtain ⟨allowed, -⟩ := h.size Sizing.noConfusion List.mem_cons_self
  have positive := l.bits_pos
  have narrow : l.bits ≤ 64 := by
    have table : ∀ op, ∀ l ∈ (Form.reduction op).lanes, l.bits ≤ 64 := by
      intro op
      cases op <;> decide
    exact table op l allowed
  have exact := op.result_exact positive narrow xs
  refine ⟨succeeds, op.result xs, ?_, (op.onWords_eq positive narrow xs).symm, left⟩
  intro r'
  constructor
  · intro other
    exact other.unique exact
  · rintro rfl
    exact exact

/-- The greatest of the halfwords -3 and -7, with a 5 between them that is not active. The source is overwritten: the result is
    not sign-extended, and what was above it is gone. -/
theorem execute_reductions_source :
    let regs : Registers := ((Registers.zero (VectorLength.ofBits? 256)).setP 0 0x19).setZ 1 0x8000fff90005fffd
    let sim : Simulator := ⟨⟨256, 1, 0, false⟩, ⟨regs, .empty⟩, 0, false, none⟩
    let inst : Instruction := ⟨some (.reduction .smaxv), .al, [.ofV ⟨1, some .h⟩, .ofP ⟨0, none, none⟩, .ofZ ⟨1, some .h⟩]⟩
    (sim.execute inst).failure = none ∧ (sim.execute inst).sim.core.regs.zBits 1 = (0xfffd : BitVec 16).setWidth 2048 := by
  intro regs sim inst
  have accepted : ∀ vl, regs.vl = some vl → sim.Accepts inst (.reduction .smaxv) vl .h := fun vl configured =>
    ⟨⟨_, rfl⟩, rfl, rfl, configured⟩
  obtain ⟨succeeds, r, exact, -, left⟩ := execute_reductions sim inst .smaxv _ .h (accepted _ rfl)
  have active : (activeLanes 2 (regs.pBits 0) 16).map (regs.zLane 1 16) = [0xfffd, 0xfff9] := by decide +kernel
  have greatest : Extreme (· ≤ ·) (-0x8000) [-3, -7] (-3) := ⟨by decide, .inl (by decide)⟩
  have result : ReductionOp.smaxv.Exact ((activeLanes 2 (regs.pBits 0) 16).map (regs.zLane 1 16)) (0xfffd : BitVec 16) := by
    rw [active]
    exact greatest
  rw [← (exact _).mp result] at left
  exact ⟨succeeds, left⟩

end Simulator

end ArmToolkit.A64
