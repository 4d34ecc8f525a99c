import Mathlib.Order.Bounds.Basic
import ArmToolkit.A64.MacroCall
import ArmToolkit.Proofs.NextLane
import ArmToolkit.Proofs.ScratchPools

/-!
# `Proofs.LaneSearch` — the first and the next lane of a predicate, with any aliasing

Both instructions overwrite the predicate that they start from. The macros bring it to the destination before. Where the
destination is the governing predicate that would lose what governs, so it is saved in a scratch register.

## Contents
- **Predicates below the vector length.** `AgreeBelow`: predicates with the same lowest bits govern the same lanes.
- **Least lanes.** The first active lane is the least one, and the next lane is the least one behind all lanes of another
  predicate (`Semantics.nextLane_eq_some_iff`).
- **Searches.** `LaneSearch`: the two macros, and the bits that each leaves.
- **Instructions.** What a copy of a predicate leaves (`Assembler.movePredicate_emits`), and what a search does
  (`Assembler.search_emits`).
- **The macros.** What their words leave for every way that the operands can be aliases
  (`Assembler.onPredicateCopy_emits`), as one statement about both (`Assembler.laneSearch_computes`).
-/

namespace ArmToolkit.A64

/-! ## Predicates below the vector length -/

/-- **Predicates with the same lowest bits.** -/
def AgreeBelow (count : Nat) (p q : PBits) : Prop := ∀ j < count, p.getLsbD j = q.getLsbD j

namespace AgreeBelow

variable {vl : VectorLength} {p q : PBits}

theorem of_eq {count : Nat} (same : p = q) : AgreeBelow count p q := fun _ _ => same ▸ rfl

/-- Predicates that agree below the vector length govern the same lanes of every size. -/
theorem governed (h : AgreeBelow vl.bytes p q) (l : LaneSize) :
    Governed l.bytes (vl.lanes l) p = Governed l.bytes (vl.lanes l) q := by
  funext i
  have inside (hi : i < vl.lanes l) : activeLane l.bytes p i = activeLane l.bytes q i := by
    have room := Nat.mul_lt_mul_of_pos_right hi l.bytes_pos
    have fits : vl.lanes l * l.bytes ≤ vl.bytes := Nat.div_mul_le_self vl.bytes l.bytes
    exact h _ (by omega)
  exact propext (and_congr_right fun hi => by rw [inside hi])

end AgreeBelow

/-- What flags tell of a result is the same for every predicate that governs the same lanes. -/
theorem Describes.congr {flags : Flags} {k count : Nat} {p q result : PBits} (same : Governed k count p = Governed k count q)
    (h : Describes flags k count p result) : Describes flags k count q result where
  first := by rw [← same]; exact h.first
  none := by rw [← same]; exact h.none
  notLast := by rw [← same]; exact h.notLast
  clear := h.clear

/-! ## Least lanes -/

namespace Semantics

variable (k count : Nat) (governing start : PBits) (i : Nat)

/-- **The first active lane** is the least one. -/
theorem firstLane_eq_some_iff :
    (activeLanes k governing count).head? = some i ↔ IsLeast {i | Governed k count governing i} i := by
  rw [head?_eq_some_iff (activeLanes_rising k governing count)]
  simp only [mem_activeLanes]
  rfl

/-- The place behind the last active lane of a predicate. -/
def behind : Nat :=
  match (activeLanes k start count).getLast? with
  | some i => i + 1
  | none => 0

/-- The lanes from there on are those above all active lanes. -/
theorem behind_le_iff : behind k count start ≤ i ↔ ∀ j, Governed k count start j → j < i := by
  unfold behind
  simp only [← mem_activeLanes]
  cases last : (activeLanes k start count).getLast? with
  | none =>
    rw [List.getLast?_eq_none_iff.mp last]
    simp
  | some m =>
    obtain ⟨member, greatest⟩ := (getLast?_eq_some_iff (activeLanes_rising k start count)).mp last
    constructor
    · intro behind j hj
      exact Nat.lt_of_le_of_lt (greatest j hj) behind
    · intro above
      exact above m member

/-- **The next lane** is the least active one behind all active lanes of a predicate. -/
theorem nextLane_eq_some_iff :
    ((activeLanes k governing count).find? fun i => decide (behind k count start ≤ i)) = some i ↔
      IsLeast {i | Governed k count governing i ∧ ∀ j, Governed k count start j → j < i} i := by
  -- the lanes that are passed over are sorted out first, and the order stays
  rw [← List.head?_filter, head?_eq_some_iff ((activeLanes_rising k governing count).filter _)]
  simp only [List.mem_filter, mem_activeLanes, decide_eq_true_eq, behind_le_iff]
  rfl

end Semantics

/-! ## Searches -/

/-- **The two macros that look for a lane**: the first one, which is added to a predicate, and the next one behind it. -/
inductive LaneSearch
  | first
  | next

namespace LaneSearch

/-- The macro with its operands. -/
def call (search : LaneSearch) (pd pg pn : PReg) : MacroCall :=
  match search with
  | first => .pfirst pd pg pn
  | next => .pnext pd pg pn

/-- The instruction that it uses. -/
def form : LaneSearch → Form
  | first => .pfirst
  | next => .pnext

/-- The lane size that it looks at: bytes for the first lane, and the view of the predicate it starts from for the next. -/
def lane (search : LaneSearch) (pn : PReg) : Option LaneSize :=
  match search with
  | first => some .b
  | next => pn.lane

/-- **The lanes that it chooses the least from**: those that are governed, for the next lane only the ones behind every lane
    of the predicate that it starts from. -/
def Candidate (search : LaneSearch) (k count : Nat) (governing start : PBits) (i : Nat) : Prop :=
  match search with
  | first => Governed k count governing i
  | next => Governed k count governing i ∧ ∀ j, Governed k count start j → j < i

/-- **The bits of its result**: the lowest bit of the lane that it finds, and for the first lane also the bits of the
    predicate that it starts from. -/
def Leaves (search : LaneSearch) (k count : Nat) (governing start : PBits) (bit : Nat) : Prop :=
  (∃ i, IsLeast {i | search.Candidate k count governing start i} i ∧ bit = i * k) ∨
    search = first ∧ start.getLsbD bit = true

variable {search : LaneSearch} {k count : Nat} {governing start : PBits}

/-- The lanes that are left depend on the governed lanes, and below the vector length on nothing else. -/
theorem leaves_congr {vl : VectorLength} {governing' start' : PBits} (hg : AgreeBelow vl.bytes governing governing')
    (hs : AgreeBelow vl.bytes start start') (l : LaneSize) {bit : Nat} (inside : bit < vl.bytes) :
    search.Leaves l.bytes (vl.lanes l) governing start bit ↔ search.Leaves l.bytes (vl.lanes l) governing' start' bit := by
  unfold Leaves
  rw [hs bit inside]
  cases search with
  | first => simp only [Candidate, hg.governed l]
  | next => simp only [Candidate, hg.governed l, hs.governed l]

/-- The result as the instruction forms it. -/
def result (search : LaneSearch) (k count : Nat) (governing start : PBits) : PBits :=
  match search with
  | first =>
    match activeLanes k governing count with
    | i :: _ => setActive k start i true
    | [] => start
  | next =>
    onlyLane k <| (activeLanes k governing count).find? fun i => decide (Semantics.behind k count start ≤ i)

/-- The first lane is added to the bits of a predicate. Its lanes are bytes. -/
theorem getLsbD_result_first (fits : count ≤ 256) (bit : Nat) :
    (first.result 1 count governing start).getLsbD bit = true ↔ first.Leaves 1 count governing start bit := by
  have least (i : Nat) : IsLeast {i | first.Candidate 1 count governing start i} i ↔
      (activeLanes 1 governing count).head? = some i := (Semantics.firstLane_eq_some_iff 1 count governing i).symm
  unfold Leaves result
  simp only [least]
  cases lanes : activeLanes 1 governing count with
  | nil => simp
  | cons i rest =>
    have inside : i < count := (mem_activeLanes.mp (by rw [lanes]; exact List.mem_cons_self)).1
    show (setActive 1 start i true).getLsbD bit = true ↔ _
    rw [getLsbD_setActive_true Nat.one_pos (by omega)]
    -- the one bit of the lane that was found, or a bit of another lane
    by_cases here : bit = i <;> simp [here]

/-- The next lane is the only one. -/
theorem getLsbD_result_next (positive : 0 < k) (fits : count * k ≤ 256) (bit : Nat) :
    (next.result k count governing start).getLsbD bit = true ↔ next.Leaves k count governing start bit := by
  have least := Semantics.nextLane_eq_some_iff k count governing start
  unfold Leaves result
  show _ ↔
    (∃ i, IsLeast {i | Governed k count governing i ∧ ∀ j, Governed k count start j → j < i} i ∧ bit = i * k) ∨ _
  simp only [← least, reduceCtorEq, false_and, or_false]
  cases found : (activeLanes k governing count).find? _ with
  | none => simp [onlyLane]
  | some i =>
    have inside : i < count := (mem_activeLanes.mp (List.mem_of_find?_eq_some found)).1
    have room := Nat.mul_lt_mul_of_pos_right inside positive
    rw [getLsbD_onlyLane positive (by omega)]
    simp

/-- **A search has the bits of its result**, at every lane size that its instruction has. -/
theorem getLsbD_result {l : LaneSize} (allowed : l ∈ search.form.lanes) (vl : VectorLength) (bit : Nat) :
    (search.result l.bytes (vl.lanes l) governing start).getLsbD bit = true ↔
      search.Leaves l.bytes (vl.lanes l) governing start bit := by
  have fits := vl.lanes_mul_bytes_le l
  cases search with
  | first =>
    obtain rfl : l = .b := List.mem_singleton.mp allowed
    exact getLsbD_result_first (by rwa [LaneSize.bytes, Nat.mul_one] at fits) bit
  | next => exact getLsbD_result_next l.bytes_pos fits bit

/-- The lane size that it looks at is one that its instruction has. -/
theorem lane_allowed {l : LaneSize} {pn : PReg} (lane : search.lane pn = some l) (allowed : l ∈ Form.bhsd) :
    l ∈ search.form.lanes := by
  cases search with
  | first =>
    obtain rfl : LaneSize.b = l := Option.some.inj lane
    exact List.mem_singleton_self _
  | next => exact allowed

end LaneSearch

/-- **What a search leaves**: the bits of its result below the vector length, flags that describe the result seen through the
    governing predicate, and all other predicates as they were, but for a scratch register that has been taken. -/
structure Core.Searched (search : LaneSearch) (l : LaneSize) (pd pg pn : Nat) (taken : Option Nat) (vl : VectorLength)
    (core after : Core) : Prop where
  bits : ∀ bit < vl.bytes, (after.regs.pBits pd).getLsbD bit = true ↔
    search.Leaves l.bytes (vl.lanes l) (core.regs.pBits pg) (core.regs.pBits pn) bit
  flags : Describes after.regs.flags l.bytes (vl.lanes l) (core.regs.pBits pg) (after.regs.pBits pd)
  kept : ∀ p, p ≠ pd → some p ≠ taken → after.regs.pBits p = core.regs.pBits p

/-- **What a copy of a predicate leaves**: its bits below the vector length, and the other predicates as they were. -/
structure Core.CopiesPredicate (pd pn : Nat) (vl : VectorLength) (core after : Core) : Prop where
  copied : AgreeBelow vl.bytes (after.regs.pBits pd) (core.regs.pBits pn)
  kept : ∀ p, p ≠ pd → after.regs.pBits p = core.regs.pBits p

/-- **A search behind copies.** Below the vector length the governing predicate and the destination agree with the predicates
    that were meant. -/
theorem Core.Searched.behind {search : LaneSearch} {l : LaneSize} {pd pg pg' pn : Nat} {taken : Option Nat} {vl : VectorLength}
    {core mid after : Core} (governs : AgreeBelow vl.bytes (mid.regs.pBits pg') (core.regs.pBits pg))
    (starts : AgreeBelow vl.bytes (mid.regs.pBits pd) (core.regs.pBits pn))
    (kept : ∀ p, p ≠ pd → some p ≠ taken → mid.regs.pBits p = core.regs.pBits p)
    (searched : Searched search l pd pg' pd none vl mid after) : Searched search l pd pg pn taken vl core after where
  bits bit inside := (searched.bits bit inside).trans (LaneSearch.leaves_congr governs starts l inside)
  flags := searched.flags.congr (governs.governed l)
  kept p other untaken := (searched.kept p other (Option.some_ne_none p)).trans (kept p other untaken)

/-! ## Instructions -/

namespace Assembler

variable {a : Assembler} {l : LaneSize} {pd pg pn : Nat}

/-- The operands of a copy of a predicate. -/
def predicateMoveOps (pd pn : Nat) : List Operand :=
  [.ofP ⟨pd, some .b, none⟩, .ofP ⟨pn, none, some .zeroing⟩, .ofP ⟨pn, some .b, none⟩, .ofP ⟨pn, some .b, none⟩]

/-- **A predicate is copied**, or is where it should be. -/
theorem movePredicate_emits (hpd : pd < 16) (hpn : pn < 16) (lane lane' : Option LaneSize) (q q' : Option Qualifier) :
    a.Emits (a.movePredicate ⟨pd, lane, q⟩ ⟨pn, lane', q'⟩) (Core.CopiesPredicate pd pn) := by
  unfold movePredicate
  by_cases same : pd = pn
  · rw [if_pos same]
    subst same
    refine (Emits.nothing a).mono fun vl core after still => ?_
    subst still
    exact ⟨fun _ _ => rfl, fun _ _ => rfl⟩
  · rw [if_neg same]
    have registers : ∀ op ∈ predicateMoveOps pd pn, op.IsRegister := by
      simp only [predicateMoveOps, List.forall_mem_cons]
      exact ⟨.predicate _ hpd, .predicate _ hpn, .predicate _ hpn, .predicate _ hpn, List.forall_mem_nil _⟩
    have checks : ∀ c ∈ (Form.predicateLogic .orr).checks, c.Passes (.predicateLogic .orr) (predicateMoveOps pd pn) := by
      simp only [Form.checks, List.forall_mem_cons]
      exact ⟨⟨.b, List.mem_singleton_self _, rfl⟩, rfl, rfl, rfl, List.forall_mem_nil _⟩
    have emitted := emit_registers (a := a) (fun vl r => Semantics.predicateLogic vl (predicateMoveOps pd pn) r .orr) rfl
      registers checks (fun _ _ _ => rfl) (fun _ _ => rfl) fun _ _ => rfl
    refine emitted.mono fun vl core after done => ?_
    obtain ⟨pc, rfl⟩ := done
    have fits : vl.bytes * 1 ≤ 256 := by
      have := vl.lanes_mul_bytes_le .b
      rwa [vl.lanes_b] at this
    -- the source governs its own copy, so that every lane is one lane of it
    have bit (j : Nat) (inside : j < vl.bytes) :
        (predicateOf 1 vl.bytes fun i => Semantics.predicateLane .orr (activeLane 1 (core.regs.pBits pn) i)
          (activeLane 1 (core.regs.pBits pn) i) (activeLane 1 (core.regs.pBits pn) i)).getLsbD j =
          (core.regs.pBits pn).getLsbD j := by
      rw [Bool.eq_iff_iff, getLsbD_predicateOf Nat.one_pos fits]
      simp [Semantics.predicateLane, activeLane, inside]
    constructor
    · intro j inside
      show ((core.regs.setP pd _).pBits pd).getLsbD j = _
      rw [Registers.pBits_setP, if_pos ⟨rfl, hpd⟩]
      exact bit j inside
    · intro p other
      show (core.regs.setP pd _).pBits p = _
      rw [Registers.pBits_setP, if_neg fun written => other written.1.symm]

/-- The operands of a search, which overwrites the predicate that it starts from. -/
def searchOps (l : LaneSize) (pd pg : Nat) : List Operand :=
  [.ofP ⟨pd, some l, none⟩, .ofP ⟨pg, none, none⟩, .ofP ⟨pd, some l, none⟩]

/-- **A search leaves its result** and the flags that describe it. -/
theorem search_emits {search : LaneSearch} (allowed : l ∈ search.form.lanes) (hpd : pd < 16) (hpg : pg < 16) :
    a.Emits (a.emit search.form.mnemonic (searchOps l pd pg)) (Core.Searched search l pd pg pd none) := by
  have registers : ∀ op ∈ searchOps l pd pg, op.IsRegister := by
    simp only [searchOps, List.forall_mem_cons]
    exact ⟨.predicate _ hpd, .predicate _ hpg, .predicate _ hpd, List.forall_mem_nil _⟩
  -- both searches have the same checks and write with the same function
  have checks : ∀ c ∈ search.form.checks, c.Passes search.form (searchOps l pd pg) := by
    cases search <;>
    · simp only [LaneSearch.form, Form.checks, List.forall_mem_cons]
      exact ⟨⟨l, allowed, rfl⟩, rfl, rfl, rfl, List.forall_mem_nil _⟩
  have accepted : search.form.accepts (searchOps l pd pg) = true := by cases search <;> rfl
  have writes : ∀ vl core, Semantics.executeVector search.form vl (searchOps l pd pg) core = Semantics.registersOnly core
      (Semantics.setTested vl core.regs l pd (core.regs.pBits pg)
        (search.result l.bytes (vl.lanes l) (core.regs.pBits pg) (core.regs.pBits pd))) := by
    intro vl core
    cases search <;> rfl
  have emitted := emit_registers (a := a) (fun vl r => Semantics.setTested vl r l pd (r.pBits pg)
      (search.result l.bytes (vl.lanes l) (r.pBits pg) (r.pBits pd))) accepted registers checks
    (fun _ _ _ => by cases search <;> rfl) writes fun _ _ => rfl
  refine emitted.mono fun vl core after done => ?_
  obtain ⟨pc, rfl⟩ := done
  have tests : Core.Tests vl l core _ pd _ _ := Core.tests_setTested hpd (core.regs.pBits pg)
    (search.result l.bytes (vl.lanes l) (core.regs.pBits pg) (core.regs.pBits pd)) pc
  refine ⟨?_, ?_, ?_⟩
  · intro bit _
    rw [tests.written]
    exact LaneSearch.getLsbD_result allowed vl bit
  · rw [tests.written]
    exact tests.flags
  · intro p other _
    exact tests.kept p other

end Assembler

/-! ## The macros -/

namespace Assembler

variable {a : Assembler} {search : LaneSearch} {l : LaneSize} {pd pg pn : PReg}

/-- The scratch register that is taken: one where the destination is the governing predicate and not the predicate that is
    started from, and else none. -/
def predicateScratch? (a : Assembler) (pd pg pn : PReg) : Option Nat :=
  if pd.code = pg.code ∧ pd.code ≠ pn.code then a.pools.lowest? .predicate else none

/-- **The search on a copy, where the copy leaves the governing predicate as it is.** -/
theorem copied_emits (allowed : l ∈ search.form.lanes) (hpd : pd.code < 16) (hpg : pg.code < 16) (hpn : pn.code < 16)
    (apart : pd.code = pg.code → pd.code = pn.code) :
    a.Emits ((a.movePredicate pd pn).emit search.form.mnemonic (searchOps l pd.code pg.code))
      (Core.Searched search l pd.code pg.code pn.code none) := by
  refine ((movePredicate_emits hpd hpn _ _ _ _).trans (search_emits allowed hpd hpg)).mono fun vl core after done => ?_
  obtain ⟨mid, copy, searched⟩ := done
  refine searched.behind ?_ copy.copied fun p other _ => copy.kept p other
  by_cases same : pg.code = pd.code
  · -- then all three are one register
    have copied := copy.copied
    rw [← apart same.symm] at copied
    rwa [same]
  · exact .of_eq (copy.kept _ same)

/-- **The search on a copy, where the governing predicate has been saved.** -/
theorem savedCopy_emits {tmp : Nat} (allowed : l ∈ search.form.lanes) (hpd : pd.code < 16) (hpg : pg.code < 16)
    (hpn : pn.code < 16) (htmp : tmp < 16) (clear : tmp ≠ pd.code ∧ tmp ≠ pn.code) :
    a.Emits (((a.movePredicate ⟨tmp, none, none⟩ pg).movePredicate pd pn).emit search.form.mnemonic
        (searchOps l pd.code tmp)) (Core.Searched search l pd.code pg.code pn.code (some tmp)) := by
  have saves := movePredicate_emits (a := a) htmp hpg none pg.lane none pg.qualifier
  have copies := movePredicate_emits (a := a.movePredicate ⟨tmp, none, none⟩ pg) hpd hpn pd.lane pn.lane pd.qualifier
    pn.qualifier
  refine ((saves.trans copies).trans (search_emits allowed hpd htmp)).mono fun vl core after done => ?_
  obtain ⟨mid, ⟨start, saved, copy⟩, searched⟩ := done
  refine searched.behind ?_ ?_ ?_
  -- the copy keeps what was saved, and the saving keeps what is copied
  · rw [copy.kept tmp clear.1]
    exact saved.copied
  · rw [← saved.kept pn.code clear.2.symm]
    exact copy.copied
  · intro p other untaken
    rw [copy.kept p other, saved.kept p fun same => untaken (same ▸ rfl)]

/-- **What the words of the macros leave.** -/
theorem onPredicateCopy_emits (allowed : l ∈ search.form.lanes) (hpd : pd.code < 16) (hpg : pg.code < 16) (hpn : pn.code < 16)
    (unpooled : ∀ p ∈ [pd, pg, pn], a.pools.has .predicate p.code = false)
    (free : pd.code = pg.code → pd.code ≠ pn.code → (a.pools.lowest? .predicate).isSome = true) :
    a.Emits (a.onPredicateCopy search.form.mnemonic (some l) pd pg pn)
      (Core.Searched search l pd.code pg.code pn.code (a.predicateScratch? pd pg pn)) := by
  unfold onPredicateCopy predicateScratch?
  by_cases saving : pd.code = pg.code ∧ pd.code ≠ pn.code
  · rw [if_pos saving, if_pos saving]
    obtain ⟨tmp, lowest⟩ := Option.isSome_iff_exists.mp (free saving.1 saving.2)
    have clear : ∀ p ∈ [pd, pg, pn], tmp ≠ p.code := fun p hp => ScratchPools.ne_of_lowest? lowest (unpooled p hp)
    have htmp : tmp < 16 := BitVec.lt_of_getLsbD (ScratchPools.lowest?_spec lowest).1
    refine Emits.inScope (a.pools.remove .predicate tmp) ?_
    unfold withScratch acquire
    rw [lowest]
    exact savedCopy_emits allowed hpd hpg hpn htmp ⟨clear pd (by simp), clear pn (by simp)⟩
  · rw [if_neg saving, if_neg saving]
    exact copied_emits allowed hpd hpg hpn fun same => by_contra fun other => saving ⟨same, other⟩

/-- **The first lane added to a predicate, and the next lane behind it, with any aliasing.** The next lane is looked for at
    the size that the predicate is viewed at. None of the three predicates is in the pool, and there is a predicate scratch
    register where the destination is the governing predicate and not the one that is started from. Nothing of the
    assembler changes but its code: no error is recorded, and the pools are as they were. Executing the words in order, from
    any state with a vector length, leaves below the vector length the bits of the result, by the two predicates as they
    were, and the flags that describe it seen through the governing predicate as it was. No other predicate changes but
    for the scratch register. -/
theorem laneSearch_computes (a : Assembler) (search : LaneSearch) (pd pg pn : PReg) (lane : search.lane pn = some l)
    (allowed : l ∈ Form.bhsd) (codes : pd.code < 16 ∧ pg.code < 16 ∧ pn.code < 16)
    (unpooled : ∀ p ∈ [pd, pg, pn], a.pools.has .predicate p.code = false)
    (free : pd.code = pg.code → pd.code ≠ pn.code → (a.pools.lowest? .predicate).isSome = true) :
    ∃ ws : List Word,
      a.expand (search.call pd pg pn) = { a with code := a.code ++ ws } ∧
      ∀ (sim : Simulator) (vl : VectorLength), sim.core.regs.vl = some vl →
        ∃ after, sim.executeWords? ws = some after ∧
          (∀ bit < vl.bytes, (after.core.regs.pBits pd.code).getLsbD bit = true ↔
            search.Leaves l.bytes (vl.lanes l) (sim.core.regs.pBits pg.code) (sim.core.regs.pBits pn.code) bit) ∧
          Describes after.core.regs.flags l.bytes (vl.lanes l) (sim.core.regs.pBits pg.code)
            (after.core.regs.pBits pd.code) ∧
          ∀ p, p ≠ pd.code → some p ≠ a.predicateScratch? pd pg pn →
            after.core.regs.pBits p = sim.core.regs.pBits p := by
  have chosen := LaneSearch.lane_allowed lane allowed
  have expanded : a.expand (search.call pd pg pn) = a.onPredicateCopy search.form.mnemonic (some l) pd pg pn := by
    rw [← lane]
    cases search <;> rfl
  obtain ⟨ws, emitted, runs⟩ := onPredicateCopy_emits chosen codes.1 codes.2.1 codes.2.2 unpooled free
  refine ⟨ws, expanded.trans emitted, ?_⟩
  intro sim vl configured
  obtain ⟨after, run, -, searched⟩ := runs sim vl configured
  exact ⟨after, run, searched.bits, searched.flags, searched.kept⟩

/-- The next halfword, put over the predicate that governs the search: that is saved in the one scratch register. -/
theorem laneSearch_computes_overwritten :
    let a : Assembler := ({} : Assembler).includeScratch .predicate 9
    let pd : PReg := ⟨1, none, none⟩
    let pn : PReg := ⟨2, some .h, none⟩
    ∃ ws : List Word,
      a.expand (.pnext pd pd pn) = { a with code := a.code ++ ws } ∧
      ∀ (sim : Simulator) (vl : VectorLength), sim.core.regs.vl = some vl →
        ∃ after, sim.executeWords? ws = some after ∧
          (∀ bit < vl.bytes, (after.core.regs.pBits 1).getLsbD bit = true ↔
            LaneSearch.next.Leaves 2 (vl.lanes .h) (sim.core.regs.pBits 1) (sim.core.regs.pBits 2) bit) ∧
          ∀ p, p ≠ 1 → p ≠ 9 → after.core.regs.pBits p = sim.core.regs.pBits p := by
  intro a pd pn
  obtain ⟨ws, emitted, runs⟩ := laneSearch_computes (l := .h) a .next pd pd pn rfl (by decide) (by decide) (by decide)
    (by decide)
  refine ⟨ws, emitted, ?_⟩
  intro sim vl configured
  obtain ⟨after, run, bits, -, kept⟩ := runs sim vl configured
  have taken : a.predicateScratch? pd pd pn = some 9 := by decide
  refine ⟨after, run, bits, ?_⟩
  intro p other untaken
  exact kept p other fun same => untaken (Option.some.inj (same.trans taken))

end Assembler

end ArmToolkit.A64
