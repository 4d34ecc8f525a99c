import ArmToolkit.A64.Macro

/-!
# `A64.MacroCall` — the macros as data

A macro with its operands is a value of `MacroCall`, and `Assembler.expand` emits the instructions of any of them. What
holds of every macro is stated over this type.
-/

namespace ArmToolkit.A64

/-- **A macro with its operands.** -/
inductive MacroCall
  | moveImmediate (rd : XReg) (imm : BitVec 64)
  | moveRegister (rd rm : XReg)
  | moveVector (zd zn : ZReg)
  | movePredicate (pd pn : PReg)
  | predicated (op : PredicatedOp) (zd : ZReg) (pg : PReg) (zn zm : ZReg)
  | unpredicated (op : UnpredicatedOp) (zd zn zm : ZReg)
  | multiplyAccumulate (negated : Bool) (zd : ZReg) (pg : PReg) (za zn zm : ZReg)
  | immediate (op : ImmediateOp) (zd zn : ZReg) (imm : BitVec 64)
  | bitmask (op : BitmaskOp) (zd zn : ZReg) (imm : BitVec 64)
  | dup (zd : ZReg) (imm : BitVec 64)
  | cpy (zd : ZReg) (pg : PReg) (imm : BitVec 64)
  | compare (rel : Relation) (pd pg : PReg) (zn zm : ZReg)
  | compareImmediate (rel : Relation) (pd pg : PReg) (zn : ZReg) (imm : BitVec 64)
  | pfirst (pd pg pn : PReg)
  | pnext (pd pv pn : PReg)
  | insr (zdn : ZReg) (imm : BitVec 64)
  | index (zd : ZReg) (start step : BitVec 64)
  | transferVector (access : Access) (zt : ZReg) (base : XReg) (offset : BitVec 64)
  | transferPredicate (access : Access) (pt : PReg) (base : XReg) (offset : BitVec 64)

/-- **Emits the instructions of a macro.** -/
def Assembler.expand (a : Assembler) : MacroCall → Assembler
  | .moveImmediate rd imm => a.moveImmediate rd imm
  | .moveRegister rd rm => a.moveRegister rd rm
  | .moveVector zd zn => a.moveVector zd zn
  | .movePredicate pd pn => a.movePredicate pd pn
  | .predicated op zd pg zn zm => a.predicatedBinary op zd pg zn zm
  | .unpredicated op zd zn zm => a.unpredicatedBinary op zd zn zm
  | .multiplyAccumulate negated zd pg za zn zm => a.multiplyAccumulate negated zd pg za zn zm
  | .immediate op zd zn imm => a.wideImmediate op zd zn imm
  | .bitmask op zd zn imm => a.logicalImmediate op zd zn imm
  | .dup zd imm => a.dup zd imm
  | .cpy zd pg imm => a.cpy zd pg imm
  | .compare rel pd pg zn zm => a.compare rel pd pg zn zm
  | .compareImmediate rel pd pg zn imm => a.compareImmediate rel pd pg zn imm
  | .pfirst pd pg pn => a.pfirst pd pg pn
  | .pnext pd pv pn => a.pnext pd pv pn
  | .insr zdn imm => a.insr zdn imm
  | .index zd start step => a.index zd start step
  | .transferVector access zt base offset => a.transferVector access zt base offset.toInt
  | .transferPredicate access pt base offset => a.transferPredicate access pt base offset.toInt

end ArmToolkit.A64
