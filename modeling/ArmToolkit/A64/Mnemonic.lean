/-!
# `A64.Mnemonic` — the instruction names

`Mnemonic.all` lists them in a fixed order. The conditional branch has the name of the plain branch and is the one
mnemonic that no name stands for.
-/

namespace ArmToolkit.A64

/-- An instruction name of the assembler. -/
inductive Mnemonic
  | add | adds | sub | subs | subr | and | ands | orr | eor | bic | movz | movn | movk | b | bCond | cbz | cbnz
  | ret | hlt | nop | mrs | msr | ldr | ldrb | ldrh | str | strb | strh | fmov | dup | mul | sdiv | udiv
  | sdivr | udivr | smax | smin | umax | umin | sqadd | uqadd | sqsub | uqsub | mla | mls | mad | msb | movprfx
  | sel | cpy | dupm | insr | rev | tbl | zip1 | zip2 | uzp1 | uzp2 | trn1 | trn2 | index | saddv | uaddv
  | smaxv | umaxv | sminv | uminv | orv | eorv | andv | cmpeq | cmpne | cmpgt | cmpge | cmplt | cmple | cmphi
  | cmphs | cmplo | cmpls | ptrue | ptrues | pfalse | pfirst | pnext | ptest | cntp | incp | decp | sqincp
  | sqdecp | uqincp | uqdecp | cntb | cnth | cntw | cntd | incb | inch | incw | incd | decb | dech | decw
  | decd | ctermeq | ctermne | rdvl | addvl | ld1b | ld1h | ld1w | ld1d | st1b | st1h | st1w | st1d
  deriving DecidableEq, Inhabited

namespace Mnemonic

/-- The mnemonics in order. -/
def all : List Mnemonic := [
  add, adds, sub, subs, subr, and, ands, orr, eor, bic, movz, movn, movk, b, bCond, cbz, cbnz, ret, hlt, nop,
  mrs, msr, ldr, ldrb, ldrh, str, strb, strh, fmov, dup, mul, sdiv, udiv, sdivr, udivr, smax, smin, umax, umin,
  sqadd, uqadd, sqsub, uqsub, mla, mls, mad, msb, movprfx, sel, cpy, dupm, insr, rev, tbl, zip1, zip2, uzp1,
  uzp2, trn1, trn2, index, saddv, uaddv, smaxv, umaxv, sminv, uminv, orv, eorv, andv, cmpeq, cmpne, cmpgt,
  cmpge, cmplt, cmple, cmphi, cmphs, cmplo, cmpls, ptrue, ptrues, pfalse, pfirst, pnext, ptest, cntp, incp,
  decp, sqincp, sqdecp, uqincp, uqdecp, cntb, cnth, cntw, cntd, incb, inch, incw, incd, decb, dech, decw, decd,
  ctermeq, ctermne, rdvl, addvl, ld1b, ld1h, ld1w, ld1d, st1b, st1h, st1w, st1d]

/-- **The name that is printed** for a mnemonic. -/
def name : Mnemonic → String
  | add => "add" | adds => "adds" | sub => "sub" | subs => "subs" | subr => "subr" | and => "and"
  | ands => "ands" | orr => "orr" | eor => "eor" | bic => "bic" | movz => "movz" | movn => "movn"
  | movk => "movk" | b => "b" | bCond => "b" | cbz => "cbz" | cbnz => "cbnz" | ret => "ret" | hlt => "hlt"
  | nop => "nop" | mrs => "mrs" | msr => "msr" | ldr => "ldr" | ldrb => "ldrb" | ldrh => "ldrh" | str => "str"
  | strb => "strb" | strh => "strh" | fmov => "fmov" | dup => "dup" | mul => "mul" | sdiv => "sdiv"
  | udiv => "udiv" | sdivr => "sdivr" | udivr => "udivr" | smax => "smax" | smin => "smin" | umax => "umax"
  | umin => "umin" | sqadd => "sqadd" | uqadd => "uqadd" | sqsub => "sqsub" | uqsub => "uqsub" | mla => "mla"
  | mls => "mls" | mad => "mad" | msb => "msb" | movprfx => "movprfx" | sel => "sel" | cpy => "cpy"
  | dupm => "dupm" | insr => "insr" | rev => "rev" | tbl => "tbl" | zip1 => "zip1" | zip2 => "zip2"
  | uzp1 => "uzp1" | uzp2 => "uzp2" | trn1 => "trn1" | trn2 => "trn2" | index => "index" | saddv => "saddv"
  | uaddv => "uaddv" | smaxv => "smaxv" | umaxv => "umaxv" | sminv => "sminv" | uminv => "uminv" | orv => "orv"
  | eorv => "eorv" | andv => "andv" | cmpeq => "cmpeq" | cmpne => "cmpne" | cmpgt => "cmpgt" | cmpge => "cmpge"
  | cmplt => "cmplt" | cmple => "cmple" | cmphi => "cmphi" | cmphs => "cmphs" | cmplo => "cmplo"
  | cmpls => "cmpls" | ptrue => "ptrue" | ptrues => "ptrues" | pfalse => "pfalse" | pfirst => "pfirst"
  | pnext => "pnext" | ptest => "ptest" | cntp => "cntp" | incp => "incp" | decp => "decp" | sqincp => "sqincp"
  | sqdecp => "sqdecp" | uqincp => "uqincp" | uqdecp => "uqdecp" | cntb => "cntb" | cnth => "cnth"
  | cntw => "cntw" | cntd => "cntd" | incb => "incb" | inch => "inch" | incw => "incw" | incd => "incd"
  | decb => "decb" | dech => "dech" | decw => "decw" | decd => "decd" | ctermeq => "ctermeq"
  | ctermne => "ctermne" | rdvl => "rdvl" | addvl => "addvl" | ld1b => "ld1b" | ld1h => "ld1h" | ld1w => "ld1w"
  | ld1d => "ld1d" | st1b => "st1b" | st1h => "st1h" | st1w => "st1w" | st1d => "st1d"

/-- The mnemonic that a name stands for. -/
def ofName? (s : String) : Option Mnemonic := all.find? fun m => m != bCond && m.name == s

end Mnemonic

end ArmToolkit.A64
