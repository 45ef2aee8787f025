import StackCode.Ty

/-!
# Opcodes

The operations of the stack machine that generated code uses, with their
mnemonics and the facts about control flow that the generator needs.
-/

namespace StackCode

/-- An operation of the stack machine. -/
inductive Opcode where
  | nop
  | aconstNull
  | iconst0
  | iconst1
  | pop
  | pop2
  | dup
  | dup2
  | swap
  | i2l
  | i2f
  | i2d
  | l2i
  | l2f
  | l2d
  | f2i
  | f2l
  | f2d
  | d2i
  | d2l
  | d2f
  | i2b
  | i2c
  | i2s
  | iadd
  | ladd
  | fadd
  | dadd
  | isub
  | lsub
  | fsub
  | dsub
  | imul
  | lmul
  | fmul
  | dmul
  | idiv
  | ldiv
  | fdiv
  | ddiv
  | irem
  | lrem
  | frem
  | drem
  | ineg
  | lneg
  | fneg
  | dneg
  | ishl
  | lshl
  | ishr
  | lshr
  | iushr
  | lushr
  | iand
  | land
  | ior
  | lor
  | ixor
  | lxor
  | lcmp
  | fcmpl
  | fcmpg
  | dcmpl
  | dcmpg
  | ifeq
  | ifne
  | iflt
  | ifge
  | ifgt
  | ifle
  | ifIcmpeq
  | ifIcmpne
  | ifIcmplt
  | ifIcmpge
  | ifIcmpgt
  | ifIcmple
  | ifAcmpeq
  | ifAcmpne
  | ifnull
  | ifnonnull
  | goto
  | ireturn
  | lreturn
  | freturn
  | dreturn
  | areturn
  | returnVoid
  | arraylength
  | iaload
  | laload
  | faload
  | daload
  | aaload
  | baload
  | caload
  | saload
  | athrow
  | monitorenter
  | monitorexit
  deriving DecidableEq, Repr, Inhabited

namespace Opcode

/-- The branch with the opposite outcome; only conditional branches have one. -/
def negate? : Opcode → Option Opcode
  | ifeq => some ifne
  | ifne => some ifeq
  | iflt => some ifge
  | ifge => some iflt
  | ifgt => some ifle
  | ifle => some ifgt
  | ifIcmpeq => some ifIcmpne
  | ifIcmpne => some ifIcmpeq
  | ifIcmplt => some ifIcmpge
  | ifIcmpge => some ifIcmplt
  | ifIcmpgt => some ifIcmple
  | ifIcmple => some ifIcmpgt
  | ifAcmpeq => some ifAcmpne
  | ifAcmpne => some ifAcmpeq
  | ifnull => some ifnonnull
  | ifnonnull => some ifnull
  | _ => none

/-- The operation is a conditional branch. -/
def isConditionalBranch (op : Opcode) : Bool := op.negate?.isSome

/-- The operation leaves the method with or without a value. -/
def isReturn : Opcode → Bool
  | ireturn => true
  | lreturn => true
  | freturn => true
  | dreturn => true
  | areturn => true
  | returnVoid => true
  | _ => false

/-- Control never falls through the operation. -/
def isTerminal : Opcode → Bool
  | athrow => true
  | goto => true
  | other => other.isReturn

/-- The return operation for values of a kind. -/
def ofReturn : ValueKind → Opcode
  | .int => ireturn
  | .long => lreturn
  | .float => freturn
  | .double => dreturn
  | .reference => areturn
  | .void => returnVoid

/-- The written name of an operation. -/
def mnemonic : Opcode → String
  | nop => "nop"
  | aconstNull => "aconst_null"
  | iconst0 => "iconst_0"
  | iconst1 => "iconst_1"
  | pop => "pop"
  | pop2 => "pop2"
  | dup => "dup"
  | dup2 => "dup2"
  | swap => "swap"
  | i2l => "i2l"
  | i2f => "i2f"
  | i2d => "i2d"
  | l2i => "l2i"
  | l2f => "l2f"
  | l2d => "l2d"
  | f2i => "f2i"
  | f2l => "f2l"
  | f2d => "f2d"
  | d2i => "d2i"
  | d2l => "d2l"
  | d2f => "d2f"
  | i2b => "i2b"
  | i2c => "i2c"
  | i2s => "i2s"
  | iadd => "iadd"
  | ladd => "ladd"
  | fadd => "fadd"
  | dadd => "dadd"
  | isub => "isub"
  | lsub => "lsub"
  | fsub => "fsub"
  | dsub => "dsub"
  | imul => "imul"
  | lmul => "lmul"
  | fmul => "fmul"
  | dmul => "dmul"
  | idiv => "idiv"
  | ldiv => "ldiv"
  | fdiv => "fdiv"
  | ddiv => "ddiv"
  | irem => "irem"
  | lrem => "lrem"
  | frem => "frem"
  | drem => "drem"
  | ineg => "ineg"
  | lneg => "lneg"
  | fneg => "fneg"
  | dneg => "dneg"
  | ishl => "ishl"
  | lshl => "lshl"
  | ishr => "ishr"
  | lshr => "lshr"
  | iushr => "iushr"
  | lushr => "lushr"
  | iand => "iand"
  | land => "land"
  | ior => "ior"
  | lor => "lor"
  | ixor => "ixor"
  | lxor => "lxor"
  | lcmp => "lcmp"
  | fcmpl => "fcmpl"
  | fcmpg => "fcmpg"
  | dcmpl => "dcmpl"
  | dcmpg => "dcmpg"
  | ifeq => "ifeq"
  | ifne => "ifne"
  | iflt => "iflt"
  | ifge => "ifge"
  | ifgt => "ifgt"
  | ifle => "ifle"
  | ifIcmpeq => "if_icmpeq"
  | ifIcmpne => "if_icmpne"
  | ifIcmplt => "if_icmplt"
  | ifIcmpge => "if_icmpge"
  | ifIcmpgt => "if_icmpgt"
  | ifIcmple => "if_icmple"
  | ifAcmpeq => "if_acmpeq"
  | ifAcmpne => "if_acmpne"
  | ifnull => "ifnull"
  | ifnonnull => "ifnonnull"
  | goto => "goto"
  | ireturn => "ireturn"
  | lreturn => "lreturn"
  | freturn => "freturn"
  | dreturn => "dreturn"
  | areturn => "areturn"
  | returnVoid => "return"
  | arraylength => "arraylength"
  | iaload => "iaload"
  | laload => "laload"
  | faload => "faload"
  | daload => "daload"
  | aaload => "aaload"
  | baload => "baload"
  | caload => "caload"
  | saload => "saload"
  | athrow => "athrow"
  | monitorenter => "monitorenter"
  | monitorexit => "monitorexit"

/-- Every operation, in the order of its declaration. -/
def all : List Opcode :=
  [nop, aconstNull, iconst0, iconst1, pop, pop2, dup, dup2, swap, i2l, i2f, i2d, l2i, l2f, l2d,
   f2i, f2l, f2d, d2i, d2l, d2f, i2b, i2c, i2s, iadd, ladd, fadd, dadd, isub, lsub, fsub, dsub,
   imul, lmul, fmul, dmul, idiv, ldiv, fdiv, ddiv, irem, lrem, frem, drem, ineg, lneg, fneg,
   dneg, ishl, lshl, ishr, lshr, iushr, lushr, iand, land, ior, lor, ixor, lxor, lcmp, fcmpl,
   fcmpg, dcmpl, dcmpg, ifeq, ifne, iflt, ifge, ifgt, ifle, ifIcmpeq, ifIcmpne, ifIcmplt,
   ifIcmpge, ifIcmpgt, ifIcmple, ifAcmpeq, ifAcmpne, ifnull, ifnonnull, goto, ireturn, lreturn,
   freturn, dreturn, areturn, returnVoid, arraylength, iaload, laload, faload, daload, aaload,
   baload, caload, saload, athrow, monitorenter, monitorexit]

/-- The operation of a given written name. -/
def ofMnemonic? (name : String) : Option Opcode :=
  all.find? fun op => op.mnemonic == name

/-- Negation is its own inverse. -/
theorem negate?_negate? {op negated : Opcode} (negates : op.negate? = some negated) :
    negated.negate? = some op := by
  cases op <;> simp_all [negate?] <;> subst negates <;> rfl

end Opcode

end StackCode
