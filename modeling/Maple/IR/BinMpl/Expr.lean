import Maple.IR.BinMpl.ConstRoundTrip

/-!
# Expressions in binary MIR

`OutputExpression` and `ImportExpression`. A node is its opcode and primitive type, the fields of
its class, and its operands. The reader lists the opcodes that it knows; the writer has a default
case for the others.
-/

namespace Maple
namespace BinMpl

/-! ### Opcodes -/

/-- The opcodes of `UnaryNode`. -/
inductive UnaryOp where
  | abs | bnot | lnot | neg | recip | sqrt | alloca | malloc
  deriving DecidableEq

/-- The opcodes of `TypeCvtNode`; `round` is among the unhandled ones. -/
inductive TypeCvtOp where
  | ceil | cvt | floor | trunc
  deriving DecidableEq

inductive AddrofOp where
  | addrof | addrofoff | dread | dreadoff
  deriving DecidableEq

inductive GCMallocOp where
  | gcmalloc | gcpermalloc | stackmalloc
  deriving DecidableEq

inductive JarrayMallocOp where
  | gcmallocjarray | gcpermallocjarray
  deriving DecidableEq

inductive IreadOp where
  | iread | iaddrof
  deriving DecidableEq

inductive ExtractbitsOp where
  | sext | zext | extractbits
  deriving DecidableEq

inductive BinaryOp where
  | sub | mul | div | rem | ashr | lshr | shl | max | min | band | bior | bxor | cand | cior | land
  | lior | add
  deriving DecidableEq

inductive CompareOp where
  | eq | ne | lt | gt | le | ge | cmpg | cmpl | cmp
  deriving DecidableEq

inductive ResolveFuncOp where
  | resolveinterfacefunc | resolvevirtualfunc
  deriving DecidableEq

/-- The expression opcodes that only the default case of the writer takes. -/
inductive UnhandledOp where
  | fieldsdist | conststr16 | round | stackmallocjarray | ror | cgArrayElemAdd | ireadpcoff
  | addroffpc
  deriving DecidableEq

def UnhandledOp.numOpnds : UnhandledOp → Nat
  | .fieldsdist | .conststr16 | .ireadpcoff | .addroffpc => 0
  | .round | .stackmallocjarray => 1
  | .ror | .cgArrayElemAdd => 2

/-- `Opcode`, for expressions. -/
inductive Opcode where
  | constval | conststr | addroflabel | addroffunc | sizeoftype | regread | retype | ireadoff
  | ireadfpoff | depositbits | select | array | intrinsicop | intrinsicopwithtype
  | addrof (op : AddrofOp)
  | gcmalloc (op : GCMallocOp)
  | unary (op : UnaryOp)
  | typeCvt (op : TypeCvtOp)
  | iread (op : IreadOp)
  | extractbits (op : ExtractbitsOp)
  | jarrayMalloc (op : JarrayMallocOp)
  | binary (op : BinaryOp)
  | compare (op : CompareOp)
  | resolveFunc (op : ResolveFuncOp)
  | unhandled (op : UnhandledOp)
  deriving DecidableEq

namespace Opcode

/-- The place of an opcode in `opcodes.def`. -/
def code : Opcode → Nat
  | addrof .dread => 28
  | iread .iread => 29
  | addrof .addrof => 30
  | iread .iaddrof => 31
  | sizeoftype => 32
  | unhandled .fieldsdist => 33
  | array => 34
  | ireadoff => 101
  | ireadfpoff => 102
  | regread => 103
  | addroffunc => 104
  | addroflabel => 105
  | constval => 106
  | conststr => 107
  | unhandled .conststr16 => 108
  | typeCvt .ceil => 109
  | typeCvt .cvt => 110
  | typeCvt .floor => 111
  | retype => 112
  | unhandled .round => 113
  | typeCvt .trunc => 114
  | unary .abs => 115
  | unary .bnot => 116
  | unary .lnot => 117
  | unary .neg => 118
  | unary .recip => 119
  | unary .sqrt => 120
  | extractbits .sext => 121
  | extractbits .zext => 122
  | unary .alloca => 123
  | unary .malloc => 124
  | gcmalloc .gcmalloc => 125
  | gcmalloc .gcpermalloc => 126
  | gcmalloc .stackmalloc => 127
  | jarrayMalloc .gcmallocjarray => 128
  | jarrayMalloc .gcpermallocjarray => 129
  | unhandled .stackmallocjarray => 130
  | resolveFunc .resolveinterfacefunc => 131
  | resolveFunc .resolvevirtualfunc => 132
  | binary .add => 133
  | binary .sub => 134
  | binary .mul => 135
  | binary .div => 136
  | binary .rem => 137
  | binary .ashr => 138
  | binary .lshr => 139
  | binary .shl => 140
  | unhandled .ror => 141
  | binary .max => 142
  | binary .min => 143
  | binary .band => 144
  | binary .bior => 145
  | binary .bxor => 146
  | unhandled .cgArrayElemAdd => 147
  | compare .eq => 148
  | compare .ge => 149
  | compare .gt => 150
  | compare .le => 151
  | compare .lt => 152
  | compare .ne => 153
  | compare .cmp => 154
  | compare .cmpl => 155
  | compare .cmpg => 156
  | binary .land => 157
  | binary .lior => 158
  | binary .cand => 159
  | binary .cior => 160
  | select => 161
  | intrinsicop => 162
  | intrinsicopwithtype => 163
  | extractbits .extractbits => 164
  | depositbits => 165
  | unhandled .ireadpcoff => 167
  | unhandled .addroffpc => 169
  | addrof .dreadoff => 172
  | addrof .addrofoff => 173

def all : List Opcode :=
  [constval, conststr, addroflabel, addroffunc, sizeoftype, regread, retype, ireadoff, ireadfpoff,
    depositbits, select, array, intrinsicop, intrinsicopwithtype] ++
  [AddrofOp.addrof, .addrofoff, .dread, .dreadoff].map addrof ++
  [GCMallocOp.gcmalloc, .gcpermalloc, .stackmalloc].map gcmalloc ++
  [UnaryOp.abs, .bnot, .lnot, .neg, .recip, .sqrt, .alloca, .malloc].map unary ++
  [TypeCvtOp.ceil, .cvt, .floor, .trunc].map typeCvt ++
  [IreadOp.iread, .iaddrof].map iread ++
  [ExtractbitsOp.sext, .zext, .extractbits].map extractbits ++
  [JarrayMallocOp.gcmallocjarray, .gcpermallocjarray].map jarrayMalloc ++
  [BinaryOp.sub, .mul, .div, .rem, .ashr, .lshr, .shl, .max, .min, .band, .bior, .bxor, .cand,
    .cior, .land, .lior, .add].map binary ++
  [CompareOp.eq, .ne, .lt, .gt, .le, .ge, .cmpg, .cmpl, .cmp].map compare ++
  [ResolveFuncOp.resolveinterfacefunc, .resolvevirtualfunc].map resolveFunc ++
  [UnhandledOp.fieldsdist, .conststr16, .round, .stackmallocjarray, .ror, .cgArrayElemAdd,
    .ireadpcoff, .addroffpc].map unhandled

/-- The opcode with a number; the numbers of statements have none. -/
def ofCode (n : Nat) : Option Opcode := all.find? fun op => op.code = n

@[simp] lemma ofCode_code (op : Opcode) : ofCode op.code = some op := by
  cases op <;> (try rename_i op; cases op) <;> rfl

lemma code_lt (op : Opcode) : op.code < 256 := by
  cases op <;> (try rename_i op; cases op) <;> decide

end Opcode

/-! ### Nodes -/

def kPtyInvalid : UInt8 := 0

/-- The number of special registers. -/
def kSregLast : Int := 10

/-- The `StIdx` of a node with its scope, which is 1 for global symbols. -/
structure ScopeIdx where
  scope : UInt8
  idx : Nat
  deriving DecidableEq

def ScopeIdx.islocal (stIdx : ScopeIdx) : Bool := 1 < stIdx.scope.toNat

/-- The fields of the node classes, with the number of the operands. -/
inductive Head : Nat → Type where
  | constval (constVal : MIRConst) : Head 0
  | conststr (strIdx : Option Str) : Head 0
  | addroflabel (offset : Nat) : Head 0
  | addroffunc (puIdx : Nat) : Head 0
  | sizeoftype (tyIdx : Nat) : Head 0
  /-- The number is the field or the offset. -/
  | addrof (op : AddrofOp) (num : Int32) (stIdx : ScopeIdx) : Head 0
  | regread (regIdx : Int) : Head 0
  | gcmalloc (op : GCMallocOp) (tyIdx : Nat) : Head 0
  | unary (op : UnaryOp) : Head 1
  | typeCvt (op : TypeCvtOp) (fromPrimType : UInt8) : Head 1
  | retype (fromPrimType : UInt8) (tyIdx : Nat) : Head 1
  | iread (op : IreadOp) (tyIdx : Nat) (fieldID : Int32) : Head 1
  | ireadoff (offset : Int32) : Head 1
  | ireadfpoff (offset : Int32) : Head 0
  | extractbits (op : ExtractbitsOp) (bitsOffset bitsSize : UInt8) : Head 1
  | depositbits (bitsOffset bitsSize : UInt8) : Head 2
  | jarrayMalloc (op : JarrayMallocOp) (tyIdx : Nat) : Head 1
  | binary (op : BinaryOp) : Head 2
  | compare (op : CompareOp) (opndType : UInt8) : Head 2
  | resolveFunc (op : ResolveFuncOp) (puIdx : Nat) : Head 2
  | select : Head 3
  | array (tyIdx : Nat) (boundsCheck : Bool) (numOpnds : Nat) : Head numOpnds
  | intrinsicop (intrinsic : UInt32) (numOpnds : Nat) : Head numOpnds
  | intrinsicopwithtype (intrinsic : UInt32) (tyIdx numOpnds : Nat) : Head numOpnds
  | unhandled (op : UnhandledOp) : Head op.numOpnds

def Head.op {n : Nat} : Head n → Opcode
  | constval _ => .constval
  | conststr _ => .conststr
  | addroflabel _ => .addroflabel
  | addroffunc _ => .addroffunc
  | sizeoftype _ => .sizeoftype
  | addrof op .. => .addrof op
  | regread _ => .regread
  | gcmalloc op _ => .gcmalloc op
  | unary op => .unary op
  | typeCvt op _ => .typeCvt op
  | retype .. => .retype
  | iread op .. => .iread op
  | ireadoff _ => .ireadoff
  | ireadfpoff _ => .ireadfpoff
  | extractbits op .. => .extractbits op
  | depositbits .. => .depositbits
  | jarrayMalloc op _ => .jarrayMalloc op
  | binary op => .binary op
  | compare op _ => .compare op
  | resolveFunc op _ => .resolveFunc op
  | select => .select
  | array .. => .array
  | intrinsicop .. => .intrinsicop
  | intrinsicopwithtype .. => .intrinsicopwithtype
  | unhandled op => .unhandled op

mutual

/-- `BaseNode`, for expressions. -/
inductive Expr where
  | node {n : Nat} (primType : UInt8) (head : Head n) (opnds : Exprs n)

/-- The operands of a node. -/
inductive Exprs : Nat → Type where
  | nil : Exprs 0
  | cons {n : Nat} (opnd : Expr) (opnds : Exprs n) : Exprs (n + 1)

end

/-- How deep aggregates are nested in a constant. -/
def Head.depth {n : Nat} : Head n → Nat
  | constval constVal => constVal.depth + 1
  | _ => 0

mutual

/-- How deep nodes and constants are nested. -/
def Expr.depth : Expr → Nat
  | .node _ head opnds => max head.depth opnds.depth + 1

def Exprs.depth {n : Nat} : Exprs n → Nat
  | .nil => 0
  | .cons opnd opnds => max opnd.depth opnds.depth

end

/-! ### Writing and reading -/

/-- The number of the operands. The loop of the writer has a 32-bit counter and does not end for
more operands. -/
def writeNumOpnds {σ : Type} (numOpnds : Nat) : Put σ :=
  if numOpnds < 2 ^ 32 then writeNum numOpnds else Put.fail

def outputBaseNode {σ : Type} (op : Opcode) (primType : UInt8) : Put σ :=
  Put.seq [write (uint8 op.code), write primType]

def importBaseNode {τ : Type} : Get τ (UInt8 × UInt8) := do
  let o ← read
  let typ ← read
  pure (o, typ)

namespace ConstTables

variable {S T : Type} (R : ConstTables S T)

/-- The switch of `OutputExpression`. -/
def outputHead {n : Nat} : Head n → Put (WState S)
  | .constval constVal => R.outputConst constVal
  | .conststr strIdx => outputUsrStr strIdx
  | .addroflabel offset => outputLabel offset
  | .addroffunc puIdx => R.funcViaSym.out puIdx
  | .sizeoftype tyIdx => R.type.out tyIdx
  | .addrof _ num stIdx =>
    Put.seq [writeNum num.toInt, writeNum stIdx.scope.toNat,
      if stIdx.islocal then R.localSymbol.out stIdx.idx else R.symbol.out stIdx.idx]
  | .regread regIdx =>
    -- `PregFromPregIdx` has no more special registers
    if regIdx ≤ -kSregLast then Put.fail else outputPreg R.pregType regIdx
  | .gcmalloc _ tyIdx => R.type.out tyIdx
  | .unary _ => Put.skip
  | .typeCvt _ fromPrimType => write fromPrimType
  | .retype _ tyIdx => R.type.out tyIdx
  | .iread _ tyIdx fieldID => Put.seq [R.type.out tyIdx, writeNum fieldID.toInt]
  | .ireadoff offset => writeNum offset.toInt
  | .ireadfpoff offset => writeNum offset.toInt
  | .extractbits _ bitsOffset bitsSize => Put.seq [write bitsOffset, write bitsSize]
  | .depositbits bitsOffset bitsSize => Put.seq [write bitsOffset, write bitsSize]
  | .jarrayMalloc _ tyIdx => R.type.out tyIdx
  | .binary _ => Put.skip
  | .compare _ opndType => write opndType
  | .resolveFunc _ puIdx => R.funcViaSym.out puIdx
  | .select => Put.skip
  | .array tyIdx boundsCheck numOpnds =>
    Put.seq [R.type.out tyIdx, write (if boundsCheck then 1 else 0), writeNumOpnds numOpnds]
  | .intrinsicop intrinsic numOpnds => Put.seq [writeNum intrinsic.toNat, writeNumOpnds numOpnds]
  | .intrinsicopwithtype intrinsic tyIdx numOpnds =>
    Put.seq [writeNum intrinsic.toNat, R.type.out tyIdx, writeNumOpnds numOpnds]
  | .unhandled _ => Put.skip

mutual

def outputExpression : Expr → Put (WState S)
  | .node primType head opnds =>
    Put.seq [outputBaseNode head.op primType, R.outputHead head, outputOpnds opnds]

/-- The loop of `OutputExpression`. -/
def outputOpnds {n : Nat} : Exprs n → Put (WState S)
  | .nil => Put.skip
  | .cons opnd opnds => outputExpression opnd ++ outputOpnds opnds

end

/-- The switch of `ImportExpression`, up to the operands. -/
def importHead (importConst : Get (RState T) MIRConst) : Opcode → Get (RState T) (Σ n, Head n)
  | .constval => do
    let constv ← importConst
    pure ⟨0, .constval constv⟩
  | .conststr => do
    let strIdx ← importUsrStr
    pure ⟨0, .conststr strIdx⟩
  | .addroflabel => do
    let offset ← importLabel
    pure ⟨0, .addroflabel offset⟩
  | .addroffunc => do
    let puIdx ← R.funcViaSym.inp
    pure ⟨0, .addroffunc puIdx⟩
  | .sizeoftype => do
    let tidx ← R.type.inp
    pure ⟨0, .sizeoftype tidx⟩
  | .addrof op => do
    let num ← readNum
    let scope ← readNum
    let stIdx : ScopeIdx := ⟨uint8 (uint32 scope), 0⟩
    let sym ← if stIdx.islocal then R.localSymbol.inp else R.symbol.inp
    pure ⟨0, .addrof op (Int32.ofInt num) { stIdx with idx := sym }⟩
  | .regread => do
    let regIdx ← importPreg
    pure ⟨0, .regread regIdx⟩
  | .gcmalloc op => do
    let tyIdx ← R.type.inp
    pure ⟨0, .gcmalloc op tyIdx⟩
  | .unary op => pure ⟨1, .unary op⟩
  | .typeCvt op => do
    let fromPrimType ← read
    pure ⟨1, .typeCvt op fromPrimType⟩
  | .retype => do
    -- the type that is converted is not set
    let tyIdx ← R.type.inp
    pure ⟨1, .retype kPtyInvalid tyIdx⟩
  | .iread op => do
    let tyIdx ← R.type.inp
    let fieldID ← readNum
    pure ⟨1, .iread op tyIdx (Int32.ofInt fieldID)⟩
  | .ireadoff => do
    let ofst ← readNum
    pure ⟨1, .ireadoff (Int32.ofInt ofst)⟩
  | .ireadfpoff => do
    let ofst ← readNum
    pure ⟨0, .ireadfpoff (Int32.ofInt ofst)⟩
  | .extractbits op => do
    let bitsOffset ← read
    let bitsSize ← read
    pure ⟨1, .extractbits op bitsOffset bitsSize⟩
  | .depositbits => do
    -- these are written as bytes
    let bitsOffset ← readNum
    let bitsSize ← readNum
    pure ⟨2, .depositbits (uint8 bitsOffset) (uint8 bitsSize)⟩
  | .jarrayMalloc op => do
    let tyIdx ← R.type.inp
    pure ⟨1, .jarrayMalloc op tyIdx⟩
  | .binary op => pure ⟨2, .binary op⟩
  | .compare op => do
    let opndType ← read
    pure ⟨2, .compare op opndType⟩
  | .resolveFunc op => do
    let puIdx ← R.funcViaSym.inp
    pure ⟨2, .resolveFunc op puIdx⟩
  | .select => pure ⟨3, .select⟩
  | .array => do
    let tidx ← R.type.inp
    let boundsCheck ← read
    let n ← readNum
    pure ⟨(uint32 n).toNat, .array tidx (boundsCheck != 0) (uint32 n).toNat⟩
  | .intrinsicop => do
    let intrinsic ← readNum
    let n ← readNum
    pure ⟨(uint32 n).toNat, .intrinsicop (UInt32.ofInt intrinsic) (uint32 n).toNat⟩
  | .intrinsicopwithtype => do
    let intrinsic ← readNum
    let tyIdx ← R.type.inp
    let n ← readNum
    pure ⟨(uint32 n).toNat, .intrinsicopwithtype (UInt32.ofInt intrinsic) tyIdx (uint32 n).toNat⟩
  | .unhandled _ => Get.fail

/-- The operands of a node. -/
def importOpnds (importExpression : Get (RState T) Expr) : (n : Nat) → Get (RState T) (Exprs n)
  | 0 => pure .nil
  | n + 1 => do
    let opnd ← importExpression
    let opnds ← importOpnds importExpression n
    pure (.cons opnd opnds)

/-- The type of the node that is made: `SizeoftypeNode` is made without the type that is read. -/
def nodeType (op : Opcode) (typ : UInt8) : UInt8 := if op = .sizeoftype then kPtyInvalid else typ

/-- `ImportExpression`, for nodes that are nested less deep than the first argument. -/
def importExpression : Nat → Get (RState T) Expr
  | 0 => Get.fail
  | k + 1 => do
    let base ← importBaseNode
    match Opcode.ofCode base.1.toNat with
    | none => Get.fail
    | some op => do
      let head ← R.importHead (R.importConst k) op
      let opnds ← importOpnds (importExpression k) head.1
      pure (.node (nodeType op base.2) head.2 opnds)

end ConstTables

end BinMpl
end Maple
