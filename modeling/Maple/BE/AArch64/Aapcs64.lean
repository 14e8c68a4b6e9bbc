import Maple.BE.AArch64.CallConv

/-!
# Parameter passing of the procedure call standard

Stages B and C of the parameter passing of the procedure call standard for the Arm 64-bit
architecture (2022Q3, 6.8.2), without scalable types and types of unknown size. The names of rules
are those of the standard, which the source quotes.
-/

namespace Maple
namespace AArch64

/-- Where an argument is passed: in registers, or at an offset from the stack pointer. -/
inductive Place where
  | regs (rs : List Reg)
  | stack (offset : Int)
  deriving DecidableEq, Repr

namespace Aapcs64

/-- An argument as stage B leaves it. The natural alignment of a fundamental type is its size. -/
inductive Arg where
  /-- Half-, single- or double-precision. -/
  | float (size : Nat)
  /-- Quad-precision or a short vector. -/
  | vector (size : Nat)
  /-- An HFA or an HVA with its natural alignment. -/
  | homogeneous (members size align : Nat)
  /-- An integral or pointer type. -/
  | integral (size : Nat)
  /-- A composite type with the alignment of its copy. -/
  | composite (size align : Nat)
  deriving DecidableEq, Repr

/-- The next general-purpose register number, the next SIMD and floating-point register number and
the next stacked argument address, from the stack pointer on. -/
structure State where
  ngrn : Nat := 0
  nsrn : Nat := 0
  nsaa : Nat := 0
  deriving DecidableEq, Repr

/-- The alignment of a copy or a stack slot: 8, or 16 for a natural alignment above 8. -/
def adjustAlign (align : Nat) : Nat := if align ≤ 8 then 8 else 16

section Stages

variable [Target]

/-- Stage B: a composite type that is not homogeneous becomes a pointer if it is larger than 16
bytes (B.4), else its size is rounded up to double-words (B.5) and its alignment adjusted (B.6). -/
def stageB : MIRType → Arg
  | .scalar t =>
    if t = .f128 ∨ t.isVector then .vector t.size
    else if isPrimitiveFloat t then .float t.size
    else .integral t.size
  | .agg a =>
    match a.homogeneous with
    | some (_, elemNum) => .homogeneous elemNum a.size a.getUnadjustedAlign
    | none =>
      if 16 < a.size then .integral 8
      else .composite (up a.size 8) (adjustAlign a.getUnadjustedAlign)

end Stages

/-- The rules that pass an argument in registers. -/
def inRegs (s : State) : Arg → Option (List Reg × State)
  -- C.1
  | .float _ | .vector _ =>
    if s.nsrn < 8 then some ([.v s.nsrn], { s with nsrn := s.nsrn + 1 }) else none
  -- C.2
  | .homogeneous members _ _ =>
    if s.nsrn + members ≤ 8 then
      some ((List.range members).map fun i => .v (s.nsrn + i), { s with nsrn := s.nsrn + members })
    else none
  | .integral size =>
    if size ≤ 8 then
      -- C.9
      if s.ngrn < 8 then some ([.r s.ngrn], { s with ngrn := s.ngrn + 1 }) else none
    else
      -- C.10 and C.11
      let ngrn := if size = 16 then up s.ngrn 2 else s.ngrn
      if size = 16 ∧ ngrn < 7 then some ([.r ngrn, .r (ngrn + 1)], { s with ngrn := ngrn + 2 })
      else none
  | .composite size align =>
    -- C.10 and C.12
    let ngrn := if align = 16 then up s.ngrn 2 else s.ngrn
    if ngrn + size / 8 ≤ 8 then
      some ((List.range (size / 8)).map fun i => .r (ngrn + i), { s with ngrn := ngrn + size / 8 })
    else none

/-- The argument is copied to memory at the NSAA, and the NSAA goes up by the size. -/
def State.copy (s : State) (size : Nat) : Nat × State := (s.nsaa, { s with nsaa := s.nsaa + size })

/-- The rules that pass an argument on the stack. -/
def onStack (s : State) : Arg → Nat × State
  -- C.5 and C.6
  | .float _ => s.copy 8
  -- C.4 and C.6
  | .vector size => { s with nsaa := up s.nsaa (adjustAlign size) }.copy size
  -- C.3, C.4 and C.6
  | .homogeneous _ size align =>
    { s with nsrn := 8, nsaa := up s.nsaa (adjustAlign align) }.copy (up size 8)
  -- C.13, C.14, C.16 and C.17
  | .integral size => { s with ngrn := 8, nsaa := up s.nsaa (max 8 size) }.copy (max 8 size)
  -- C.13, C.14 and C.15
  | .composite size align => { s with ngrn := 8, nsaa := up s.nsaa (max 8 align) }.copy size

/-- Stage C for one argument. -/
def stageC (s : State) (arg : Arg) : Place × State :=
  match inRegs s arg with
  | some (rs, s) => (.regs rs, s)
  | none => (.stack (onStack s arg).1, (onStack s arg).2)

variable [Target]

/-- The places of the arguments of a call. -/
def places (s : State) : List MIRType → List Place
  | [] => []
  | ty :: tys => (stageC s (stageB ty)).1 :: places (stageC s (stageB ty)).2 tys

end Aapcs64

/-- The place that a location stands for; an empty type has neither registers nor memory. -/
def CCLocInfo.place (ploc : CCLocInfo) : Place :=
  if ploc.reg0 = .kRinvalid ∧ ploc.memSize ≠ 0 then .stack ploc.memOffset
  else .regs ([ploc.reg0, ploc.reg1, ploc.reg2, ploc.reg3].filter (· ≠ .kRinvalid))

end AArch64
end Maple
