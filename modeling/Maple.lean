import Maple.IR.StructLayout.Disjoint
import Maple.IR.StructLayout.FieldIds
import Maple.IR.MIRLower.SwitchStmt
import Maple.IR.CandCior.Correct
import Maple.IR.LowerCArray.Exact
import Maple.IR.MIRLower.Correct
import Maple.Util.Dominance.IterFrontier
import Maple.Util.Dominance.Tree
import Maple.Util.Namemangler.Reversible
import Maple.Util.Namemangler.EncodeBuffer
import Maple.Util.Namemangler.Leb128RoundTrip
import Maple.IR.BinMpl.ExprRoundTrip
import Maple.BE.Live.PhiExact
import Maple.BE.Live.Cleanup
import Maple.Util.IntVal.DivisionExact
import Maple.MPL2MPL.ConstantFold.MinMax
import Maple.Util.IntVal.ShiftAmounts
import Maple.MPL2MPL.ConstantFold.Depositbits
import Maple.BE.PhiElim.Correct
import Maple.MPL2MPL.ConstantFold.FPConstUnary
import Maple.BE.ListScheduler.Correct
import Maple.BE.ListScheduler.Rank
import Maple.BE.AArch64.Imm.Bitmask
import Maple.BE.AArch64.SplitOffset
import Maple.BE.AArch64.MemProp.Exact
import Maple.BE.AArch64.CallConvDisjoint
import Maple.BE.AArch64.ValidBit.Preserve
import Maple.BE.AArch64.ValidBit.RevCbzExact
import Maple.BE.SwitchLowerer.Profile
import Maple.BE.SwitchLowerer.NoDefault
import Maple.MPL2MPL.SCC.Exact
import Maple.ME.UnionFind
import Maple.ME.McSSAPre.MinCut.VisitedTable
import Maple.ME.McSSAPre.MinCut.Cut
import Maple.ME.CastOpt
import Maple.ME.LfoDepTest.DepTest
import Maple.ME.LfoDepTest.SubscriptValue
import Maple.ME.LfoUnroll.Exact
import Maple.ME.ScalarAnalysis.MulNodeValue
import Maple.ME.ScalarAnalysis.ByteSize
import Maple.ME.ScalarAnalysis.ValueAtIteration
import Maple.ME.ScalarAnalysis.NarrowTripCountExact
import Maple.ME.ValueRange.SwitchConstant
import Maple.ME.ValueRange.MergeVR
import Maple.ME.ValueRange.LoopPhi
import Maple.ME.ValueRange.AfterCvt
import Maple.ME.ValueRange.CondGotoSound
import Maple.IR.GlobalTables.IntConstTable
import Maple.IR.FloatConst.Widen
import Maple.MPL2MPL.ConstantFold.SimplifyBlock
import Maple.MPL2MPL.ExtConstantFold.Xand
import Maple.MPL2MPL.ExtConstantFold.Ior
import Maple.MPL2MPL.ConstantFold.ExprValueRange
import Maple.MPL2MPL.ConstantFold.Select
import Maple.Util.BitValue
import Maple.Util.SimpleBitSet
import Maple.Util.PtrListRef.Runs
import Maple.IR.ConstEq
import Maple.IR.IntLiteral.Dump
