import Maple.ME.McSSAPre.MinCut.Built

/-!
# The ids of nodes

The ids from 1 on are first those of the occurrences in the map, then those of the source and the
sink.
-/

namespace Maple
namespace McSSAPre
namespace MinCut
namespace ReducedGraph

variable {Phi Real : Type} {g g' : ReducedGraph Phi Real} {occs : Occs Phi Real}
  {order : List (Occ Phi Real)} {other : Nat → Prop}

/-- Each id that is in use is the one of an occurrence. -/
def Dense (g : ReducedGraph Phi Real) : Prop :=
  ∀ v, 1 ≤ v → v < g.nextRGNodeId → ∃ occ, g.occ2RGNodeMap occ = some v

lemma Dense.congr (h : g.Dense) (hmap : g'.occ2RGNodeMap = g.occ2RGNodeMap)
    (hnext : g'.nextRGNodeId = g.nextRGNodeId) : g'.Dense := by
  intro v hpos hlt
  rw [hnext] at hlt
  rw [hmap]
  exact h v hpos hlt

lemma Dense.length_eq (h : g.Dense) (hinv : g.Inv g.nextRGNodeId other)
    (hpos : 1 ≤ g.nextRGNodeId) (horder : order.Nodup)
    (hkeys : ∀ occ, occ ∈ order ↔ ∃ v, g.occ2RGNodeMap occ = some v) :
    order.length + 1 = g.nextRGNodeId := by
  have hlength : (order.filterMap g.occ2RGNodeMap).length = order.length := by
    rw [List.filterMap_length_eq_length]
    intro occ hocc
    obtain ⟨v, hv⟩ := (hkeys occ).mp hocc
    rw [hv, Option.isSome_some]
  have hnodup : (order.filterMap g.occ2RGNodeMap).Nodup := by
    apply List.Nodup.filterMap ?_ horder
    intro occ occ' v hocc hocc'
    exact hinv.map_inj occ occ' v hocc hocc'
  have hperm : (order.filterMap g.occ2RGNodeMap).Perm (List.range' 1 (g.nextRGNodeId - 1)) := by
    rw [List.perm_ext_iff_of_nodup hnodup List.nodup_range']
    intro v
    rw [List.mem_filterMap, List.mem_range'_1]
    constructor
    · rintro ⟨occ, -, hocc⟩
      have hlt := hinv.map_lt occ v hocc
      omega
    · rintro ⟨hle, hlt⟩
      obtain ⟨occ, hocc⟩ := h v hle (by omega)
      exact ⟨occ, (hkeys occ).mpr ⟨v, hocc⟩, hocc⟩
  have hcount := hperm.length_eq
  rw [hlength, List.length_range'] at hcount
  omega

section Steps

variable [DecidableEq Phi] [DecidableEq Real]

lemma Dense.addNode (h : g.Dense) {occ : Occ Phi Real} (hocc : g.occ2RGNodeMap occ = none) :
    (g.addNode occ).Dense := by
  intro v hpos hlt
  by_cases hv : v = g.nextRGNodeId
  · exact ⟨occ, by rw [addNode_map, if_pos rfl, hv]⟩
  · obtain ⟨occ', hocc'⟩ := h v hpos (lt_of_le_of_ne (Nat.lt_succ_iff.mp hlt) hv)
    refine ⟨occ', ?_⟩
    rw [addNode_map, if_neg, hocc']
    rintro rfl
    rw [hocc] at hocc'
    cases hocc'

lemma addNode_map_of_ne {occ occ' : Occ Phi Real} (h : occ' ≠ occ) :
    (g.addNode occ).occ2RGNodeMap occ' = g.occ2RGNodeMap occ' := by
  rw [addNode_map, if_neg h]

lemma dense_addDefNodes {phiOccs : List Phi} (hphis : phiOccs.Nodup) (h : g.Dense)
    (hnew : ∀ phiOcc ∈ phiOccs, g.occ2RGNodeMap (.phi phiOcc) = none) :
    (phiOccs.foldl (addDefNode occs) g).Dense := by
  induction phiOccs generalizing g with
  | nil => exact h
  | cons phiOcc phiOccs ih =>
    obtain ⟨hnotMem, hphis⟩ := List.nodup_cons.mp hphis
    rw [List.foldl_cons]
    unfold addDefNode
    split_ifs
    · apply ih hphis (h.addNode (hnew phiOcc List.mem_cons_self))
      intro phiOcc' hmem
      rw [addNode_map_of_ne]
      · exact hnew phiOcc' (List.mem_cons_of_mem phiOcc hmem)
      · rintro ⟨⟩
        exact hnotMem hmem
    · exact ih hphis h fun phiOcc' hmem => hnew phiOcc' (List.mem_cons_of_mem phiOcc hmem)

lemma dense_addUse {occ : SortedOcc Phi Real} (h : g.Dense)
    (hnew : ∀ realOcc, occ = .real realOcc → g.occ2RGNodeMap (.real realOcc) = none)
    (hg' : addUse occs g occ = some g') :
    g'.Dense ∧ ∀ realOcc, occ ≠ .real realOcc →
      g'.occ2RGNodeMap (.real realOcc) = g.occ2RGNodeMap (.real realOcc) := by
  have hsame : g' = g → g'.Dense ∧ ∀ realOcc, occ ≠ .real realOcc →
      g'.occ2RGNodeMap (.real realOcc) = g.occ2RGNodeMap (.real realOcc) := by
    rintro rfl
    exact ⟨h, fun _ _ => rfl⟩
  cases occ with
  | real realOcc =>
    rw [addUse] at hg'
    split_ifs at hg'
    · cases hg'
      exact hsame rfl
    · cases hdef : occs.realDef realOcc with
      | none =>
        rw [hdef] at hg'
        cases hg'
        exact hsame rfl
      | some defOcc =>
        cases hnode : g.occ2RGNodeMap (.phi defOcc) with
        | none =>
          simp only [hdef, hnode] at hg'
          cases hg'
          exact hsame rfl
        | some defNode =>
          simp only [hdef, hnode] at hg'
          cases hg'
          refine ⟨(h.addNode (hnew realOcc rfl)).congr rfl rfl, ?_⟩
          intro realOcc' hne
          rw [addEdge_map, addNode_map_of_ne]
          rintro ⟨⟩
          exact hne rfl
  | phiopnd defPhiOcc i =>
    rw [addUse] at hg'
    split_ifs at hg'
    · split at hg'
      · cases hg'
      · split_ifs at hg'
        · split at hg'
          · cases hg'
            exact ⟨h.congr rfl rfl, fun _ _ => rfl⟩
          · cases hg'
        · cases hg'
          exact hsame rfl
      · cases hg'
        exact hsame rfl
    · cases hg'
      exact hsame rfl
  | other id =>
    cases hg'
    exact hsame rfl

lemma dense_addUses {allOccs : List (SortedOcc Phi Real)} (hall : allOccs.Nodup) (h : g.Dense)
    (hnew : ∀ realOcc, .real realOcc ∈ allOccs → g.occ2RGNodeMap (.real realOcc) = none)
    (hg' : allOccs.foldlM (addUse occs) g = some g') : g'.Dense := by
  induction allOccs generalizing g with
  | nil =>
    cases hg'
    exact h
  | cons occ allOccs ih =>
    obtain ⟨hnotMem, hall⟩ := List.nodup_cons.mp hall
    rw [List.foldlM_cons, Option.bind_eq_bind, Option.bind_eq_some_iff] at hg'
    obtain ⟨g₁, hg₁, hg'⟩ := hg'
    obtain ⟨h₁, hmap⟩ := dense_addUse h
      (fun realOcc heq => hnew realOcc (heq ▸ List.mem_cons_self)) hg₁
    apply ih hall h₁ ?_ hg'
    intro realOcc hmem
    rw [hmap]
    · exact hnew realOcc (List.mem_cons_of_mem occ hmem)
    · rintro rfl
      exact hnotMem hmem

lemma dense_graphReduction (hphis : occs.phiOccs.Nodup) (hall : occs.allOccs.Nodup)
    (hg : graphReduction occs = some g) : g.Dense := by
  have hempty : ({} : ReducedGraph Phi Real).Dense :=
    fun v hpos hlt => absurd hpos (Nat.not_le.mpr hlt)
  have hdefs : (occs.phiOccs.foldl (addDefNode occs) {}).Dense :=
    dense_addDefNodes hphis hempty fun _ _ => rfl
  obtain ⟨-, -, -, hreal⟩ := inv_addDefNodes occs occs.phiOccs
  unfold graphReduction at hg
  simp only at hg
  split_ifs at hg
  · exact dense_addUses hall hdefs (fun realOcc _ => hreal realOcc) hg
  · cases hg
    exact hdefs

/-! ### The source and the sink -/

omit [DecidableEq Phi] [DecidableEq Real] in
lemma foldl_map {α : Type} {f : ReducedGraph Phi Real → α → ReducedGraph Phi Real}
    (hf : ∀ g a, (f g a).occ2RGNodeMap = g.occ2RGNodeMap) (l : List α)
    (g : ReducedGraph Phi Real) : (l.foldl f g).occ2RGNodeMap = g.occ2RGNodeMap := by
  induction l generalizing g with
  | nil => rfl
  | cons a l ih => rw [List.foldl_cons, ih, hf]

omit [DecidableEq Real] in
lemma addSingleSource_map (occs : Occs Phi Real) (g : ReducedGraph Phi Real) :
    (addSingleSource occs g).occ2RGNodeMap = g.occ2RGNodeMap := by
  have hedge : ∀ phiOcc (g : ReducedGraph Phi Real) i,
      (addSourceEdge occs phiOcc g i).occ2RGNodeMap = g.occ2RGNodeMap := by
    intro phiOcc g i
    unfold addSourceEdge
    split_ifs
    · cases g.occ2RGNodeMap (.phi phiOcc) <;> rfl
    · rfl
  have hedges : ∀ (g : ReducedGraph Phi Real) phiOcc,
      (addSourceEdges occs g phiOcc).occ2RGNodeMap = g.occ2RGNodeMap := by
    intro g phiOcc
    unfold addSourceEdges
    split_ifs
    · exact foldl_map (hedge phiOcc) _ g
    · rfl
  exact foldl_map hedges _ _

omit [DecidableEq Phi] [DecidableEq Real] in
lemma addSingleSink_map (order : List (Occ Phi Real)) (g : ReducedGraph Phi Real) :
    (addSingleSink order g).occ2RGNodeMap = g.occ2RGNodeMap := by
  have hedge : ∀ sink (g : ReducedGraph Phi Real) occ,
      (addSinkEdge sink g occ).occ2RGNodeMap = g.occ2RGNodeMap := by
    intro sink g occ
    rw [addSinkEdge_eq]
    cases g.sinkPred occ <;> rfl
  unfold addSingleSink
  split_ifs
  · rfl
  · exact foldl_map (hedge _) order _

lemma ids_build (hb : occs.Bounded) (hphis : occs.phiOccs.Nodup) (hall : occs.allOccs.Nodup)
    (horder : order.Nodup) (hkeys : ∀ occ, occ ∈ order ↔ ∃ v, g.occ2RGNodeMap occ = some v)
    (hg : build occs order = some g) :
    g.source = order.length + 1 ∧
      ∀ sink, g.sink = some sink → sink = g.source + 1 ∧ g.nextRGNodeId = sink + 1 := by
  rw [build, Option.map_eq_some_iff] at hg
  obtain ⟨g₀, hg₀, rfl⟩ := hg
  obtain ⟨h, hpos, hr⟩ := inv_graphReduction hb hg₀
  obtain ⟨h', -, hsource, hnext⟩ := inv_addSingleSource hb h hr
  simp only [addSingleSink_map, addSingleSource_map] at hkeys
  have hlength := (dense_graphReduction hphis hall hg₀).length_eq h hpos horder hkeys
  rw [hlength]
  generalize addSingleSource occs g₀ = g₁ at *
  unfold addSingleSink
  split_ifs
  · refine ⟨hsource, ?_⟩
    intro sink hsink
    rw [h'.sink] at hsink
    cases hsink
  · obtain ⟨hsource', hsink', hnext', -⟩ := foldl_addSinkEdge g₁.nextRGNodeId order
      { g₁ with
        sink := some g₁.nextRGNodeId
        nextRGNodeId := g₁.nextRGNodeId + 1 }
    refine ⟨hsource'.trans hsource, ?_⟩
    intro sink hsink
    rw [hsink'] at hsink
    cases hsink
    exact ⟨hnext.trans (congrArg (· + 1) (hsource'.trans hsource).symm), hnext'⟩

end Steps
end ReducedGraph
end MinCut
end McSSAPre
end Maple
