import Maple.IR.MIRLower.Follows

/-!
# Jumps

A label of the body has its place in the code where the code does what the body does from there.
-/

namespace Maple
namespace MIRLower
namespace Lowering

variable {α β ρ : Type*} {L : Lowering α β ρ}

variable (L) in
/-- The place of a label in the body and its place in the code agree. -/
def Found (o : Option (Kont α β ρ)) (f : Option (List (Flat α β ρ)))
    (rest : List (Flat α β ρ)) : Prop :=
  match o with
  | none => f = none
  | some k => ∃ r, f = some r ∧ L.Follows k (r ++ rest)

lemma Found.map {o : Option (Kont α β ρ)} {f : Option (List (Flat α β ρ))}
    {post rest : List (Flat α β ρ)} (h : L.Found o f (post ++ rest)) :
    L.Found o (f.map (· ++ post)) rest := by
  cases o with
  | none =>
    have hf : f = none := h
    rw [hf]
    rfl
  | some k =>
    obtain ⟨r, rfl, hr⟩ := h
    exact ⟨r ++ post, rfl, by simpa using hr⟩

lemma Found.or {o o' : Option (Kont α β ρ)} {f f' : Option (List (Flat α β ρ))}
    {rest : List (Flat α β ρ)} (h : L.Found o f rest) (h' : L.Found o' f' rest) :
    L.Found (o.or o') (f.or f') rest := by
  cases o with
  | none =>
    have hf : f = none := h
    rw [hf, Option.none_or, Option.none_or]
    exact h'
  | some k =>
    obtain ⟨r, rfl, hr⟩ := h
    exact ⟨r, rfl, hr⟩

lemma Inner.suffix {b : Block α β ρ} {k : Kont α β ρ}
    {fs rest pre fb post : List (Flat α β ρ)} (h : L.Inner b k fs rest pre fb post)
    (hcode : fs ++ rest <:+ L.code) : fb ++ (post ++ rest) <:+ L.code := by
  refine List.IsSuffix.trans ?_ hcode
  rw [h.eq]
  exact ⟨pre, by simp⟩

lemma Inner.found {b : Block α β ρ} {k : Kont α β ρ} {fs rest pre fb post : List (Flat α β ρ)}
    (h : L.Inner b k fs rest pre fb post) {l : Nat} (hl : l < L.first)
    (hb : L.Found (b.findLabel l k) (findFlat l fb) (post ++ rest)) :
    L.Found (b.findLabel l k) (findFlat l fs) rest := by
  have hpre : findFlat l pre = none :=
    findFlat_eq_none fun hmem => absurd (h.created l (Or.inl hmem)) (by omega)
  have hpost : findFlat l post = none :=
    findFlat_eq_none fun hmem => absurd (h.created l (Or.inr hmem)) (by omega)
  rw [h.eq, findFlat_append, findFlat_append, hpre, hpost, Option.map_none, Option.none_or,
    Option.or_none]
  exact hb.map

lemma Tests.suffix {opnd : Expr β} {code yes no : List (Flat α β ρ)}
    (h : L.Tests opnd code yes no) (hcode : code <:+ L.code) :
    yes <:+ L.code ∧ no <:+ L.code := by
  cases h with
  | eval => exact ⟨(List.suffix_cons _ _).trans hcode, (List.suffix_cons _ _).trans hcode⟩
  | brfalse hfind => exact ⟨(List.suffix_cons _ _).trans hcode, findFlat_suffix hfind⟩
  | brtrue hfind => exact ⟨findFlat_suffix hfind, (List.suffix_cons _ _).trans hcode⟩

lemma lowered_of {b : Block α β ρ} {fb : List (Flat α β ρ)} {n n' : Nat}
    (h : lowerBlock L.doVarPType L.keepWhile b n = some (fb, n')) (hlt : b.LabelsLt L.first)
    (hn : L.first ≤ n) : L.Lowered b fb ∧ L.first ≤ n' :=
  ⟨⟨hlt, n, n', hn, h⟩, hn.trans (lowerBlock_fresh _ _ b h hlt hn).1⟩

lemma Lowered.follows_seq {b : Block α β ρ} {xs ys rest : List (Flat α β ρ)} {k : Kont α β ρ}
    (hb : L.Lowered b ys) (h : EndsNoFall (xs ++ ys) ∨ L.Follows k rest) :
    EndsNoFall xs ∨ L.Follows (.seq b k) (ys ++ rest) := by
  rcases h with hend | hk
  · exact hend.append.imp_right fun hend => hb.follows (Or.inl hend)
  · exact Or.inr (hb.follows (Or.inr hk))

lemma Part.labelsLt_toBlock {p : Part α β ρ} {n : Nat} (h : p.LabelsLt n) :
    p.toBlock.LabelsLt n := by
  cases p with
  | null => trivial
  | block b => exact h

mutual

theorem stmt_found {l : Nat} (hl : l < L.first) : ∀ (st : Stmt α β ρ) {n n' : Nat}
    {fs rest : List (Flat α β ρ)} {k : Kont α β ρ},
    lowerStmt L.doVarPType L.keepWhile st n = some (fs, n') → st.LabelsLt L.first →
    L.first ≤ n → (fs ≠ [] → EndsNoFall fs ∨ L.Follows k rest) → fs ++ rest <:+ L.code →
    L.Found (st.findLabel l k) (findFlat l fs) rest
  | .simple _, _, _, _, _, _, h, _, _, _, _ => by
    cases h
    rfl
  | .goto _, _, _, _, _, _, h, _, _, _, _ => by
    cases h
    rfl
  | .ret _, _, _, _, _, _, h, _, _, _, _ => by
    cases h
    rfl
  | .condGoto _ _ _, _, _, _, _, _, h, _, _, _, _ => by
    cases h
    rfl
  | .label l', _, _, _, rest, k, h, _, _, hk, _ => by
    cases h
    have hk' : L.Follows k rest := (hk (by simp)).resolve_left (by simp [Flat.opCodeNoFallThrough])
    simp only [Stmt.findLabel, findFlat]
    split_ifs
    · exact ⟨[], rfl, hk'⟩
    · rfl
  | .ifStmt opnd thenPart elsePart, _, _, _, _, _, h, hlt, hn, hk, hcode => by
    obtain ⟨ts, n₁, es, l', hts, hes, hshape⟩ := lowerStmt_ifStmt_inv h
    have hn₁ := (lowered_of hts (Part.labelsLt_toBlock hlt.1) hn).2
    have hl' := (lowered_of hes (Part.labelsLt_toBlock hlt.2) hn₁).2
    obtain ⟨postThen, postElse, hparts⟩ := IfShape.parts hshape hl' (hk hshape.ne_nil) hcode
    obtain ⟨hyes, hno⟩ := hparts.tests.suffix hcode
    rw [hparts.find l hl]
    exact (part_found hl thenPart hts hlt.1 hn (fun _ => hparts.thenFollows) hyes).map.or
      (part_found hl elsePart hes hlt.2 hn₁ (fun _ => hparts.elseFollows) hno).map
  | .whileStmt opnd b, _, _, _, _, _, h, hlt, hn, hk, hcode => by
    obtain ⟨body, l', hbody, hfs⟩ := lowerStmt_whileStmt_inv h
    obtain ⟨hb, hl'⟩ := lowered_of hbody hlt hn
    obtain rfl := congrArg Prod.fst hfs
    have hk' := (hk (lowerWhileStmt_ne_nil opnd body l')).resolve_left
      (not_endsNoFall_lowerWhileStmt opnd body l')
    obtain ⟨-, pre, post, hinner⟩ := lowerWhileStmt_follows hb hl' hk' hcode
    exact hinner.found hl
      (block_found hl b hbody hlt hn (fun _ => hinner.follows) (hinner.suffix hcode))
  | .dowhile b opnd, _, _, _, _, _, h, hlt, hn, hk, hcode => by
    obtain ⟨body, l', hbody, hfs⟩ := lowerStmt_dowhile_inv h
    obtain ⟨hb, hl'⟩ := lowered_of hbody hlt hn
    obtain rfl := congrArg Prod.fst hfs
    have hk' := (hk (List.cons_ne_nil _ _)).resolve_left
      (not_endsNoFall_lowerDowhileStmt opnd body l')
    have hinner := lowerDowhileStmt_follows hb hl' hk' hcode
    exact hinner.found hl
      (block_found hl b hbody hlt hn (fun _ => hinner.follows) (hinner.suffix hcode))
  | .doloop doVar startExpr condExpr incrExpr b, _, _, _, _, _, h, hlt, hn, hk, hcode => by
    obtain ⟨body, l', hbody, hfs⟩ := lowerStmt_doloop_inv h
    obtain ⟨hb, hl'⟩ := lowered_of hbody hlt hn
    obtain rfl := congrArg Prod.fst hfs
    have hk' := (hk (List.cons_ne_nil _ _)).resolve_left
      (not_endsNoFall_lowerDoloopStmt doVar startExpr condExpr incrExpr body l')
    obtain ⟨-, pre, post, hinner⟩ := lowerDoloopStmt_follows hb hl' hk' hcode
    exact hinner.found hl
      (block_found hl b hbody hlt hn (fun _ => hinner.follows) (hinner.suffix hcode))
  | .block b, _, _, _, _, _, h, hlt, hn, hk, hcode => block_found hl b h hlt hn hk hcode

theorem block_found {l : Nat} (hl : l < L.first) : ∀ (b : Block α β ρ) {n n' : Nat}
    {fs rest : List (Flat α β ρ)} {k : Kont α β ρ},
    lowerBlock L.doVarPType L.keepWhile b n = some (fs, n') → b.LabelsLt L.first →
    L.first ≤ n → (fs ≠ [] → EndsNoFall fs ∨ L.Follows k rest) → fs ++ rest <:+ L.code →
    L.Found (b.findLabel l k) (findFlat l fs) rest
  | .nil, _, _, _, _, _, h, _, _, _, _ => by
    cases h
    rfl
  | .cons stmt restBlock, _, _, _, rest, k, h, hlt, hn, hk, hcode => by
    obtain ⟨xs, n₁, ys, hxs, hys, rfl⟩ := lowerBlock_cons_inv h
    have hn₁ := hn.trans (lowerStmt_fresh _ _ stmt hxs hlt.1 hn).1
    rw [List.append_assoc] at hcode
    rw [findFlat_append]
    apply Found.or
    · apply (stmt_found hl stmt hxs hlt.1 hn _ hcode).map
      intro hne
      exact (lowered_of hys hlt.2 hn₁).1.follows_seq (hk (by simp [hne]))
    · apply block_found hl restBlock hys hlt.2 hn₁ _ ((List.suffix_append xs _).trans hcode)
      intro hne
      exact (hk (by simp [hne])).imp_left fun hend => hend.of_append hne

theorem part_found {l : Nat} (hl : l < L.first) : ∀ (p : Part α β ρ) {n n' : Nat}
    {fs rest : List (Flat α β ρ)} {k : Kont α β ρ},
    lowerBlock L.doVarPType L.keepWhile p.toBlock n = some (fs, n') → p.LabelsLt L.first →
    L.first ≤ n → (fs ≠ [] → EndsNoFall fs ∨ L.Follows k rest) → fs ++ rest <:+ L.code →
    L.Found (p.findLabel l k) (findFlat l fs) rest
  | .null, _, _, _, _, _, h, _, _, _, _ => by
    cases h
    rfl
  | .block b, _, _, _, _, _, h, hlt, hn, hk, hcode => block_found hl b h hlt hn hk hcode

end

end Lowering
end MIRLower
end Maple
