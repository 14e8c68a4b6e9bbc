import Maple.ME.LfoUnroll.Rounds
import Maple.ME.LfoUnroll.TripCount

/-!
# When the unrolled loop executes the same instances
-/

namespace Maple
namespace LfoUnroll

variable {α β γ σ : Type*} {f : IntFormat} {sem : Semantics α β γ σ} {doloop : Doloop α β γ}

/-! ### What Process returns -/

lemma unrollTimesLoop_bounds (stmtCount left unrollTimes unrolledStmtCount : Nat) :
    unrollTimes ≤ unrollTimesLoop stmtCount left unrollTimes unrolledStmtCount ∧
      unrollTimesLoop stmtCount left unrollTimes unrolledStmtCount ≤ unrollTimes + left := by
  induction left generalizing unrollTimes unrolledStmtCount with
  | zero => exact ⟨le_refl _, le_refl _⟩
  | succ left ih =>
    rw [unrollTimesLoop]
    split_ifs
    · have := ih (unrollTimes + 1) (unrolledStmtCount + stmtCount)
      omega
    · omega

lemma unrollTimes_bounds (stmtCount : Nat) :
    1 ≤ unrollTimes stmtCount ∧ unrollTimes stmtCount ≤ 10 :=
  unrollTimesLoop_bounds stmtCount 9 1 stmtCount

lemma process_cases {optLevel : Nat} {code : List (Code β γ)}
    (h : process f optLevel doloop = some code) :
    doloop.incrExpr = .const 1 ∧ doloop.condOp ≠ .eq ∧
    ((tripCount f doloop 1 ≠ 0 ∧
        tripCount f doloop 1 < unrollTimes doloop.doBody.count * 2 ∧
        code = doFullUnroll doloop.startExpr 1 (tripCount f doloop 1)) ∨
      ((tripCount f doloop 1 ≠ 0 → unrollTimes doloop.doBody.count * 2 ≤ tripCount f doloop 1) ∧
        code = doUnroll doloop 1 (unrollTimes doloop.doBody.count) (tripCount f doloop 1))) := by
  unfold process at h
  cases hincr : doloop.incrExpr with
  | const stepAmount =>
    simp only [hincr] at h
    split_ifs at h with h₁ h₂ h₃ h₄ h₅ h₆
    · have hstep : stepAmount = 1 := not_not.mp h₁
      subst hstep
      exact ⟨rfl, h₃, Or.inl ⟨h₅.1, h₅.2, (Option.some.inj h).symm⟩⟩
    · have hstep : stepAmount = 1 := not_not.mp h₁
      subst hstep
      refine ⟨rfl, h₃, Or.inr ⟨?_, (Option.some.inj h).symm⟩⟩
      intro hne
      exact Nat.le_of_not_lt fun hlt => h₅ ⟨hne, hlt⟩
  | _ =>
    simp only [hincr] at h
    cases h

/-! ### Constant trip counts -/

/-- Whether the start value and the end value are constants (`IsConstval`). -/
def Doloop.hasConstBounds (doloop : Doloop α β γ) : Bool :=
  match doloop.startExpr, doloop.condOpnd1 with
  | .const _, .const _ => true
  | _, _ => false

lemma constTripCount_eq (hwidth : f.width ≤ 64) (op : CmpOp) (start stop : Int) :
    (constTripCount f op start stop 1 : Int) = distance op start stop % f.modulus := by
  have hpow : 2 ^ 64 = f.modulus * 2 ^ (64 - f.width) := by
    rw [IntFormat.modulus, ← pow_add]
    congr 1
    omega
  have hvalid : ∀ n : Nat, n * 2 ^ (64 - f.width) % 2 ^ 64 / 2 ^ (64 - f.width) = n % f.modulus := by
    intro n
    rw [hpow, Nat.mul_mod_mul_right, Nat.mul_div_cancel _ (Nat.two_pow_pos _)]
  have hdvd : (f.modulus : Int) ∣ 2 ^ 64 := by
    refine ⟨2 ^ (64 - f.width), ?_⟩
    exact_mod_cast hpow
  have hdvd' : f.modulus ∣ 2 ^ 64 := ⟨_, hpow⟩
  have hnonneg : 0 ≤ (stop - start) % 2 ^ 64 := Int.emod_nonneg _ (by norm_num)
  simp only [constTripCount, Int.tdiv_one, hvalid, distance]
  split_ifs
  · rw [Nat.mod_mod_of_dvd _ hdvd', Int.natCast_mod, Nat.cast_add, Nat.cast_one,
      Int.toNat_of_nonneg hnonneg, Int.add_emod, Int.emod_emod_of_dvd _ hdvd, ← Int.add_emod]
  · rw [Int.natCast_mod, Int.toNat_of_nonneg hnonneg, Int.emod_emod_of_dvd _ hdvd, add_zero]

/-! ### The same instances -/

section Statement

variable (f sem)

/-- The value of an operand in a state, as a value of `ivPrimType`. -/
def valueAt (e : Expr β γ) (t : State σ) : Int := f.wrap (e.eval f sem t.iv t.env)

/-- The expression is invariant in a loop over the body. -/
def LoopInvariant (body : Block α β γ) (e : Expr β γ) : Prop :=
  ∀ iv iv' v s, e.eval f sem iv' (body.exec f sem v s) = e.eval f sem iv s

/-- The loop and the block end, with the same values of the loop variable in the instances of the
body and the same state besides the loop variable and the new register. -/
def SameInstances (doloop : Doloop α β γ) (code : List (Code β γ)) (t : State σ) : Prop :=
  ∃ t₁ t₂, Outcome.Settles (fun fuel => runCode f sem doloop.doBody fuel t doloop.code)
      (.done t₁) ∧
    Outcome.Settles (fun fuel => runBlock f sem doloop.doBody fuel code t) (.done t₂) ∧
    t₂.trace = t₁.trace ∧ t₂.env = t₁.env

end Statement

/-- The condition under which the block executes the same instances. Between constants whose
distance is no multiple of the modulus, the loop runs or nothing remains of a count that is large
enough for a loop; else the run-time remainder is right. -/
def UnrollExact (f : IntFormat) (doloop : Doloop α β γ) (start stop : Int) : Prop :=
  let times := unrollTimes doloop.doBody.count
  let d := distance doloop.condOp start stop
  if doloop.hasConstBounds = true ∧ ¬(f.modulus : Int) ∣ d then
    doloop.condOp.eval start stop = true ∨
      ((times * 2 : Nat) ≤ d % f.modulus ∧ (times : Int) ∣ d % f.modulus)
  else RuntimeExact f doloop.condOp start stop times

lemma LoopInvariant.foldl {body : Block α β γ} {e : Expr β γ} (h : LoopInvariant f sem body e)
    (vs : List Int) (iv iv' : Int) (s : σ) :
    e.eval f sem iv' (vs.foldl (fun s v => body.exec f sem v s) s) = e.eval f sem iv s := by
  induction vs generalizing s with
  | nil => exact (h iv' 0 0 s).symm.trans (h iv 0 0 s)
  | cons v vs ih => exact (ih (body.exec f sem v s)).trans (h iv iv v s)

lemma LoopInvariant.fixed {body : Block α β γ} {e : Expr β γ} (h : LoopInvariant f sem body e)
    (t : State σ) (iv : Int) :
    Fixed f sem body (.expr e) (f.wrap (e.eval f sem iv t.env)) t := by
  intro vs iv'
  simp only [Operand.eval, runInstances_env, h.foldl vs iv iv' t.env]

/-! ### The loop itself -/

lemma mem_valueAt (e : Expr β γ) (t : State σ) : f.Mem (valueAt f sem e t) := f.wrap_mem _

lemma runCode_single {body : Block α β γ} {startExpr rhs : Operand β γ} {op : CmpOp}
    {start x : Int} {t : State σ} {n : Nat} (hstart : startExpr.eval f sem t = start)
    (hmem : f.Mem start) (hx : Fixed f sem body rhs x { t with iv := start })
    (hmax : start + n ≤ f.maxValue) (htrue : ∀ j < n, op.eval (start + j) x = true)
    (hfalse : op.eval (start + n) x = false) :
    Outcome.Settles
      (fun fuel => runCode f sem body fuel t (.doloop startExpr op rhs (.const 1) [none]))
      (.done { runInstances f sem body t (iota start n) with iv := start + n }) := by
  have hsettles := doloop_settles rounds_single hmem hx n (by simpa using hmax)
    (fun j hj => by simpa using htrue j hj) (by simpa using hfalse)
  simp only [runCode, hstart]
  simpa [runInstances_eq] using hsettles

lemma doloop_code_settles (hincr : doloop.incrExpr = .const 1) {t : State σ} {n : Nat}
    (hinv : LoopInvariant f sem doloop.doBody doloop.condOpnd1)
    (h : Trips f doloop.condOp (valueAt f sem doloop.startExpr t)
      (valueAt f sem doloop.condOpnd1 t) n) :
    Outcome.Settles (fun fuel => runCode f sem doloop.doBody fuel t doloop.code)
      (.done { runInstances f sem doloop.doBody t (iota (valueAt f sem doloop.startExpr t) n) with
        iv := valueAt f sem doloop.startExpr t + n }) := by
  rw [Doloop.code, hincr]
  exact runCode_single rfl (mem_valueAt doloop.startExpr t) (hinv.fixed _ t.iv) h.le_max h.holds
    h.ends

/-! ### The code before the unrolled loop -/

/-- The code executes `k` instances from `start` on, and the operand has the value `p` then. -/
structure Prelude (f : IntFormat) (sem : Semantics α β γ σ) (body : Block α β γ)
    (pre : List (Code β γ)) (startExpr : Operand β γ) (t t₁ : State σ) (start : Int) (k : Nat)
    (p : Int) : Prop where
  settles : Outcome.Settles (fun fuel => runBlock f sem body fuel pre t) (.done t₁)
  trace : t₁.trace = (runInstances f sem body t (iota start k)).trace
  env : t₁.env = (runInstances f sem body t (iota start k)).env
  eval : startExpr.eval f sem t₁ = p

lemma runBlock_append {body : Block α β γ} (xs ys : List (Code β γ)) (fuel : Nat) (t : State σ) :
    runBlock f sem body fuel (xs ++ ys) t =
      (runBlock f sem body fuel xs t).bind fun t => runBlock f sem body fuel ys t := by
  induction xs generalizing t with
  | nil => rfl
  | cons x xs ih =>
    simp only [List.cons_append, runBlock, ih]
    cases runCode f sem body fuel t x with
    | done s => rfl
    | assertionFailed => rfl
    | outOfFuel => rfl

lemma runBlock_append_settles {body : Block α β γ} {xs ys : List (Code β γ)} {t t₁ : State σ}
    {o : Outcome (State σ)}
    (hx : Outcome.Settles (fun fuel => runBlock f sem body fuel xs t) (.done t₁))
    (hy : Outcome.Settles (fun fuel => runBlock f sem body fuel ys t₁) o) :
    Outcome.Settles (fun fuel => runBlock f sem body fuel (xs ++ ys) t) o := by
  simp only [runBlock_append]
  exact hx.bind hy

lemma runBlock_singleton {body : Block α β γ} (code : Code β γ) (fuel : Nat) (t : State σ) :
    runBlock f sem body fuel [code] t = runCode f sem body fuel t code := by
  simp only [runBlock]
  cases runCode f sem body fuel t code with
  | done s => rfl
  | assertionFailed => rfl
  | outOfFuel => rfl

lemma runBlock_singleton_settles {body : Block α β γ} {code : Code β γ} {t : State σ}
    {o : Outcome (State σ)} (h : Outcome.Settles (fun fuel => runCode f sem body fuel t code) o) :
    Outcome.Settles (fun fuel => runBlock f sem body fuel [code] t) o := by
  simpa only [runBlock_singleton] using h

section Split

variable {t t₁ : State σ} {n k times : Nat} {p : Int} {pre : List (Code β γ)}
  {startExpr : Operand β γ}

lemma Prelude.fixed (hinv : LoopInvariant f sem doloop.doBody doloop.condOpnd1) {start : Int}
    (hpre : Prelude f sem doloop.doBody pre startExpr t t₁ start k p) :
    Fixed f sem doloop.doBody (.expr doloop.condOpnd1) (valueAt f sem doloop.condOpnd1 t)
      { t₁ with iv := p } := by
  intro vs iv
  simp only [Operand.eval, runInstances_env, hpre.env, hinv.foldl _ t.iv iv, valueAt,
    hinv.foldl _ t.iv t.iv]

lemma Prelude.runBlock_eq {start : Int}
    (hpre : Prelude f sem doloop.doBody pre startExpr t t₁ start k p) {o : Outcome (State σ)}
    (h : Outcome.Settles (fun fuel => runBlock f sem doloop.doBody fuel
      (pre ++ [unrolledDoloop doloop 1 times startExpr]) t) o) :
    ∃ fuel, runCode f sem doloop.doBody fuel t₁ (unrolledDoloop doloop 1 times startExpr) = o := by
  obtain ⟨-, n, hn⟩ := h
  obtain ⟨-, m, hm⟩ := hpre.settles
  refine ⟨n + m, ?_⟩
  have hrun := hn (n + m) (by omega)
  have hsettles := hm (n + m) (by omega)
  simp only [runBlock_append, hsettles, Outcome.bind_done, runBlock_singleton] at hrun
  exact hrun

lemma Prelude.sameInstances (hincr : doloop.incrExpr = .const 1) (htimes : 0 < times)
    (hinv : LoopInvariant f sem doloop.doBody doloop.condOpnd1)
    (h : Trips f doloop.condOp (valueAt f sem doloop.startExpr t)
      (valueAt f sem doloop.condOpnd1 t) n)
    (hpre : Prelude f sem doloop.doBody pre startExpr t t₁ (valueAt f sem doloop.startExpr t) k p)
    (hp : f.Mem p) {r : Nat} (hn : n = k + r * times)
    (hiota : iota p (r * times) =
      iota (valueAt f sem doloop.startExpr t + k) (r * times))
    (hmax : p + (r * times : Nat) ≤ f.maxValue)
    (htrue : ∀ j < r,
      doloop.condOp.eval (p + (j * times : Nat)) (valueAt f sem doloop.condOpnd1 t) = true)
    (hfalse : doloop.condOp.eval (p + (r * times : Nat))
      (valueAt f sem doloop.condOpnd1 t) = false) :
    SameInstances f sem doloop (pre ++ [unrolledDoloop doloop 1 times startExpr]) t := by
  have hloop := doloop_code_settles hincr hinv h
  have hunrolled := doloop_settles (rounds_unrolled htimes) (t := { t₁ with iv := p }) hp
    (hpre.fixed hinv) r hmax htrue hfalse
  refine ⟨_, { runInstances f sem doloop.doBody t₁ (iota p (r * times)) with
    iv := p + (r * times : Nat) }, hloop, runBlock_append_settles hpre.settles ?_, ?_, ?_⟩
  · simp only [runBlock_singleton, unrolledDoloop, runCode, hpre.eval]
    simpa [runInstances_eq] using hunrolled
  · simp only [hpre.trace, runInstances_trace, hn, iota_add, hiota, List.append_assoc]
  · simp only [runInstances_env, hpre.env, hn, iota_add, hiota, List.foldl_append]

/-- The block executes the same instances exactly if the code before the unrolled loop splits the
trip count in the right place. -/
lemma sameInstances_iff_splits (hincr : doloop.incrExpr = .const 1) (htimes : 0 < times)
    (hinv : LoopInvariant f sem doloop.doBody doloop.condOpnd1)
    (h : Trips f doloop.condOp (valueAt f sem doloop.startExpr t)
      (valueAt f sem doloop.condOpnd1 t) n)
    (hpre : Prelude f sem doloop.doBody pre startExpr t t₁ (valueAt f sem doloop.startExpr t) k p)
    (hp : f.Mem p) (hk : n ≠ 0 → k ≠ 0 → p = valueAt f sem doloop.startExpr t + k) :
    SameInstances f sem doloop (pre ++ [unrolledDoloop doloop 1 times startExpr]) t ↔
      Splits doloop.condOp (valueAt f sem doloop.startExpr t)
        (valueAt f sem doloop.condOpnd1 t) times n k p := by
  constructor
  · rintro ⟨t₁', t₂, ht₁', ht₂, htrace, -⟩
    have ht₁ := Outcome.done.inj (ht₁'.unique (doloop_code_settles hincr hinv h))
    obtain ⟨fuel, hrun⟩ := hpre.runBlock_eq ht₂
    simp only [unrolledDoloop, runCode, hpre.eval] at hrun
    obtain ⟨vs, hvs, hdvd, hnil, hhead⟩ :=
      doloop_done htimes (rounds_unrolled htimes) hp (hpre.fixed hinv) hrun
    -- the instances after those of the code before the loop are whole rounds
    have hlist : iota (valueAt f sem doloop.startExpr t) k ++ vs =
        iota (valueAt f sem doloop.startExpr t) n := by
      rw [hvs, ht₁] at htrace
      simpa [hpre.trace] using htrace
    have hlen : k + vs.length = n := by
      have := congrArg List.length hlist
      simpa using this
    refine ⟨by omega, ?_, ?_⟩
    · intro hn
      have hvs' : vs = [] := List.length_eq_zero_iff.mp (by omega)
      by_contra hcond
      have := hhead (by simpa using hcond)
      rw [hvs'] at this
      cases this
    · intro hn
      refine ⟨?_, by rw [← hlen, Nat.add_sub_cancel_left]; exact hdvd⟩
      by_cases hk0 : k = 0
      · -- the unrolled loop is entered with the first value
        subst hk0
        have hvs' : vs = iota (valueAt f sem doloop.startExpr t) n := by simpa using hlist
        have hstart := head?_iota (valueAt f sem doloop.startExpr t) (Nat.pos_of_ne_zero hn)
        rw [← hvs'] at hstart
        have hcond : doloop.condOp.eval p (valueAt f sem doloop.condOpnd1 t) = true := by
          by_contra hfalse
          rw [hnil (by simpa using hfalse)] at hstart
          cases hstart
        have hp' := (hhead hcond).symm.trans hstart
        simpa using hp'
      · exact hk hn hk0
  · rintro ⟨hkn, hzero, hsplit⟩
    by_cases hn : n = 0
    · have hk0 : k = 0 := by omega
      apply hpre.sameInstances hincr htimes hinv h hp (r := 0)
      · simp [hn, hk0]
      · simp
      · simpa using hp.2
      · intro j hj
        omega
      · simpa using hzero hn
    · obtain ⟨hpk, rounds, hrounds⟩ := hsplit hn
      have hn' : n = k + rounds * times := by
        rw [Nat.mul_comm, ← hrounds]
        omega
      have hmax := h.le_max
      apply hpre.sameInstances hincr htimes hinv h hp hn'
      · rw [hpk]
      · rw [hpk]
        omega
      · intro j hj
        have hlt : k + j * times < n := by
          rw [hn']
          exact Nat.add_lt_add_left (Nat.mul_lt_mul_of_pos_right hj htimes) k
        have := h.holds _ hlt
        rw [hpk, add_assoc]
        exact_mod_cast this
      · have := h.ends
        rw [hpk, add_assoc]
        rw [hn'] at this
        exact_mod_cast this

end Split

/-! ### The remainder -/

lemma remDoloop_settles (hincr : doloop.incrExpr = .const 1) {rhs : Operand β γ} {p : Int}
    {t : State σ} (hp : f.Mem p)
    (hrhs : Fixed f sem doloop.doBody rhs p { t with iv := valueAt f sem doloop.startExpr t }) :
    Outcome.Settles (fun fuel => runCode f sem doloop.doBody fuel t (remDoloop doloop rhs))
      (.done { runInstances f sem doloop.doBody t (iota (valueAt f sem doloop.startExpr t)
          (p - valueAt f sem doloop.startExpr t).toNat) with
        iv := valueAt f sem doloop.startExpr t +
          ((p - valueAt f sem doloop.startExpr t).toNat : Nat) }) := by
  have hstart : (Operand.expr doloop.startExpr).eval f sem t = valueAt f sem doloop.startExpr t :=
    rfl
  have hmem : f.Mem (valueAt f sem doloop.startExpr t) := f.wrap_mem _
  generalize valueAt f sem doloop.startExpr t = start at *
  rw [remDoloop, hincr]
  apply runCode_single hstart hmem hrhs
  · have := hmem.2
    have := hp.2
    omega
  · intro j hj
    simp [CmpOp.eval]
    omega
  · simp [CmpOp.eval]
    omega

lemma wrap_eval_remLoopEndExpr (sem : Semantics α β γ σ) {times : Nat}
    (htimes : (times : Int) ≤ f.maxValue) (t : State σ) :
    f.wrap ((remLoopEndExpr doloop times).eval f sem t.iv t.env) =
      splitPoint f doloop.condOp (valueAt f sem doloop.startExpr t)
        (valueAt f sem doloop.condOpnd1 t) times := by
  have hfactor : f.wrap times = times :=
    f.wrap_of_mem ⟨le_trans f.minValue_nonpos (Int.natCast_nonneg times), htimes⟩
  have hdist : f.wrap (distance doloop.condOp (valueAt f sem doloop.startExpr t)
      (valueAt f sem doloop.condOpnd1 t)) =
      f.wrap (doloop.condOpnd1.eval f sem t.iv t.env - doloop.startExpr.eval f sem t.iv t.env +
        if doloop.condOp = .ge ∨ doloop.condOp = .le then 1 else 0) := by
    rw [distance, valueAt, valueAt, ← f.wrap_wrap_add, f.wrap_wrap_sub_wrap, f.wrap_wrap_add]
  rw [splitPoint, hdist, valueAt, f.wrap_wrap_add]
  unfold remLoopEndExpr
  split_ifs with hop
  · simp only [Expr.eval, hfactor, f.wrap_add_wrap, f.wrap_wrap_add, f.wrap_wrap]
  · simp only [Expr.eval, hfactor, f.wrap_add_wrap, add_zero, f.wrap_wrap]

lemma prelude_runtime (sem : Semantics α β γ σ) (hincr : doloop.incrExpr = .const 1) {times : Nat}
    (htimes : (times : Int) ≤ f.maxValue) {t : State σ} {p : Int}
    (hp : splitPoint f doloop.condOp (valueAt f sem doloop.startExpr t)
      (valueAt f sem doloop.condOpnd1 t) times = p) :
    ∃ t₁, Prelude f sem doloop.doBody
      [.regassign (remLoopEndExpr doloop times), remDoloop doloop .preg] .preg t t₁
      (valueAt f sem doloop.startExpr t) (p - valueAt f sem doloop.startExpr t).toNat p := by
  have hpreg := (wrap_eval_remLoopEndExpr sem htimes t).trans hp
  have hmem : f.Mem p := hp ▸ f.wrap_mem _
  generalize hend : (remLoopEndExpr doloop times).eval f sem t.iv t.env = q at *
  have hfixed : Fixed f sem doloop.doBody .preg p
      { t with preg := q, iv := valueAt f sem doloop.startExpr t } := by
    intro vs iv
    simpa [Operand.eval] using hpreg
  have hloop := remDoloop_settles hincr (t := { t with preg := q }) hmem hfixed
  have hassign : Outcome.Settles (fun fuel => runBlock f sem doloop.doBody fuel
      [.regassign (remLoopEndExpr doloop times)] t) (.done { t with preg := q }) := by
    apply runBlock_singleton_settles
    simp only [runCode, hend]
    exact Outcome.settles_const (by simp)
  refine ⟨_, ⟨runBlock_append_settles hassign (runBlock_singleton_settles hloop), ?_, ?_, ?_⟩⟩
  · simp [valueAt]
  · simp [runInstances_env, valueAt]
  · simpa [Operand.eval] using hpreg

lemma prelude_const (sem : Semantics α β γ σ) (hincr : doloop.incrExpr = .const 1) {s : Int}
    (hstart : doloop.startExpr = .const s) (r : Nat) (t : State σ) :
    ∃ t₁, Prelude f sem doloop.doBody (constRemainder doloop r)
      (.expr (if r ≠ 0 then .add doloop.startExpr (.const r) else doloop.startExpr)) t t₁
      (valueAt f sem doloop.startExpr t)
      (constSplitCount f (valueAt f sem doloop.startExpr t) r)
      (constSplitPoint f (valueAt f sem doloop.startExpr t) r) := by
  have hvalue : ∀ t : State σ, valueAt f sem doloop.startExpr t = f.wrap s := by
    intro t
    rw [hstart, valueAt, Expr.eval, f.wrap_wrap]
  have hend : ∀ t : State σ, r ≠ 0 →
      (Operand.expr (.add doloop.startExpr (.const (r : Int)))).eval f sem t =
        constSplitPoint f (f.wrap s) r := by
    intro t hr
    simp only [Operand.eval, hstart, Expr.eval, constSplitPoint, if_neg hr, f.wrap_add_wrap,
      f.wrap_wrap]
  simp only [hvalue]
  by_cases hr0 : r = 0
  · subst hr0
    simp only [constRemainder, if_true, ne_eq, not_true_eq_false, if_false]
    refine ⟨t, Outcome.settles_const (by simp), ?_, ?_, ?_⟩
    · simp [constSplitCount, constSplitPoint]
    · simp [constSplitCount, constSplitPoint, runInstances_env]
    · simpa [Operand.eval, valueAt, constSplitPoint] using hvalue t
  simp only [constRemainder, hr0, if_false, ne_eq, not_false_eq_true, if_true]
  by_cases hr1 : r = 1
  · subst hr1
    simp only [if_true]
    have hreads : Reads f sem t.iv (some doloop.startExpr) (f.wrap s) := by
      intro s'
      rw [hstart, Expr.eval]
    refine ⟨runInstance f sem doloop.doBody t (f.wrap s), ?_, ?_, ?_, ?_⟩
    · apply runBlock_singleton_settles
      simp only [runCode, List.foldl_cons, List.foldl_nil, runCopy_eq hreads]
      exact Outcome.settles_const (by simp)
    · simp [constSplitCount, iota, runInstance]
    · simp [constSplitCount, iota, runInstance, runInstances]
    · exact hend _ one_ne_zero
  · have hmem : f.Mem (constSplitPoint f (f.wrap s) r) := by
      rw [constSplitPoint, if_neg hr0]
      exact f.wrap_mem _
    have hloop := remDoloop_settles hincr (t := t) hmem (fun vs iv => hend _ hr0)
    simp only [if_neg hr1]
    refine ⟨_, runBlock_singleton_settles hloop, ?_, ?_, hend _ hr0⟩
    · simp [constSplitCount, hr1, hvalue]
    · simp [constSplitCount, hr1, hvalue, runInstances_env]

/-! ### Full unrolling -/

lemma sameInstances_doFullUnroll_iff (hincr : doloop.incrExpr = .const 1)
    (hop : doloop.condOp ≠ .eq) (hinv : LoopInvariant f sem doloop.doBody doloop.condOpnd1) {s : Int}
    (hstart : doloop.startExpr = .const s) {t : State σ} {n : Nat}
    (h : Trips f doloop.condOp (valueAt f sem doloop.startExpr t)
      (valueAt f sem doloop.condOpnd1 t) n) {k : Nat} (hk0 : k ≠ 0)
    (hk : (k : Int) = distance doloop.condOp (valueAt f sem doloop.startExpr t)
      (valueAt f sem doloop.condOpnd1 t) % f.modulus) :
    SameInstances f sem doloop (doFullUnroll doloop.startExpr 1 k) t ↔
      doloop.condOp.eval (valueAt f sem doloop.startExpr t)
        (valueAt f sem doloop.condOpnd1 t) = true := by
  have hmem : f.Mem (valueAt f sem doloop.startExpr t) := f.wrap_mem _
  have hvalue : ∀ iv s', doloop.startExpr.eval f sem iv s' = valueAt f sem doloop.startExpr t := by
    intro iv s'
    rw [valueAt, hstart, Expr.eval, Expr.eval, f.wrap_wrap]
  have hloop := doloop_code_settles hincr hinv h
  generalize valueAt f sem doloop.startExpr t = start at *
  have hcopies : List.Forall₂ (Reads f sem t.iv)
      (some doloop.startExpr :: adjustedCopies doloop.startExpr 1 (k - 1))
      (roundValues f start k) := by
    obtain ⟨m, rfl⟩ : ∃ m, k = m + 1 := ⟨k - 1, by omega⟩
    rw [roundValues_succ hmem]
    exact .cons (hvalue t.iv) (reads_adjustedCopies (hvalue t.iv) m)
  have hunrolled : Outcome.Settles
      (fun fuel => runBlock f sem doloop.doBody fuel (doFullUnroll doloop.startExpr 1 k) t)
      (.done (runInstances f sem doloop.doBody t (roundValues f start k))) := by
    apply runBlock_singleton_settles
    simp only [runCode, foldl_runCopy_eq hcopies]
    exact Outcome.settles_const (by simp)
  constructor
  · rintro ⟨t₁, t₂, ht₁, ht₂, htrace, -⟩
    rw [Outcome.done.inj (ht₁.unique hloop), Outcome.done.inj (ht₂.unique hunrolled)] at htrace
    have hlist : roundValues f start k = iota start n := by simpa using htrace
    have hlen : k = n := by simpa using congrArg List.length hlist
    exact h.entered (by omega)
  · intro hentered
    have hn : n ≠ 0 := by
      rintro rfl
      rw [h.not_entered] at hentered
      cases hentered
    have hkn : k = n := by
      have := h.emod_distance hop hmem hn
      omega
    have hmax := h.le_max
    have hlist : roundValues f start k = iota start n := by
      rw [← hkn]
      exact roundValues_eq_iota hmem (by omega)
    refine ⟨_, _, hloop, hunrolled, ?_, ?_⟩
    · rw [hlist]
    · rw [hlist]

/-! ### Unrolling -/

lemma tripCount_of_hasConstBounds (sem : Semantics α β γ σ) (hwidth : f.width ≤ 64)
    (h : doloop.hasConstBounds = true) (t : State σ) :
    (tripCount f doloop 1 : Int) = distance doloop.condOp (valueAt f sem doloop.startExpr t)
      (valueAt f sem doloop.condOpnd1 t) % f.modulus ∧ ∃ s, doloop.startExpr = .const s := by
  unfold Doloop.hasConstBounds at h
  split at h
  · rename_i s e hs he
    refine ⟨?_, s, hs⟩
    simp only [tripCount, valueAt, hs, he, Expr.eval, f.wrap_wrap]
    exact constTripCount_eq hwidth _ _ _
  · cases h

lemma tripCount_of_not_hasConstBounds (h : doloop.hasConstBounds = false) :
    tripCount f doloop 1 = 0 := by
  unfold tripCount
  cases hs : doloop.startExpr with
  | const s =>
    cases he : doloop.condOpnd1 with
    | const e =>
      rw [Doloop.hasConstBounds, hs, he] at h
      cases h
    | _ => rfl
  | _ => rfl

section Unroll

variable {t : State σ} {n : Nat}

lemma sameInstances_doUnroll_const_iff (hwidth : f.width ≤ 64) (hincr : doloop.incrExpr = .const 1)
    (hop : doloop.condOp ≠ .eq) (hinv : LoopInvariant f sem doloop.doBody doloop.condOpnd1)
    (hconst : doloop.hasConstBounds = true)
    (h : Trips f doloop.condOp (valueAt f sem doloop.startExpr t)
      (valueAt f sem doloop.condOpnd1 t) n) {times : Nat} (htimes : 0 < times)
    (hle : times ≤ tripCount f doloop 1) :
    SameInstances f sem doloop (doUnroll doloop 1 times (tripCount f doloop 1)) t ↔
      (doloop.condOp.eval (valueAt f sem doloop.startExpr t)
        (valueAt f sem doloop.condOpnd1 t) = true ∨ times ∣ tripCount f doloop 1) := by
  obtain ⟨hk, s, hs⟩ := tripCount_of_hasConstBounds sem hwidth hconst t
  generalize tripCount f doloop 1 = k at *
  have hS : f.Mem (valueAt f sem doloop.startExpr t) := f.wrap_mem _
  have hE : f.Mem (valueAt f sem doloop.condOpnd1 t) := f.wrap_mem _
  obtain ⟨t₁, hpre⟩ := prelude_const sem hincr hs (k % times) t
  have hk0 : k ≠ 0 := by omega
  simp only [doUnroll, ne_eq, hk0, not_false_eq_true, if_true]
  rw [sameInstances_iff_splits hincr htimes hinv h hpre ?_ ?_,
    splits_const_iff htimes hS hE h hop hk hle]
  · unfold constSplitPoint
    split_ifs
    · exact hS
    · exact f.wrap_mem _
  · intro hn hcount
    have hmax := h.le_max
    have hmin := hS.1
    unfold constSplitCount at hcount ⊢
    split_ifs at hcount ⊢ with hr1
    · rw [constSplitPoint, hr1, if_neg one_ne_zero]
      exact f.wrap_of_mem ⟨by push_cast; omega, by push_cast; omega⟩
    · omega

lemma sameInstances_doUnroll_runtime_iff (hincr : doloop.incrExpr = .const 1)
    (hop : doloop.condOp ≠ .eq) (hinv : LoopInvariant f sem doloop.doBody doloop.condOpnd1)
    (h : Trips f doloop.condOp (valueAt f sem doloop.startExpr t)
      (valueAt f sem doloop.condOpnd1 t) n) {times : Nat} (htimes : 0 < times)
    (hmax : (times : Int) ≤ f.maxValue) :
    SameInstances f sem doloop (doUnroll doloop 1 times 0) t ↔
      RuntimeExact f doloop.condOp (valueAt f sem doloop.startExpr t)
        (valueAt f sem doloop.condOpnd1 t) times := by
  have hS : f.Mem (valueAt f sem doloop.startExpr t) := f.wrap_mem _
  have hE : f.Mem (valueAt f sem doloop.condOpnd1 t) := f.wrap_mem _
  obtain ⟨t₁, hpre⟩ := prelude_runtime sem hincr hmax (t := t) rfl
  rw [← splits_iff_runtimeExact htimes hS hE h hop,
    ← sameInstances_iff_splits hincr htimes hinv h hpre (f.wrap_mem _) (by omega)]
  rfl

/-- The block that replaces a loop executes the same instances of the body, in the same order and
with the same values of the loop variable, exactly under `UnrollExact`. -/
theorem process_exact_iff (hwidth : 8 ≤ f.width) (hwidth' : f.width ≤ 64) {optLevel : Nat}
    {code : List (Code β γ)} (hprocess : process f optLevel doloop = some code)
    (hinv : LoopInvariant f sem doloop.doBody doloop.condOpnd1)
    (hno : NoOverflow f doloop.condOp (valueAt f sem doloop.startExpr t)
      (valueAt f sem doloop.condOpnd1 t)) :
    SameInstances f sem doloop code t ↔
      UnrollExact f doloop (valueAt f sem doloop.startExpr t)
        (valueAt f sem doloop.condOpnd1 t) := by
  have hS : f.Mem (valueAt f sem doloop.startExpr t) := f.wrap_mem _
  obtain ⟨n, htrips⟩ := hno.exists_trips hS
  obtain ⟨hincr, hop, hcases⟩ := process_cases hprocess
  obtain ⟨htimes, hten⟩ := unrollTimes_bounds doloop.doBody.count
  have hmax : (unrollTimes doloop.doBody.count : Int) ≤ f.maxValue := by
    have hle : (2 : Int) ^ 8 ≤ f.modulus := by
      exact_mod_cast Nat.pow_le_pow_right two_pos hwidth
    unfold IntFormat.maxValue
    split_ifs <;> omega
  by_cases hconst : doloop.hasConstBounds = true
  · obtain ⟨hk, s, hs⟩ := tripCount_of_hasConstBounds sem hwidth' hconst t
    have hdvd : (f.modulus : Int) ∣ distance doloop.condOp (valueAt f sem doloop.startExpr t)
        (valueAt f sem doloop.condOpnd1 t) ↔ tripCount f doloop 1 = 0 := by
      rw [Int.dvd_iff_emod_eq_zero, ← hk]
      exact_mod_cast Iff.rfl
    simp only [UnrollExact, hconst, true_and, hdvd, ← hk]
    rcases hcases with ⟨hk0, hlt, rfl⟩ | ⟨hge, rfl⟩
    · have hnot : ¬((unrollTimes doloop.doBody.count * 2 : Nat) : Int) ≤ tripCount f doloop 1 := by
        omega
      rw [sameInstances_doFullUnroll_iff hincr hop hinv hs htrips hk0 hk]
      simp only [hk0, not_false_eq_true, if_true, hnot, false_and, or_false]
    · by_cases hk0 : tripCount f doloop 1 = 0
      · simp only [hk0, not_true_eq_false, if_false]
        exact sameInstances_doUnroll_runtime_iff hincr hop hinv htrips htimes hmax
      · have hle := hge hk0
        rw [sameInstances_doUnroll_const_iff hwidth' hincr hop hinv hconst htrips htimes (by omega)]
        simp only [hk0, not_false_eq_true, if_true, Nat.cast_le, hle, true_and,
          Int.natCast_dvd_natCast]
  · have hk0 := tripCount_of_not_hasConstBounds (f := f) (by simpa using hconst)
    simp only [UnrollExact, hconst]
    rcases hcases with ⟨hne, -, -⟩ | ⟨-, rfl⟩
    · exact absurd hk0 hne
    · rw [hk0]
      exact sameInstances_doUnroll_runtime_iff hincr hop hinv htrips htimes hmax

end Unroll

/-! ### A loop between constants -/

/-- A loop from zero whose body is one statement. -/
def Doloop.fromZero (condOp : CmpOp) (stop : Int) : Doloop Unit Empty Empty where
  startExpr := .const 0
  condOp := condOp
  condOpnd0 := .iv
  condOpnd1 := .const stop
  incrExpr := .const 1
  doBody := .cons (.simple () .nil) .nil

/-- The meaning of statements that do nothing. -/
def Semantics.idle : Semantics Unit Empty Empty Unit where
  leaf e := e.elim
  node op := op.elim
  exec _ _ s := s

theorem process_exact_iff_fromZero :
    SameInstances ⟨32, true⟩ Semantics.idle (Doloop.fromZero .lt 5)
        (doFullUnroll (.const 0) 1 5) ⟨0, 0, (), []⟩ ↔
      UnrollExact ⟨32, true⟩ (Doloop.fromZero .lt 5) 0 5 := by
  have hprocess : process ⟨32, true⟩ 3 (Doloop.fromZero .lt 5) =
      some (doFullUnroll (.const 0) 1 5) := rfl
  refine process_exact_iff (by decide) (by decide) hprocess (fun _ _ _ _ => rfl) ?_
  intro k hk
  have hlt : (0 : Int) + k < 5 := of_decide_eq_true (hk k (le_refl k))
  have hmax : (⟨32, true⟩ : IntFormat).maxValue = 2147483647 := by decide
  change (0 : Int) + k + 1 ≤ _
  omega

/-- A loop that counts up while its variable is greater than five runs zero times from zero, and is
replaced by five copies of its body. -/
theorem process_not_exact_of_gt :
    process ⟨32, true⟩ 3 (Doloop.fromZero .gt 5) = some (doFullUnroll (.const 0) 1 5) ∧
      LoopInvariant ⟨32, true⟩ Semantics.idle (Doloop.fromZero .gt 5).doBody
        (Doloop.fromZero .gt 5).condOpnd1 ∧
      NoOverflow ⟨32, true⟩ .gt 0 5 ∧
      ¬SameInstances ⟨32, true⟩ Semantics.idle (Doloop.fromZero .gt 5)
        (doFullUnroll (.const 0) 1 5) ⟨0, 0, (), []⟩ := by
  have hinv : LoopInvariant ⟨32, true⟩ Semantics.idle (Doloop.fromZero .gt 5).doBody
      (Doloop.fromZero .gt 5).condOpnd1 := fun _ _ _ _ => rfl
  refine ⟨rfl, hinv, ?_, ?_⟩
  · intro k hk
    have := hk 0 (Nat.zero_le k)
    simp [CmpOp.eval] at this
  · have htrips : Trips ⟨32, true⟩ .gt 0 5 0 := ⟨by omega, rfl, by decide⟩
    intro hsame
    have hentered := (sameInstances_doFullUnroll_iff (k := 5) rfl (by decide) hinv rfl htrips
      (by decide) (by decide)).mp hsame
    revert hentered
    decide

end LfoUnroll
end Maple
