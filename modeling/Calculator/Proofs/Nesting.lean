import Calculator.Proofs.Budgets

/-!
# How deep a reading goes

Between two tokens some parentheses are open, and some signs and carets wait for their operands. These are
what a reading holds units for: four for each parenthesis, and one for each sign and caret. A sign is done
with its primary, a caret with the power behind it, and a parenthesis when it is closed, so that operators
of chains, numerals, and all that is behind an expression hold nothing.

What is pending is kept on a stack that is worked out of the tokens from the left, with no regard to how
they are read or to the tree that they spell. A reading is too deep if the stack outweighs its budget
somewhere, and only then.

**Results.**
* `predicts_of_reads`: a reading is too deep where what is pending outweighs the budget.
* `tooDeep_iff_lt_need`: the units that a reading needs are the most that are pending at a time.
* `need_eq_nesting`: of tokens that are read they are those of the tree, in which a chain counts as its
  deepest operand.
* `budget_limits_depth_only`: what a budget changes, of readings, values and renderings.
-/
namespace Calculator

open Token

/-- The units that the parentheses, signs and carets of a tree hold along the path that holds most. -/
def Expr.nesting : Expr → Nat
  | number _ | stray _ => 0
  | paren inner => inner.nesting + Budget.parenthesisCost
  | unary _ operand => operand.nesting + Budget.levelCost
  | binary left operator right =>
    if operator.kind = .caret then max left.nesting (right.nesting + Budget.levelCost)
    else max left.nesting right.nesting

namespace Reader

/-- What is pending between two tokens, the innermost first, and whether an operand is to come next. -/
structure Nesting where
  pending : List Kind
  operandNext : Bool
  deriving DecidableEq, Repr

namespace Nesting

/-- The units that are held for what is pending. -/
def load (pending : List Kind) : Nat :=
  Budget.parenthesisCost * pending.count .leftParen + Budget.levelCost * pending.countP (· != .leftParen)

/-- What is pending when a primary is complete: its signs are done. -/
def behindPrimary (pending : List Kind) : List Kind := pending.dropWhile Kind.isAdditive

/-- What is pending when a power is complete: its carets are done. -/
def behindPower (pending : List Kind) : List Kind := pending.dropWhile (· == .caret)

/-- What is pending behind one more token, or `none` if an expression does not go on with it. -/
def next? (token : Token) : Nesting → Option Nesting
  | ⟨pending, true⟩ =>
    if token.kind = .leftParen ∨ token.kind.isAdditive = true then some ⟨token.kind :: pending, true⟩
    else if token.kind = .number ∧ token.value.isSome = true then some ⟨behindPrimary pending, false⟩
    else none
  | ⟨pending, false⟩ =>
    if token.kind = .caret then some ⟨.caret :: pending, true⟩
    else if token.kind.isAdditive = true ∨ token.kind.isMultiplicative = true then
      some ⟨behindPower pending, true⟩
    else if token.kind = .rightParen then
      match behindPower pending with
      | .leftParen :: outer => some ⟨behindPrimary outer, false⟩
      | _ => none
    else none

/-- The most that is held at a time while an expression goes on. -/
def peak (nesting : Nesting) : List Token → Nat
  | [] => load nesting.pending
  | token :: ts =>
    match nesting.next? token with
    | none => load nesting.pending
    | some later => max (load nesting.pending) (later.peak ts)

end Nesting

/-- The most that is held at a time for the expression at the front of the tokens. -/
def need (ts : List Token) : Nat := Nesting.peak ⟨[], true⟩ ts

variable {b : Budget} {phrase : Phrase} {ts rest : List Token} {result : Except Fault Expr} {e : Expr}
  {token : Token} {s : List Kind} {m n : Nat}

theorem lookahead_of_mem (h : token ∈ ts.head?) : lookahead ts = token := by
  simp [lookahead, Option.mem_def.mp h]

namespace Nesting

/-! ## One more token -/

theorem load_leftParen (s : List Kind) : load (.leftParen :: s) = load s + Budget.parenthesisCost := by
  simp [load, Nat.mul_add]
  omega

theorem load_cons {kind : Kind} (h : kind ≠ .leftParen) (s : List Kind) :
    load (kind :: s) = load s + Budget.levelCost := by
  simp [load, h, Nat.mul_add]
  omega

theorem load_le_peak (nesting : Nesting) (ts : List Token) : load nesting.pending ≤ nesting.peak ts := by
  cases ts with
  | nil => exact Nat.le_refl _
  | cons token ts =>
    unfold peak
    split
    · exact Nat.le_refl _
    · exact Nat.le_max_left _ _

theorem peak_cons {nesting later : Nesting} (h : nesting.next? token = some later) (ts : List Token) :
    nesting.peak (token :: ts) = max (load nesting.pending) (later.peak ts) := by
  simp only [peak, h]

/-- Where what is held is within bounds, the bounds are kept if they are kept behind the next token. -/
theorem peak_cons_le_iff {nesting later : Nesting} (h : nesting.next? token = some later)
    (hload : load nesting.pending ≤ n) (ts : List Token) :
    nesting.peak (token :: ts) ≤ n ↔ later.peak ts ≤ n := by
  rw [peak_cons h]
  omega

/-- Where an expression does not go on, nothing more is held. -/
theorem peak_eq_load {nesting : Nesting} (h : ∀ token ∈ ts.head?, nesting.next? token = none) :
    nesting.peak ts = load nesting.pending := by
  cases ts with
  | nil => rfl
  | cons token ts => simp only [peak, h token rfl]

theorem next?_open (h : token.kind = .leftParen) (s : List Kind) :
    next? token ⟨s, true⟩ = some ⟨.leftParen :: s, true⟩ := by
  simp [next?, h]

theorem next?_sign (h : token.kind.isAdditive = true) (s : List Kind) :
    next? token ⟨s, true⟩ = some ⟨token.kind :: s, true⟩ := by
  simp [next?, h]

theorem next?_number {value : Float} (hn : token.kind = .number) (hv : token.value = some value)
    (s : List Kind) : next? token ⟨s, true⟩ = some ⟨behindPrimary s, false⟩ := by
  simp [next?, hn, hv, Kind.isAdditive]

theorem next?_missingValue (hn : token.kind = .number) (hv : token.value = none) (s : List Kind) :
    next? token ⟨s, true⟩ = none := by
  simp [next?, hn, hv, Kind.isAdditive]

theorem next?_noPrimary (h : beginsPrimary token.kind = false) (s : List Kind) :
    next? token ⟨s, true⟩ = none := by
  unfold beginsPrimary at h
  simp_all [next?]

theorem next?_caret (h : token.kind = .caret) (s : List Kind) :
    next? token ⟨s, false⟩ = some ⟨.caret :: s, true⟩ := by
  simp [next?, h]

theorem next?_joins {level : Level} (h : level.joins token.kind = true) (s : List Kind) :
    next? token ⟨s, false⟩ = some ⟨behindPower s, true⟩ := by
  have hk : token.kind ≠ .caret ∧
      (token.kind.isAdditive = true ∨ token.kind.isMultiplicative = true) := by
    cases level <;> cases hk : token.kind <;> simp_all [Level.joins, Kind.isAdditive, Kind.isMultiplicative]
  simp [next?, hk]

theorem next?_close (h : token.kind = .rightParen) (s : List Kind) :
    next? token ⟨.leftParen :: s, false⟩ = some ⟨behindPrimary s, false⟩ := by
  simp [next?, h, Kind.isAdditive, Kind.isMultiplicative, behindPower]

/-- No expression goes on with a token that is no operator, unless it closes a parenthesis. -/
theorem next?_loose (h : token.kind.tightness = 0)
    (hclose : token.kind = .rightParen → ∀ kind ∈ (behindPower s).head?, kind ≠ .leftParen) :
    next? token ⟨s, false⟩ = none := by
  cases hk : token.kind <;> simp_all [next?, Kind.tightness, Kind.isAdditive, Kind.isMultiplicative]
  split
  · next outer heq => simp [heq] at hclose
  · rfl

/-- Behind an expression with nothing pending nothing is held. -/
theorem peak_end (h : (lookahead ts).kind.tightness = 0) : peak ⟨[], false⟩ ts = 0 := by
  refine peak_eq_load fun token htoken => next?_loose ?_ fun _ => nofun
  rwa [lookahead_of_mem htoken] at h

/-- A caret that is done does not matter to what comes behind. -/
theorem peak_caret (h : (lookahead ts).kind ≠ .caret) (s : List Kind) :
    peak ⟨.caret :: s, false⟩ ts = max (load (.caret :: s)) (peak ⟨s, false⟩ ts) := by
  have hload : load (.caret :: s) = load s + Budget.levelCost := load_cons (by decide) s
  cases ts with
  | nil =>
    show load (.caret :: s) = max (load (.caret :: s)) (load s)
    omega
  | cons token ts =>
    have hk : token.kind ≠ .caret := h
    have hsame : next? token ⟨.caret :: s, false⟩ = next? token ⟨s, false⟩ := by
      simp [next?, hk, behindPower]
    cases hnext : next? token ⟨s, false⟩ with
    | none =>
      simp only [peak, hsame, hnext]
      omega
    | some later =>
      rw [peak_cons (hsame.trans hnext), peak_cons hnext]
      simp only
      omega

end Nesting

open Nesting

/-! ## A whole phrase -/

/-- What is pending where the phrase begins: signs may be in front of a primary, and carets in front of a
power, while what a chain is read in is a parenthesis or nothing. -/
def Phrase.Fits : Phrase → List Kind → Prop
  | .primary, _ => True
  | .power, s => behindPrimary s = s
  | .chain _, s | .more _ _, s => behindPrimary s = s ∧ behindPower s = s

/-- Where the phrase begins. -/
def Phrase.start (phrase : Phrase) (s : List Kind) : Nesting :=
  match phrase with
  | .more _ _ => ⟨s, false⟩
  | _ => ⟨s, true⟩

theorem start_operandOf (level : Level) (s : List Kind) : (operandOf level).start s = ⟨s, true⟩ := by
  cases level <;> rfl

theorem fits_operandOf (h : behindPrimary s = s ∧ behindPower s = s) (level : Level) :
    (operandOf level).Fits s := by
  cases level
  · exact h
  · exact h.1

/-- What is pending tells that a reading is too deep; if it succeeds it is left to what comes behind. -/
def Predicts (n : Nat) (start : Nesting) (ts : List Token) (after : Nesting) (rest : List Token) :
    Except Fault Expr → Prop
  | .ok _ => start.peak ts ≤ n ↔ after.peak rest ≤ n
  | .error fault => fault = .tooDeep ↔ n < start.peak ts

/-- What comes in front within bounds is as good as not there. -/
theorem Predicts.of_le_iff {start mid after : Nesting} {us : List Token}
    (hiff : start.peak ts ≤ n ↔ mid.peak us ≤ n) (h : Predicts n mid us after rest result) :
    Predicts n start ts after rest result := by
  cases result with
  | ok => exact hiff.trans h
  | error fault =>
    have h : fault = .tooDeep ↔ n < mid.peak us := h
    show fault = .tooDeep ↔ n < start.peak ts
    rw [h, ← Nat.not_le, ← Nat.not_le, hiff]

theorem predicts_map_iff {start after : Nesting} {f : Expr → Expr} :
    Predicts n start ts after rest (result.map f) ↔ Predicts n start ts after rest result := by
  cases result <;> exact Iff.rfl

/-- A reading for which the next token asks too much. -/
theorem Predicts.of_spend {cost : Nat} {fault : Fault} {start later after : Nesting}
    (hb : (Budget.units m).spend cost = .error fault) (hn : load start.pending + m = n)
    (hnext : start.next? token = some later) (hlater : load later.pending = load start.pending + cost) :
    Predicts n start (token :: ts) after rest (.error fault) := by
  obtain ⟨hlt, rfl⟩ := Budget.spend_units_error_iff.mp hb
  have hpeak := load_le_peak later ts
  have hle := peak_cons_le_iff hnext (show load start.pending ≤ n by omega) ts
  show Fault.tooDeep = .tooDeep ↔ n < start.peak (token :: ts)
  simp only [true_iff]
  omega

/-- A reading that stops within bounds. -/
theorem Predicts.of_peak_le {start after : Nesting} {fault : Fault} (hfault : fault ≠ .tooDeep)
    (h : start.peak ts ≤ n) : Predicts n start ts after rest (.error fault) := by
  show fault = .tooDeep ↔ n < start.peak ts
  simp [hfault, h]

/-- A reading is too deep where what is pending outweighs the budget, and nowhere else. -/
theorem predicts_of_reads (h : Reads (.units m) phrase ts result rest) (hs : phrase.Fits s)
    (hn : load s + m = n) : Predicts n (phrase.start s) ts ⟨behindPrimary s, false⟩ rest result := by
  -- the budget that is left and what is held for the pending tokens always make up the whole budget
  generalize hb : Budget.units m = b at h
  induction h generalizing s m with
  | @chainFault b level ts fault rest _ ih =>
    have hoperand := ih (fits_operandOf hs level) hn hb
    rwa [start_operandOf] at hoperand
  | @chain b level ts left mid result rest _ _ ih ihm =>
    have hmore : Predicts n ⟨s, false⟩ mid ⟨behindPrimary s, false⟩ rest result := ihm hs hn hb
    have hoperand := ih (fits_operandOf hs level) hn hb
    rw [start_operandOf, hs.1] at hoperand
    exact hmore.of_le_iff hoperand
  | @moreEnd b level left ts hj =>
    show Nesting.peak ⟨s, false⟩ ts ≤ n ↔ Nesting.peak ⟨behindPrimary s, false⟩ ts ≤ n
    rw [hs.1]
  | @moreFault b level left operator ts fault rest hj _ ih =>
    have hstep := peak_cons_le_iff (next?_joins hj s) (show load s ≤ n by omega) ts
    have hoperand := ih (fits_operandOf hs level) hn hb
    rw [hs.2] at hstep
    rw [start_operandOf] at hoperand
    exact hoperand.of_le_iff hstep
  | @more b level left operator ts right mid result rest hj _ _ ih ihm =>
    have hstep := peak_cons_le_iff (next?_joins hj s) (show load s ≤ n by omega) ts
    have hmore : Predicts n ⟨s, false⟩ mid ⟨behindPrimary s, false⟩ rest result := ihm hs hn hb
    have hoperand := ih (fits_operandOf hs level) hn hb
    rw [hs.2] at hstep
    rw [start_operandOf, hs.1] at hoperand
    exact (hmore.of_le_iff hoperand).of_le_iff hstep
  | powerFault _ ih => exact ih trivial hn hb
  | base _ hk ih => exact ih trivial hn hb
  | @powerDeep b ts base operator rest fault _ hk hspend ih =>
    subst hb
    have hbase : Predicts n ⟨s, true⟩ ts ⟨behindPrimary s, false⟩ (operator :: rest) (.ok base) :=
      ih trivial hn rfl
    rw [show behindPrimary s = s from hs] at hbase
    refine Predicts.of_le_iff hbase ?_
    exact .of_spend hspend hn (next?_caret hk s) (load_cons (by decide) s)
  | @power b b' ts base operator mid result rest _ hk hspend hpower ih ihp =>
    subst hb
    obtain ⟨hcost, rfl⟩ := Budget.spend_units_ok_iff.mp hspend
    have hload : load (.caret :: s) = load s + Budget.levelCost := load_cons (by decide) s
    have hbase : Predicts n ⟨s, true⟩ ts ⟨behindPrimary s, false⟩ (operator :: mid) (.ok base) :=
      ih trivial hn rfl
    rw [show behindPrimary s = s from hs] at hbase ⊢
    have hstep := peak_cons_le_iff (next?_caret hk s) (show load s ≤ n by omega) mid
    have hexponent : Predicts n ⟨.caret :: s, true⟩ mid ⟨.caret :: s, false⟩ rest result :=
      ihp rfl (by omega) rfl
    refine predicts_map_iff.mpr (Predicts.of_le_iff (hbase.trans hstep) ?_)
    cases result with
    | error => exact hexponent
    | ok e =>
      obtain ⟨-, -, -, htight⟩ := spells_of_reads hpower trivial
      have hahead : (lookahead rest).kind ≠ .caret := fun h =>
        Nat.ne_of_lt htight (Kind.eq_caret_iff.mp h)
      refine hexponent.trans ?_
      rw [peak_caret hahead]
      omega
  | @parenDeep b token ts fault hk hspend =>
    subst hb
    exact .of_spend hspend hn (next?_open hk s) (load_leftParen s)
  | @parenFault b b' token ts fault rest hk hspend _ ih =>
    subst hb
    obtain ⟨hcost, rfl⟩ := Budget.spend_units_ok_iff.mp hspend
    have hload := load_leftParen s
    have hstep := peak_cons_le_iff (next?_open hk s) (show load s ≤ n by omega) ts
    have hinner : Predicts n ⟨.leftParen :: s, true⟩ ts ⟨.leftParen :: s, false⟩ rest (.error fault) :=
      ih ⟨rfl, rfl⟩ (by omega) rfl
    exact Predicts.of_le_iff hstep hinner
  | @parenOpen b b' token ts inner rest hk hspend hreads hclose ih =>
    subst hb
    obtain ⟨hcost, rfl⟩ := Budget.spend_units_ok_iff.mp hspend
    have hload := load_leftParen s
    have hstep := peak_cons_le_iff (next?_open hk s) (show load s ≤ n by omega) ts
    have hinner : Predicts n ⟨.leftParen :: s, true⟩ ts ⟨.leftParen :: s, false⟩ rest (.ok inner) :=
      ih ⟨rfl, rfl⟩ (by omega) rfl
    obtain ⟨-, -, -, htight⟩ := spells_of_reads hreads trivial
    have hend : Nesting.peak ⟨.leftParen :: s, false⟩ rest = load (.leftParen :: s) := by
      refine peak_eq_load fun token htoken => ?_
      rw [lookahead_of_mem htoken] at htight hclose
      exact next?_loose (Nat.lt_one_iff.mp htight) fun h => absurd h hclose
    refine Predicts.of_le_iff (hstep.trans hinner) (.of_peak_le nofun ?_)
    omega
  | @paren b b' token ts inner close rest hk hspend _ hclose ih =>
    subst hb
    obtain ⟨hcost, rfl⟩ := Budget.spend_units_ok_iff.mp hspend
    have hload := load_leftParen s
    have hstep := peak_cons_le_iff (next?_open hk s) (show load s ≤ n by omega) ts
    have hinner : Predicts n ⟨.leftParen :: s, true⟩ ts ⟨.leftParen :: s, false⟩ (close :: rest)
        (.ok inner) := ih ⟨rfl, rfl⟩ (by omega) rfl
    have hend := peak_cons_le_iff (next?_close hclose s) (show load (.leftParen :: s) ≤ n by omega) rest
    exact hstep.trans (hinner.trans hend)
  | @signDeep b token ts fault hsign hspend =>
    subst hb
    exact .of_spend hspend hn (next?_sign hsign s) (load_cons (not_leftParen_of_isAdditive hsign) s)
  | @sign b b' token ts result rest hsign hspend _ ih =>
    subst hb
    obtain ⟨hcost, rfl⟩ := Budget.spend_units_ok_iff.mp hspend
    have hload := load_cons (not_leftParen_of_isAdditive hsign) s
    have hstep := peak_cons_le_iff (next?_sign hsign s) (show load s ≤ n by omega) ts
    have hoperand : Predicts n ⟨token.kind :: s, true⟩ ts ⟨behindPrimary (token.kind :: s), false⟩ rest
        result := ih trivial (by omega) rfl
    rw [show behindPrimary (token.kind :: s) = behindPrimary s from List.dropWhile_cons_of_pos hsign]
      at hoperand
    exact predicts_map_iff.mpr (Predicts.of_le_iff hstep hoperand)
  | @missingValue b token ts hnumber hv =>
    refine .of_peak_le nofun ?_
    rw [peak_eq_load (by rintro _ ⟨⟩; exact next?_missingValue hnumber hv s)]
    show load s ≤ n
    omega
  | @number b token ts value hnumber hv =>
    exact peak_cons_le_iff (next?_number hnumber hv s) (show load s ≤ n by omega) ts
  | @noPrimary b ts hbegins =>
    have hend : Nesting.peak ⟨s, true⟩ ts = load s := by
      refine peak_eq_load fun token htoken => next?_noPrimary ?_ s
      rwa [lookahead_of_mem htoken] at hbegins
    refine .of_peak_le nofun ?_
    show Nesting.peak ⟨s, true⟩ ts ≤ n
    omega

/-- The reading of an expression is too deep if that of its sum is. -/
theorem read_tooDeep_iff {strict : Bool} :
    (read strict b ts).result = .error .tooDeep ↔ (sum b ts).result = .error .tooDeep := by
  refine ⟨fun h => ?_, read_of_sum_eq_error strict⟩
  rcases of_read_eq_error h with hsum | ⟨found, hfound⟩
  · exact hsum
  · cases hfound

/-- The reading of an expression is too deep within fewer units than are pending at a time, and only then. -/
theorem tooDeep_iff_lt_need (strict : Bool) (ts : List Token) (n : Nat) :
    (read strict (.units n) ts).result = .error .tooDeep ↔ n < need ts := by
  have hreads := reads_sum (.units n) ts
  have h : Predicts n ⟨[], true⟩ ts ⟨[], false⟩ (sum (.units n) ts).rest (sum (.units n) ts).result :=
    predicts_of_reads hreads ⟨rfl, rfl⟩ (Nat.zero_add n)
  rw [read_tooDeep_iff]
  cases hsum : (sum (.units n) ts).result with
  | error fault =>
    rw [hsum] at h
    rw [Except.error.injEq]
    exact h
  | ok e =>
    -- behind an expression nothing is pending, and what is there does not go on with it
    rw [hsum] at h hreads
    obtain ⟨-, -, -, htight⟩ := spells_of_reads hreads trivial
    have hend := peak_end (Nat.lt_one_iff.mp htight)
    have hle : need ts ≤ n := h.mpr (by rw [hend]; exact n.zero_le)
    exact ⟨nofun, fun hlt => absurd hle (Nat.not_le.mpr hlt)⟩

/-! ## The tree of an expression -/

/-- The units that were held for what is on the left of the phrase. -/
def Phrase.held : Phrase → Nat
  | .more _ left => left.nesting
  | _ => 0

theorem held_operandOf (level : Level) : (operandOf level).held = 0 := by
  cases level <;> rfl

/-- The most that is held for a phrase is held for its tree, or was held on its left. -/
theorem peak_of_spells {q r : List Token} (h : Spells phrase q e)
    (hf : (lookahead r).kind.tightness < phrase.tightness) (hs : phrase.Fits s) :
    max (load s + phrase.held) ((phrase.start s).peak (q ++ r)) =
      max (load s + e.nesting) (Nesting.peak ⟨behindPrimary s, false⟩ r) := by
  induction h generalizing s r with
  | @chain level p q left e _ hq ih ihm =>
    have hmid := lookahead_more hq hf
    have hoperand := ih (r := q ++ r) (by rw [tightness_operandOf]; exact Nat.lt_succ_of_le hmid)
      (fits_operandOf hs level)
    have hmore := ihm hf hs
    have hle := load_le_peak ⟨s, true⟩ (p ++ (q ++ r))
    rw [start_operandOf, held_operandOf, hs.1] at hoperand
    rw [List.append_assoc]
    simp only [Phrase.held, Phrase.start] at *
    omega
  | @nothing level left =>
    rw [hs.1]
    rfl
  | @more level left operator p q right e hj _ hq ih ihm =>
    have hmid := lookahead_more hq hf
    have hoperand := ih (r := q ++ r) (by rw [tightness_operandOf]; exact Nat.lt_succ_of_le hmid)
      (fits_operandOf hs level)
    have hmore := ihm hf hs
    have hle := load_le_peak ⟨s, true⟩ (p ++ (q ++ r))
    have hstep := peak_cons (next?_joins hj s) (p ++ (q ++ r))
    have htree : (Expr.binary left operator right).nesting = max left.nesting right.nesting := by
      refine if_neg fun hcaret => ?_
      rw [Level.joins_iff, hcaret] at hj
      cases level <;> cases hj
    rw [start_operandOf, held_operandOf, hs.1] at hoperand
    rw [hs.2] at hstep
    rw [List.cons_append, List.append_assoc]
    simp only [Phrase.held, Phrase.start] at *
    omega
  | base _ ih => exact ih (Nat.lt_succ_of_lt hf) trivial
  | @power p q base operator e _ hk _ ih ihp =>
    have hs : behindPrimary s = s := hs
    have hload : load (.caret :: s) = load s + Budget.levelCost := load_cons (by decide) s
    have hbase := ih (r := operator :: (q ++ r)) (s := s)
      (Nat.lt_succ_of_le (Kind.tightness_le _)) trivial
    have hexponent := ihp (s := .caret :: s) hf rfl
    have hle := load_le_peak ⟨.caret :: s, true⟩ (q ++ r)
    have hstep := peak_cons (next?_caret hk s) (q ++ r)
    have hahead : (lookahead r).kind ≠ .caret := fun h => Nat.ne_of_lt hf (Kind.eq_caret_iff.mp h)
    have hdone := peak_caret hahead s
    have htree : (Expr.binary base operator e).nesting =
        max base.nesting (e.nesting + Budget.levelCost) := if_pos hk
    rw [show behindPrimary (.caret :: s) = .caret :: s from rfl] at hexponent
    rw [hs] at hbase
    rw [hs, List.append_assoc, List.cons_append]
    simp only [Phrase.held, Phrase.start] at *
    omega
  | @paren token q inner close hk _ hc ih =>
    have hload := load_leftParen s
    have hinner := ih (r := close :: r) (s := .leftParen :: s)
      (by simp [lookahead, hc, Kind.tightness, Phrase.tightness, Level.tightness]) ⟨rfl, rfl⟩
    have hle := load_le_peak ⟨.leftParen :: s, true⟩ (q ++ close :: r)
    have hstep := peak_cons (next?_open hk s) (q ++ close :: r)
    have hend := peak_cons (next?_close hc s) r
    have htree : (Expr.paren inner).nesting = inner.nesting + Budget.parenthesisCost := rfl
    rw [show behindPrimary (.leftParen :: s) = .leftParen :: s from rfl] at hinner
    rw [List.cons_append, List.append_assoc, List.singleton_append]
    simp only [Phrase.held, Phrase.start] at *
    omega
  | @sign token q e hsign _ ih =>
    have hload := load_cons (not_leftParen_of_isAdditive hsign) s
    have hoperand := ih (s := token.kind :: s) hf trivial
    have hle := load_le_peak ⟨token.kind :: s, true⟩ (q ++ r)
    have hstep := peak_cons (next?_sign hsign s) (q ++ r)
    have htree : (Expr.unary token e).nesting = e.nesting + Budget.levelCost := rfl
    rw [show behindPrimary (token.kind :: s) = behindPrimary s from List.dropWhile_cons_of_pos hsign]
      at hoperand
    rw [List.cons_append]
    simp only [Phrase.held, Phrase.start] at *
    omega
  | @number token value hn hv =>
    have hstep := peak_cons (next?_number hn hv s) r
    have htree : (Expr.number value).nesting = 0 := rfl
    rw [List.singleton_append]
    simp only [Phrase.held, Phrase.start] at *
    omega

/-- The units that are needed for tokens that are read are those of their tree, whatever is behind them. -/
theorem need_eq_nesting (h : (sum .unlimited ts).result = .ok e) : need ts = e.nesting := by
  obtain ⟨q, hq, hs, htight⟩ := sum_ok_iff.mp ⟨h, rfl⟩
  have hpeak := peak_of_spells (s := []) hs (Nat.lt_one_iff.mpr htight) ⟨rfl, rfl⟩
  have hend := peak_end htight
  rw [← hq, show behindPrimary [] = [] from rfl, hend] at hpeak
  have hnone : load [] = 0 := rfl
  show Nesting.peak ⟨[], true⟩ ts = e.nesting
  simp only [Phrase.held, Phrase.start, hnone] at hpeak
  omega

/-! ## What a budget changes -/

/-- A budget has outcomes replaced by the fault that it is used up, and changes nothing else. Reading is too
deep if more units are pending at a time than there are; where there is a tree they are those of the tree.
Values and renderings need as many units as the tree has levels. -/
theorem budget_limits_depth_only (strict : Bool) (ts : List Token) (e : Expr) (line : String) :
    (∀ b c : Budget, b ≤ c → (read strict b ts).result ≠ .error .tooDeep →
      read strict c ts = read strict b ts) ∧
    (∀ b : Budget, b ≤ .unlimited) ∧ (read strict .unlimited ts).result ≠ .error .tooDeep ∧
    (∀ n, (read strict (.units n) ts).result = .error .tooDeep ↔ n < need ts) ∧
    ((read strict .unlimited ts).result = .ok e → need ts = e.nesting) ∧
    Budget.Needs (fun b => e.value b) e.height ∧ Budget.Needs (fun b => e.render b) e.height ∧
    Budget.IsStable (fun b => evaluate strict b line) := by
  refine ⟨fun b c => read_eq_of_le, Budget.le_unlimited, ?_, tooDeep_iff_lt_need strict ts, ?_,
    e.needs_value, e.needs_render, isStable_evaluate strict line⟩
  · have henough : (read strict (.units (need ts)) ts).result ≠ .error .tooDeep := fun h =>
      Nat.lt_irrefl _ ((tooDeep_iff_lt_need strict ts _).mp h)
    rwa [read_eq_of_le (Budget.le_unlimited _) henough]
  · exact fun h => need_eq_nesting (sum_of_read_eq_ok h)

/-- For `(1 + -2) ^ 3` five units are needed: the caret holds one when the parenthesis with the sign in it
is done. -/
theorem budget_limits_depth_only_sign :
    let ts : List Token := [⟨.leftParen, "(", none⟩, ⟨.number, "1", some 1⟩, ⟨.plus, "+", none⟩,
      ⟨.minus, "-", none⟩, ⟨.number, "2", some 2⟩, ⟨.rightParen, ")", none⟩, ⟨.caret, "^", none⟩,
      ⟨.number, "3", some 3⟩]
    need ts = 5 ∧ (read true (.units 4) ts).result = .error .tooDeep ∧
      (read true (.units 5) ts).result ≠ .error .tooDeep ∧
      read true .unlimited ts = read true (.units 5) ts := by
  intro ts
  have hneed : need ts = 5 := by decide
  obtain ⟨hstable, hlimit, -, hdeep, -⟩ := budget_limits_depth_only true ts (.number 0) ""
  have henough : (read true (.units 5) ts).result ≠ .error .tooDeep := by
    rw [ne_eq, hdeep, hneed]
    decide
  refine ⟨hneed, ?_, henough, hstable _ _ (hlimit _) henough⟩
  rw [hdeep, hneed]
  decide

end Reader
end Calculator
