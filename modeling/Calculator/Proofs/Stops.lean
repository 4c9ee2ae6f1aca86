import Calculator.Proofs.Grammar

/-!
# Where a reading stops

`Stops phrase q kind` says that the tokens `q` begin the phrase and that a token of the kind is missing
behind them. It is to failed readings what spelling is to those that succeed: a reading fails on the tokens
that begin so and go on with a token that cannot be next, whatever follows that.

Therefore a fault stands as early as it can. The tokens in front of it can be completed to a sentence, and
with the kind that is missing, while no sentence goes on with the token that was found.

**Results.**
* `stops_or_tooDeep_of_reads`: a reading that fails stops somewhere, or is too deep.
* `stops_of_reads`, `reads_of_stops`: where a token is missing it stops, and where it stops one is missing.
* `derives_of_stops`: what stops can be completed, beginning with the kind that is missing.
* `read_reports_earliest_token`: the fault of a reading is at the first token that no sentence goes on with.
-/
namespace Calculator

namespace Reader

open Token

/-- The tokens `q` begin the phrase, and behind them a token of the kind is missing. -/
inductive Stops : Phrase → List Token → Kind → Prop where
  | operand {level q kind} : Stops (operandOf level) q kind → Stops (.chain level) q kind
  | links {level p q left kind} : Spells (operandOf level) p left → Stops (.more level left) q kind →
      Stops (.chain level) (p ++ q) kind
  | link {level left operator q kind} : level.joins operator.kind = true →
      Stops (operandOf level) q kind → Stops (.more level left) (operator :: q) kind
  | more {level left operator p q right kind} : level.joins operator.kind = true →
      Spells (operandOf level) p right → Stops (.more level (.binary left operator right)) q kind →
      Stops (.more level left) (operator :: (p ++ q)) kind
  | base {q kind} : Stops .primary q kind → Stops .power q kind
  | exponent {p q base operator kind} : Spells .primary p base → operator.kind = .caret →
      Stops .power q kind → Stops .power (p ++ operator :: q) kind
  | inner {token q kind} : token.kind = .leftParen → Stops (.chain .sum) q kind →
      Stops .primary (token :: q) kind
  | close {token q inner} : token.kind = .leftParen → Spells (.chain .sum) q inner →
      Stops .primary (token :: q) .rightParen
  | sign {token q kind} : token.kind.isAdditive = true → Stops .primary q kind →
      Stops .primary (token :: q) kind
  | primary : Stops .primary [] .number

/-- A token of the kind `ahead` cannot be next where one of the kind `missing` is: it does not begin a
primary, or it neither goes on the sum in a parenthesis nor closes it. -/
def Blocks (missing ahead : Kind) : Prop :=
  match missing with
  | .number => beginsPrimary ahead = false
  | _ => ahead.tightness = 0 ∧ ahead ≠ missing

variable {b : Budget} {phrase : Phrase} {ts q rest : List Token} {missing : Kind} {found : Token}

/-! ## Where a reading fails it stops -/

/-- A reading that has stopped in front of `ts` for a token of the kind fails on them, and leaves some: on a
token that cannot be next, which it leaves, or on a number without a value, which it takes. -/
inductive Refuses : Kind → List Token → Fault → List Token → Prop where
  | unexpected {kind ahead} : Blocks kind (lookahead ahead).kind →
      Refuses kind ahead (.unexpected kind (lookahead ahead)) ahead
  | missingValue {literal ahead} : literal.kind = .number → literal.value = none →
      Refuses .number (literal :: ahead) (.missingValue literal) ahead

/-- A reading that fails stops somewhere, unless it is too deep for a limited budget. -/
theorem stops_or_tooDeep_of_reads {fault : Fault} (h : Reads b phrase ts (.error fault) rest) :
    (∃ q ahead missing, ts = q ++ ahead ∧ Stops phrase q missing ∧ Refuses missing ahead fault rest) ∨
      fault = .tooDeep ∧ b ≠ .unlimited := by
  -- going down into the budget, a limit stays a limit
  generalize hr : Except.error fault = result at h
  induction h with
  | chainFault _ ih =>
    refine (ih hr).imp_left ?_
    rintro ⟨q, ahead, missing, hq, hs, href⟩
    exact ⟨q, ahead, missing, hq, .operand hs, href⟩
  | @chain b level ts left mid result rest hp _ _ ihm =>
    obtain ⟨p, rfl, hspells, -⟩ := spells_of_reads hp (by cases level <;> trivial)
    refine (ihm hr).imp_left ?_
    rintro ⟨q, ahead, missing, rfl, hs, href⟩
    exact ⟨p ++ q, ahead, missing, (List.append_assoc ..).symm, .links hspells hs, href⟩
  | moreFault hj _ ih =>
    refine (ih hr).imp_left ?_
    rintro ⟨q, ahead, missing, rfl, hs, href⟩
    exact ⟨_ :: q, ahead, missing, rfl, .link hj hs, href⟩
  | @more b level left operator ts right mid result rest hj hp _ _ ihm =>
    obtain ⟨p, rfl, hspells, -⟩ := spells_of_reads hp (by cases level <;> trivial)
    refine (ihm hr).imp_left ?_
    rintro ⟨q, ahead, missing, rfl, hs, href⟩
    exact ⟨operator :: (p ++ q), ahead, missing, by simp, .more hj hspells hs, href⟩
  | powerFault _ ih =>
    refine (ih hr).imp_left ?_
    rintro ⟨q, ahead, missing, hq, hs, href⟩
    exact ⟨q, ahead, missing, hq, .base hs, href⟩
  | @power b b' ts base operator mid result rest hp hk hb _ _ ihp =>
    obtain ⟨p, rfl, hspells, -⟩ := spells_of_reads hp trivial
    cases result with
    | ok => cases hr
    | error =>
      cases hr
      refine (ihp rfl).imp ?_ (And.imp_right (Budget.spend_ne_unlimited hb))
      rintro ⟨q, ahead, missing, rfl, hs, href⟩
      exact ⟨p ++ operator :: q, ahead, missing, by simp, .exponent hspells hk hs, href⟩
  | powerDeep _ _ hb | parenDeep _ hb | signDeep _ hb =>
    cases hr
    exact .inr (Budget.spend_eq_error hb)
  | parenFault hk hb _ ih =>
    refine (ih hr).imp ?_ (And.imp_right (Budget.spend_ne_unlimited hb))
    rintro ⟨q, ahead, missing, rfl, hs, href⟩
    exact ⟨_ :: q, ahead, missing, rfl, .inner hk hs, href⟩
  | parenOpen hk _ hinner hclose =>
    cases hr
    obtain ⟨q, rfl, hq, hf⟩ := spells_of_reads hinner trivial
    exact .inl ⟨_ :: q, _, .rightParen, rfl, .close hk hq, .unexpected ⟨Nat.lt_one_iff.mp hf, hclose⟩⟩
  | @sign b b' token ts result rest hs hb _ ih =>
    cases result with
    | ok => cases hr
    | error =>
      cases hr
      refine (ih rfl).imp ?_ (And.imp_right (Budget.spend_ne_unlimited hb))
      rintro ⟨q, ahead, missing, rfl, hq, href⟩
      exact ⟨token :: q, ahead, missing, rfl, .sign hs hq, href⟩
  | missingValue hn hv =>
    cases hr
    exact .inl ⟨[], _, .number, rfl, .primary, .missingValue hn hv⟩
  | noPrimary hn =>
    cases hr
    exact .inl ⟨[], _, .number, rfl, .primary, .unexpected hn⟩
  | moreEnd | base | paren | number => cases hr

/-- A reading that fails for a missing token stops there, and the token ahead is found instead. -/
theorem stops_of_reads (h : Reads b phrase ts (.error (.unexpected missing found)) rest) :
    ∃ q, ts = q ++ rest ∧ Stops phrase q missing ∧ found = lookahead rest ∧
      Blocks missing (lookahead rest).kind := by
  rcases stops_or_tooDeep_of_reads h with ⟨q, ahead, _, hq, hs, ⟨hb⟩⟩ | ⟨hdeep, -⟩
  · exact ⟨q, hq, hs, rfl, hb⟩
  · cases hdeep

/-- A primary that stops is the beginning of a sum. -/
theorem Stops.sum_of_primary (h : Stops .primary q missing) : Stops (.chain .sum) q missing := by
  have hproduct : Stops (.chain .product) q missing :=
    .operand (show Stops (operandOf .product) q missing from .base h)
  exact .operand (show Stops (operandOf .sum) q missing from hproduct)

/-- A number or a closing parenthesis is what can be missing. -/
theorem missing_of_stops (h : Stops phrase q missing) : missing = .number ∨ missing = .rightParen := by
  induction h with
  | close => exact .inr rfl
  | primary => exact .inl rfl
  | _ => assumption

/-! ## Where it stops a reading fails -/

/-- What goes on a chain and stops begins with an operator of the chain. -/
theorem lookahead_of_stops_more {level : Level} {left : Expr} (h : Stops (.more level left) q missing)
    (rest : List Token) : (lookahead (q ++ rest)).kind.tightness = level.tightness := by
  cases h with
  | link hj _ => exact Level.joins_iff.mp hj
  | more hj _ _ => exact Level.joins_iff.mp hj

/-- Where a phrase stops its reading fails on every token that cannot be next. -/
theorem reads_of_stops (h : Stops phrase q missing) (hb : Blocks missing (lookahead rest).kind) :
    Reads .unlimited phrase (q ++ rest) (.error (.unexpected missing (lookahead rest))) rest := by
  induction h with
  | operand _ ih => exact .chainFault (ih hb)
  | @links level p q left kind hp hq ih =>
    have hahead := lookahead_of_stops_more hq rest
    rw [List.append_assoc]
    exact .chain (reads_of_spells hp (by rw [tightness_operandOf, hahead]; exact Nat.lt_succ_self _))
      (ih hb)
  | link hj _ ih => exact .moreFault hj (ih hb)
  | @more level left operator p q right kind hj hp hq ih =>
    have hahead := lookahead_of_stops_more hq rest
    rw [List.cons_append, List.append_assoc]
    exact .more hj
      (reads_of_spells hp (by rw [tightness_operandOf, hahead]; exact Nat.lt_succ_self _)) (ih hb)
  | base _ ih => exact .powerFault (ih hb)
  | @exponent p q base operator kind hp hk _ ih =>
    have hbase : Reads .unlimited .primary (p ++ operator :: (q ++ rest)) (.ok base)
        (operator :: (q ++ rest)) := reads_of_spells hp (Nat.lt_succ_of_le (Kind.tightness_le _))
    rw [List.append_assoc]
    exact .power hbase hk rfl (ih hb)
  | inner hk _ ih => exact .parenFault hk rfl (ih hb)
  | @close token q inner hk hq =>
    obtain ⟨hloose, hclose⟩ := hb
    exact .parenOpen hk rfl (reads_of_spells hq (Nat.lt_one_iff.mpr hloose)) hclose
  | sign hs _ ih => exact .sign hs rfl (ih hb)
  | primary => exact .noPrimary hb

/-! ## What stops can be completed -/

open Grammar in
/-- What stops can be completed to the phrase, beginning with the kind that is missing. -/
theorem derives_of_stops (h : Stops phrase q missing) :
    ∃ later, Derives (symbolOf phrase) (q.map Token.kind ++ missing :: later) := by
  -- each rule completes what it is made of, and closes the parenthesis that it opened
  induction h with
  | @operand level q kind _ ih =>
    obtain ⟨later, h⟩ := ih
    rw [symbolOf_operandOf] at h
    exact ⟨later, by simpa [symbolOf] using Derives.chain h .noLink⟩
  | @links level p q left kind hp _ ih =>
    obtain ⟨later, h⟩ := ih
    have hp := derives_of_spells hp
    rw [symbolOf_operandOf] at hp
    exact ⟨later, by simpa [symbolOf] using Derives.chain hp h⟩
  | @link level left operator q kind hj _ ih =>
    obtain ⟨later, h⟩ := ih
    rw [symbolOf_operandOf] at h
    exact ⟨later, by simpa [symbolOf] using Derives.link hj h .noLink⟩
  | @more level left operator p q right kind hj hp _ ih =>
    obtain ⟨later, h⟩ := ih
    have hp := derives_of_spells hp
    rw [symbolOf_operandOf] at hp
    exact ⟨later, by simpa [symbolOf] using Derives.link hj hp h⟩
  | base _ ih =>
    obtain ⟨later, h⟩ := ih
    exact ⟨later, .base h⟩
  | @exponent p q base operator kind hp hk _ ih =>
    obtain ⟨later, h⟩ := ih
    exact ⟨later, by simpa [symbolOf, hk] using Derives.power (derives_of_spells hp) h⟩
  | @inner token q kind hk _ ih =>
    obtain ⟨later, h⟩ := ih
    exact ⟨later ++ [.rightParen], by simpa [symbolOf, hk] using Derives.paren h⟩
  | @close token q inner hk hq =>
    exact ⟨[], by simpa [symbolOf, hk] using Derives.paren (derives_of_spells hq)⟩
  | sign hs _ ih =>
    obtain ⟨later, h⟩ := ih
    exact ⟨later, .sign hs h⟩
  | primary => exact ⟨[], .number⟩

open Grammar in
/-- Neither the end of input nor a stray token is part of what stops. -/
theorem kind_of_stops (h : Stops phrase q missing) :
    ∀ t ∈ q, t.kind ≠ .endOfInput ∧ t.kind ≠ .invalid := by
  obtain ⟨later, hlater⟩ := derives_of_stops h
  exact fun t ht => kind_of_derives hlater _ (List.mem_append_left _ (List.mem_map_of_mem ht))

/-! ## The fault of an expression -/

theorem rest_read (strict : Bool) (b : Budget) (ts : List Token) :
    (read strict b ts).rest = (sum b ts).rest := by
  unfold read
  split
  · next heq => rw [heq]
  · next heq =>
    rw [heq]
    split <;> rfl

/-- The fault of a sum is that of the expression. -/
theorem read_of_sum_eq_error {fault : Fault} (strict : Bool) (h : (sum b ts).result = .error fault) :
    (read strict b ts).result = .error fault := by
  unfold read
  split
  · next heq =>
    rw [heq] at h
    exact h
  · next heq =>
    rw [heq] at h
    cases h

/-- A sum is the expression, unless something follows it that may not. -/
theorem read_of_sum_eq_ok {e : Expr} (strict : Bool) (h : (sum b ts).result = .ok e) :
    (read strict b ts).result =
      if strict && (lookahead (sum b ts).rest).kind != .endOfInput then
        .error (.unexpected .endOfInput (lookahead (sum b ts).rest))
      else .ok e := by
  unfold read
  split
  · next heq =>
    rw [heq] at h
    cases h
  · next heq =>
    rw [heq] at h ⊢
    cases h
    split <;> rfl

/-- An expression for which a token is missing stops in its sum, or the sum is followed by what may not
follow. -/
theorem of_read_eq_unexpected {strict : Bool}
    (h : (read strict b ts).result = .error (.unexpected missing found)) :
    (sum b ts).result = .error (.unexpected missing found) ∨
      strict = true ∧ missing = .endOfInput ∧ (∃ e, (sum b ts).result = .ok e) ∧
        found = lookahead (sum b ts).rest ∧ found.kind ≠ .endOfInput := by
  unfold read at h
  split at h
  · next heq =>
    rw [heq]
    exact .inl h
  · next e rest _ heq =>
    rw [heq]
    split at h
    · next hs =>
      cases h
      rw [Bool.and_eq_true, bne_iff_ne] at hs
      exact .inr ⟨hs.1, rfl, ⟨e, rfl⟩, rfl, hs.2⟩
    · cases h

end Reader

namespace Grammar

open Reader Token

variable {phrase : Phrase} {ts q rest : List Token} {missing : Kind} {found : Token}

/-! ## Values -/

/-- Tokens of the kinds of `ts`, every numeral among them with a value. -/
def valued (ts : List Token) : List Token := ts.map fun t => ⟨t.kind, "", some 0⟩

theorem hasValues_valued (ts : List Token) : HasValues (valued ts) := by
  intro t ht _
  obtain ⟨_, -, rfl⟩ := List.mem_map.mp ht
  exact Option.some_ne_none 0

/-- Whether tokens are a sentence rests on their kinds only. -/
theorem isSentence_append_valued_iff {p : List Token} :
    IsSentence (p ++ valued ts) ↔ IsSentence (p ++ ts) := by
  have hkinds : (valued ts).map Token.kind = ts.map Token.kind := by simp [valued]
  unfold IsSentence
  rw [List.map_append, List.map_append, hkinds]

/-- Of tokens whose numerals have values in front of the end of input, those in front of it have, and the
next one unless it is the end. -/
theorem hasValues_of_beforeEnd (hv : HasValues (beforeEnd (q ++ rest)))
    (hq : Kind.endOfInput ∉ q.map Token.kind) :
    HasValues q ∧ ((lookahead rest).kind ≠ .endOfInput → HasValues [lookahead rest]) := by
  have hpos : ∀ t ∈ q, (t.kind != .endOfInput) = true := fun t ht =>
    bne_iff_ne.mpr fun hk => hq (hk ▸ List.mem_map_of_mem ht)
  have hsplit : beforeEnd (q ++ rest) = q ++ beforeEnd rest := List.takeWhile_append_of_pos hpos
  rw [hsplit, hasValues_append] at hv
  refine ⟨hv.1, fun hend => ?_⟩
  cases rest with
  | nil => exact absurd rfl hend
  | cons t rest =>
    have hcons : beforeEnd (t :: rest) = [t] ++ beforeEnd rest :=
      List.takeWhile_cons_of_pos (bne_iff_ne.mpr hend)
    rw [hcons, hasValues_append] at hv
    exact hv.2.1

/-! ## What no sentence begins with -/

/-- A sentence is read up to its end. -/
theorem sum_of_isSentence (h : IsSentence ts) (hv : HasValues ts) :
    (∃ e, (sum .unlimited ts).result = .ok e) ∧ (sum .unlimited ts).rest = [] := by
  obtain ⟨e, hs⟩ := (isSentence_iff hv).mp h
  obtain ⟨he, hrest⟩ := sum_ok_iff.mpr ⟨ts, (List.append_nil ts).symm, hs, rfl⟩
  exact ⟨⟨e, he⟩, hrest⟩

/-- No sentence begins where a reading stops and goes on with what cannot be next. -/
theorem not_isSentence_of_stops (h : Stops (.chain .sum) q missing) (hv : HasValues (q ++ rest))
    (hb : Blocks missing (lookahead rest).kind) : ¬IsSentence (q ++ rest) := by
  intro hs
  obtain ⟨⟨e, he⟩, -⟩ := sum_of_isSentence hs hv
  rw [(sum_eq_of_reads (reads_of_stops h hb)).1] at he
  cases he

/-- No sentence begins with a sum and goes on with something that is no operator. -/
theorem not_isSentence_of_spells {e : Expr} (h : Spells (.chain .sum) q e) (hv : HasValues (q ++ rest))
    (ht : (lookahead rest).kind.tightness = 0) (hne : rest ≠ []) : ¬IsSentence (q ++ rest) := by
  intro hs
  obtain ⟨-, hend⟩ := sum_of_isSentence hs hv
  obtain ⟨-, hrest⟩ := sum_ok_iff.mpr ⟨q, rfl, h, ht⟩
  exact hne (hrest.symm.trans hend)

/-- The end of input cannot be next where a reading stops. -/
theorem blocks_endOfInput (h : Stops phrase q missing) : Blocks missing .endOfInput := by
  rcases missing_of_stops h with rfl | rfl
  · rfl
  · exact ⟨rfl, nofun⟩

/-! ## Faults are early -/

/-- The token that is found where a sum stops: what is in front of it is no sentence, but goes on to one
with what is missing, and to none with what was found. -/
theorem earliest_of_stops (h : Stops (.chain .sum) q missing)
    (hv : HasValues (beforeEnd (q ++ rest))) (hb : Blocks missing (lookahead rest).kind) :
    ¬IsSentence q ∧ (∀ t : Token, t.kind = missing → ∃ r, IsSentence (q ++ t :: r)) ∧
      ((lookahead rest).kind ≠ .endOfInput → ∀ r, ¬IsSentence (q ++ lookahead rest :: r)) := by
  obtain ⟨later, hlater⟩ := derives_of_stops h
  have hq : Kind.endOfInput ∉ q.map Token.kind := fun hm =>
    endOfInput_notMem hlater (List.mem_append_left _ hm)
  obtain ⟨hvq, hvfound⟩ := hasValues_of_beforeEnd hv hq
  refine ⟨?_, fun t ht => ?_, fun hend r => ?_⟩
  · have hnot : ¬IsSentence (q ++ []) :=
      not_isSentence_of_stops h (by rwa [List.append_nil]) (blocks_endOfInput h)
    rwa [List.append_nil] at hnot
  · refine ⟨later.map fun kind => ⟨kind, "", none⟩, ?_⟩
    have hkinds : (later.map fun kind => (⟨kind, "", none⟩ : Token)).map Token.kind = later := by
      simp [Function.comp_def]
    unfold IsSentence
    rw [List.map_append, List.map_cons, hkinds, ht]
    exact hlater
  · have hvall : HasValues (q ++ ([lookahead rest] ++ valued r)) :=
      hasValues_append.mpr ⟨hvq, hasValues_append.mpr ⟨hvfound hend, hasValues_valued r⟩⟩
    have hnot := not_isSentence_of_stops h hvall hb
    rwa [← List.append_assoc, isSentence_append_valued_iff, List.append_assoc] at hnot

/-- A token behind a sum that may not follow it: what is in front is a sentence, and goes on to none with
what was found. -/
theorem earliest_of_spells {e : Expr} (h : Spells (.chain .sum) q e)
    (hv : HasValues (beforeEnd (q ++ rest))) (ht : (lookahead rest).kind.tightness = 0) :
    IsSentence q ∧
      ((lookahead rest).kind ≠ .endOfInput → ∀ r, ¬IsSentence (q ++ lookahead rest :: r)) := by
  have hs : IsSentence q := derives_of_spells h
  obtain ⟨hvq, hvfound⟩ := hasValues_of_beforeEnd hv (endOfInput_notMem hs)
  refine ⟨hs, fun hend r => ?_⟩
  have hvall : HasValues (q ++ ([lookahead rest] ++ valued r)) :=
    hasValues_append.mpr ⟨hvq, hasValues_append.mpr ⟨hvfound hend, hasValues_valued r⟩⟩
  have hnot := not_isSentence_of_spells h hvall ht (List.cons_ne_nil _ _)
  rwa [← List.append_assoc, isSentence_append_valued_iff, List.append_assoc] at hnot

/-- The fault of a reading is at the first token with which no sentence goes on. The tokens taken in front
of it are a sentence if the end of input was missing; otherwise they are none, but begin one that goes on
with the kind that was missing. -/
theorem read_reports_earliest_token (strict : Bool) (ts : List Token) (hv : HasValues (beforeEnd ts))
    {missing : Kind} {found : Token}
    (h : (read strict .unlimited ts).result = .error (.unexpected missing found)) :
    let q := (read strict .unlimited ts).taken
    found = lookahead (read strict .unlimited ts).rest ∧
      (missing = .number ∨ missing = .rightParen ∨ strict = true ∧ missing = .endOfInput) ∧
      (missing = .endOfInput → IsSentence q) ∧
      (missing ≠ .endOfInput →
        ¬IsSentence q ∧ ∀ t : Token, t.kind = missing → ∃ r, IsSentence (q ++ t :: r)) ∧
      (found.kind ≠ .endOfInput → ∀ r, ¬IsSentence (q ++ found :: r)) := by
  intro q
  rcases of_read_eq_unexpected h with hsum | ⟨hstrict, rfl, ⟨e, he⟩, rfl, hend⟩
  · have hreads := reads_sum .unlimited ts
    rw [hsum, ← rest_read strict] at hreads
    obtain ⟨p, hp, hstops, rfl, hb⟩ := stops_of_reads hreads
    obtain rfl : q = p := Reading.taken_eq _ hp
    obtain ⟨hnot, hviable, hearly⟩ := earliest_of_stops hstops (hp ▸ hv) hb
    have hmissing := missing_of_stops hstops
    have hne : missing ≠ .endOfInput := by rcases hmissing with rfl | rfl <;> decide
    exact ⟨rfl, hmissing.imp_right .inl, fun heq => absurd heq hne, fun _ => ⟨hnot, hviable⟩, hearly⟩
  · obtain ⟨p, hp, hspells, ht⟩ := sum_ok_iff.mp ⟨he, (rest_read strict .unlimited ts).symm⟩
    rw [← rest_read strict]
    obtain rfl : q = p := Reading.taken_eq _ hp
    obtain ⟨hs, hearly⟩ := earliest_of_spells hspells (hp ▸ hv) ht
    exact ⟨rfl, .inr (.inr ⟨hstrict, rfl⟩), fun _ => hs, fun hne => absurd rfl hne, hearly⟩

/-- Of `( 1 + * 2` the first three tokens are taken, a number is missing, and a star was found. -/
theorem read_reports_earliest_token_star :
    let star : Token := ⟨.star, "*", none⟩
    let q : List Token := [⟨.leftParen, "(", none⟩, ⟨.number, "1", some 1⟩, ⟨.plus, "+", none⟩]
    let ts := q ++ [star, ⟨.number, "2", some 2⟩]
    HasValues (beforeEnd ts) ∧
      (read true .unlimited ts).result = .error (.unexpected .number star) ∧
      (read true .unlimited ts).taken = q ∧ (∃ r, IsSentence (q ++ ⟨.number, "2", some 2⟩ :: r)) ∧
      ∀ r, ¬IsSentence (q ++ star :: r) := by
  intro star q ts
  have hv : HasValues (beforeEnd ts) := by
    intro t ht hk
    simp [ts, q, star, beforeEnd] at ht
    rcases ht with rfl | rfl | rfl | rfl | rfl <;> simp at hk ⊢
  have hone : Spells (.chain .product) [⟨.number, "1", some 1⟩] (.number 1) :=
    .chain (show Spells (operandOf .product) _ _ from .base (.number rfl rfl)) .nothing
  have hnone : Stops (.chain .product) [] .number := .operand (show Stops (operandOf .product) _ _ from
    .base .primary)
  have hinner : Stops (.chain .sum) [⟨.number, "1", some 1⟩, ⟨.plus, "+", none⟩] .number :=
    .links (show Spells (operandOf .sum) _ _ from hone)
      (.link (show Level.sum.joins .plus = true from rfl) (show Stops (operandOf .sum) _ _ from hnone))
  have hproduct : Stops (.chain .product) q .number := .operand (show Stops (operandOf .product) _ _ from
    .base (.inner rfl hinner))
  have hstops : Stops (.chain .sum) q .number := .operand (show Stops (operandOf .sum) _ _ from hproduct)
  have hblocks : Blocks .number (lookahead [star, ⟨.number, "2", some 2⟩]).kind := rfl
  obtain ⟨hsum, hrest⟩ := sum_eq_of_reads (reads_of_stops hstops hblocks)
  have hread : (read true .unlimited ts).result = .error (.unexpected .number star) :=
    read_of_sum_eq_error true hsum
  have htaken : (read true .unlimited ts).taken = q := by
    refine Reading.taken_eq _ ?_
    rw [rest_read, hrest]
  have h := read_reports_earliest_token true ts hv hread
  rw [htaken] at h
  obtain ⟨-, -, -, hviable, hearly⟩ := h
  have hnumber : Kind.number ≠ .endOfInput := by decide
  have hstar : Kind.star ≠ .endOfInput := by decide
  exact ⟨hv, hread, htaken, (hviable hnumber).2 _ rfl, hearly hstar⟩

end Grammar
end Calculator
