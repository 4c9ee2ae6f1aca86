import Calculator.Expr.Reader

/-!
# How a reading goes

What the readers of phrases do is a relation between the budget, the phrase, the tokens, the outcome and
the tokens that are left, with one rule for each way in which a reading can go on or end. Statements about
readings are shown by induction on it, and the proofs that the tokens left end the tokens given, which the
readers carry, have no part in them.

**Results.**
* `reads_sum`: a sum is read by the rules.
* `sum_eq_of_reads`: what the rules give is what reading a sum gives.
-/
namespace Calculator.Reader

/-- What can be read: a chain, what goes on the chain `left`, a power, or a primary. -/
inductive Phrase where
  | chain (level : Level)
  | more (level : Level) (left : Expr)
  | power
  | primary

/-- The operands of a chain. -/
def operandOf : Level → Phrase
  | .sum => .chain .product
  | .product => .power

/-- Whether a primary can begin with the kind. -/
def beginsPrimary (kind : Token.Kind) : Bool :=
  kind == .leftParen || kind.isAdditive || kind == .number

/-- Reading a phrase from tokens, with its outcome and the tokens that are left. -/
inductive Reads : Budget → Phrase → List Token → Except Fault Expr → List Token → Prop where
  | chainFault {b level ts fault rest} : Reads b (operandOf level) ts (.error fault) rest →
      Reads b (.chain level) ts (.error fault) rest
  | chain {b level ts left mid result rest} : Reads b (operandOf level) ts (.ok left) mid →
      Reads b (.more level left) mid result rest → Reads b (.chain level) ts result rest
  | moreEnd {b level left ts} : level.joins (lookahead ts).kind = false →
      Reads b (.more level left) ts (.ok left) ts
  | moreFault {b level left operator ts fault rest} : level.joins operator.kind = true →
      Reads b (operandOf level) ts (.error fault) rest →
      Reads b (.more level left) (operator :: ts) (.error fault) rest
  | more {b level left operator ts right mid result rest} : level.joins operator.kind = true →
      Reads b (operandOf level) ts (.ok right) mid →
      Reads b (.more level (.binary left operator right)) mid result rest →
      Reads b (.more level left) (operator :: ts) result rest
  | powerFault {b ts fault rest} : Reads b .primary ts (.error fault) rest →
      Reads b .power ts (.error fault) rest
  | base {b ts base rest} : Reads b .primary ts (.ok base) rest → (lookahead rest).kind ≠ .caret →
      Reads b .power ts (.ok base) rest
  | powerDeep {b ts base operator rest fault} : Reads b .primary ts (.ok base) (operator :: rest) →
      operator.kind = .caret → b.spend Budget.levelCost = .error fault →
      Reads b .power ts (.error fault) rest
  | power {b b' ts base operator mid result rest} : Reads b .primary ts (.ok base) (operator :: mid) →
      operator.kind = .caret → b.spend Budget.levelCost = .ok b' → Reads b' .power mid result rest →
      Reads b .power ts (result.map (.binary base operator)) rest
  | parenDeep {b token ts fault} : token.kind = .leftParen →
      b.spend Budget.parenthesisCost = .error fault → Reads b .primary (token :: ts) (.error fault) ts
  | parenFault {b b' token ts fault rest} : token.kind = .leftParen →
      b.spend Budget.parenthesisCost = .ok b' → Reads b' (.chain .sum) ts (.error fault) rest →
      Reads b .primary (token :: ts) (.error fault) rest
  | parenOpen {b b' token ts inner rest} : token.kind = .leftParen →
      b.spend Budget.parenthesisCost = .ok b' → Reads b' (.chain .sum) ts (.ok inner) rest →
      (lookahead rest).kind ≠ .rightParen →
      Reads b .primary (token :: ts) (.error (.unexpected .rightParen (lookahead rest))) rest
  | paren {b b' token ts inner close rest} : token.kind = .leftParen →
      b.spend Budget.parenthesisCost = .ok b' → Reads b' (.chain .sum) ts (.ok inner) (close :: rest) →
      close.kind = .rightParen → Reads b .primary (token :: ts) (.ok (.paren inner)) rest
  | signDeep {b token ts fault} : token.kind.isAdditive = true →
      b.spend Budget.levelCost = .error fault → Reads b .primary (token :: ts) (.error fault) ts
  | sign {b b' token ts result rest} : token.kind.isAdditive = true →
      b.spend Budget.levelCost = .ok b' → Reads b' .primary ts result rest →
      Reads b .primary (token :: ts) (result.map (.unary token)) rest
  | missingValue {b token ts} : token.kind = .number → token.value = none →
      Reads b .primary (token :: ts) (.error (.missingValue token)) ts
  | number {b token ts value} : token.kind = .number → token.value = some value →
      Reads b .primary (token :: ts) (.ok (.number value)) ts
  | noPrimary {b ts} : beginsPrimary (lookahead ts).kind = false →
      Reads b .primary ts (.error (.unexpected .number (lookahead ts))) ts

/-! ## Reading goes by the rules -/

/-- Behind an inner sum, the closing parenthesis or the fault that there is none. -/
theorem reads_close {b b' : Budget} {token : Token} {ts rest : List Token} {inner : Expr}
    (hk : token.kind = .leftParen) (hb : b.spend Budget.parenthesisCost = .ok b')
    (h : Reads b' (.chain .sum) ts (.ok inner) rest) :
    Reads b .primary (token :: ts) ((expect .rightParen rest).result.map fun _ => .paren inner)
      (expect .rightParen rest).rest := by
  cases rest with
  | nil => exact .parenOpen hk hb h (by decide)
  | cons close rest =>
    by_cases hc : close.kind = .rightParen
    · simp only [expect, hc, if_true]
      exact .paren hk hb h hc
    · simp only [expect, hc, if_false]
      exact .parenOpen hk hb h hc

mutual

theorem reads_chain (level : Level) (b : Budget) (ts : List Token) :
    Reads b (.chain level) ts (chain level b ts).result (chain level b ts).rest := by
  have ih := reads_operand level b ts
  rw [chain]
  split
  · next fault rest h heq =>
    rw [heq] at ih
    exact .chainFault ih
  · next left rest h heq =>
    rw [heq] at ih
    exact .chain ih (reads_more level b left rest h)
termination_by (ts.length, looseness level + 1)
decreasing_by
  · exact Prod.Lex.right _ (Nat.lt_succ_self _)
  · exact lex_of_le (List.IsSuffix.length_le ‹_›) (Nat.succ_pos _)

theorem reads_more (level : Level) (b : Budget) (left : Expr) {all : List Token} (ts : List Token)
    (h : ts <:+ all) :
    Reads b (.more level left) ts (more level b left ts h).result (more level b left ts h).rest := by
  match ts with
  | [] =>
    rw [more]
    exact .moreEnd (by cases level <;> decide)
  | operator :: ts =>
    have ih := reads_operand level b ts
    rw [more]
    split
    · next hj =>
      split
      · next fault rest hr heq =>
        rw [heq] at ih
        exact .moreFault hj ih
      · next right rest hr heq =>
        rw [heq] at ih
        exact .more hj ih (reads_more level b _ rest _)
    · next hj => exact .moreEnd (Bool.eq_false_iff.mpr hj)
termination_by (ts.length, 0)
decreasing_by
  · exact Prod.Lex.left _ _ (Nat.lt_succ_self _)
  · exact Prod.Lex.left _ _ (Nat.lt_succ_of_le (List.IsSuffix.length_le ‹_›))

theorem reads_operand (level : Level) (b : Budget) (ts : List Token) :
    Reads b (operandOf level) ts (operand level b ts).result (operand level b ts).rest := by
  match level with
  | .sum =>
    rw [operand]
    exact reads_chain .product b ts
  | .product =>
    rw [operand]
    exact reads_power b ts
termination_by (ts.length, looseness level)
decreasing_by
  · exact Prod.Lex.right _ (by decide)
  · exact Prod.Lex.right _ (by decide)

theorem reads_power (b : Budget) (ts : List Token) :
    Reads b .power ts (power b ts).result (power b ts).rest := by
  have ih := reads_primary b ts
  rw [power]
  split
  · next fault rest h heq =>
    rw [heq] at ih
    exact .powerFault ih
  · next base h heq =>
    rw [heq] at ih
    exact .base ih (fun hk => nomatch hk)
  · next base operator rest h heq =>
    rw [heq] at ih
    split
    · next hk =>
      split
      · next fault hb => exact .powerDeep ih hk hb
      · next b' hb => exact .power ih hk hb (reads_power b' rest)
    · next hk => exact .base ih hk
termination_by (ts.length, 1)
decreasing_by
  · exact Prod.Lex.right _ (by decide)
  · have hle := List.IsSuffix.length_le ‹_ :: _ <:+ _›
    exact Prod.Lex.left _ _ (Nat.lt_of_succ_le hle)

theorem reads_primary (b : Budget) (ts : List Token) :
    Reads b .primary ts (primary b ts).result (primary b ts).rest := by
  match ts with
  | [] =>
    rw [primary]
    exact .noPrimary rfl
  | token :: ts =>
    rw [primary]
    split
    · next hk =>
      split
      · next fault hb => exact .parenDeep hk hb
      · next b' hb =>
        have ih := reads_chain .sum b' ts
        split
        · next fault rest h heq =>
          rw [heq] at ih
          exact .parenFault hk hb ih
        · next inner rest h heq =>
          rw [heq] at ih
          exact reads_close hk hb ih
    · next hk =>
      split
      · next hs =>
        split
        · next fault hb => exact .signDeep hs hb
        · next b' hb => exact .sign hs hb (reads_primary b' ts)
      · next hs =>
        split
        · next hn =>
          split
          · next hv => exact .missingValue hn hv
          · next value hv => exact .number hn hv
        · next hn => exact .noPrimary (by simp [beginsPrimary, lookahead, hk, hs, hn])
termination_by (ts.length, 0)
decreasing_by
  all_goals exact Prod.Lex.left _ _ (Nat.lt_succ_self _)

end

/-! ## The rules leave no choice -/

/-- The reader of the phrase gives the outcome and leaves the tokens. -/
def Gives (b : Budget) (phrase : Phrase) (ts : List Token) (result : Except Fault Expr)
    (rest : List Token) : Prop :=
  match phrase with
  | .chain level => ∃ h, chain level b ts = ⟨result, rest, h⟩
  | .more level left =>
    ∀ {all : List Token} (h : ts <:+ all), ∃ h', more level b left ts h = ⟨result, rest, h'⟩
  | .power => ∃ h, power b ts = ⟨result, rest, h⟩
  | .primary => ∃ h, primary b ts = ⟨result, rest, h⟩

theorem exists_operand_eq {b : Budget} {level : Level} {ts : List Token} {result : Except Fault Expr}
    {rest : List Token} (h : Gives b (operandOf level) ts result rest) :
    ∃ h, operand level b ts = ⟨result, rest, h⟩ := by
  cases level <;> rw [operand] <;> exact h

/-- The kinds with which primaries begin exclude each other. -/
theorem not_leftParen_of_isAdditive {kind : Token.Kind} (h : kind.isAdditive = true) :
    kind ≠ .leftParen := by
  rintro rfl
  cases h

/-- What the rules give is what the reader of the phrase gives. -/
theorem gives_of_reads {b : Budget} {phrase : Phrase} {ts : List Token} {result : Except Fault Expr}
    {rest : List Token} (h : Reads b phrase ts result rest) : Gives b phrase ts result rest := by
  induction h with
  | chainFault _ ih =>
    obtain ⟨h, heq⟩ := exists_operand_eq ih
    simp only [Gives]
    rw [chain, heq]
    exact ⟨h, rfl⟩
  | chain _ _ ih ihm =>
    obtain ⟨h, heq⟩ := exists_operand_eq ih
    simp only [Gives]
    rw [chain, heq]
    exact ihm h
  | @moreEnd b level left ts hj =>
    intro all h
    match ts with
    | [] =>
      rw [more]
      exact ⟨h, rfl⟩
    | operator :: ts =>
      have hj : ¬level.joins operator.kind = true := Bool.eq_false_iff.mp hj
      rw [more, if_neg hj]
      exact ⟨h, rfl⟩
  | moreFault hj _ ih =>
    intro all h
    obtain ⟨hs, heq⟩ := exists_operand_eq ih
    rw [more, if_pos hj, heq]
    exact ⟨_, rfl⟩
  | more hj _ _ ih ihm =>
    intro all h
    obtain ⟨hs, heq⟩ := exists_operand_eq ih
    rw [more, if_pos hj, heq]
    exact ihm _
  | powerFault _ ih =>
    obtain ⟨h, heq⟩ := ih
    simp only [Gives]
    rw [power, heq]
    exact ⟨h, rfl⟩
  | @base b ts base rest _ hk ih =>
    obtain ⟨h, heq⟩ := ih
    simp only [Gives]
    rw [power, heq]
    match rest with
    | [] => exact ⟨h, rfl⟩
    | operator :: rest => exact ⟨h, if_neg hk⟩
  | powerDeep _ hk hb ih =>
    obtain ⟨h, heq⟩ := ih
    simp only [Gives]
    rw [power, heq]
    dsimp only
    rw [if_pos hk, hb]
    exact ⟨_, rfl⟩
  | power _ hk hb _ ih ihp =>
    obtain ⟨h, heq⟩ := ih
    obtain ⟨hp, heqp⟩ := ihp
    simp only [Gives]
    rw [power, heq]
    dsimp only
    rw [if_pos hk, hb]
    dsimp only
    rw [heqp]
    exact ⟨_, rfl⟩
  | parenDeep hk hb =>
    simp only [Gives]
    rw [primary, if_pos hk, hb]
    exact ⟨_, rfl⟩
  | parenFault hk hb _ ih =>
    obtain ⟨h, heq⟩ := ih
    simp only [Gives]
    rw [primary, if_pos hk, hb]
    dsimp only
    rw [heq]
    exact ⟨_, rfl⟩
  | @parenOpen b b' token ts inner rest hk hb _ hc ih =>
    obtain ⟨h, heq⟩ := ih
    simp only [Gives]
    rw [primary, if_pos hk, hb]
    dsimp only
    rw [heq]
    match rest with
    | [] => exact ⟨_, rfl⟩
    | close :: rest =>
      have hc : close.kind ≠ .rightParen := hc
      dsimp only [expect]
      rw [if_neg hc]
      exact ⟨_, rfl⟩
  | paren hk hb _ hc ih =>
    obtain ⟨h, heq⟩ := ih
    simp only [Gives]
    rw [primary, if_pos hk, hb]
    dsimp only
    rw [heq]
    dsimp only [expect]
    rw [if_pos hc]
    exact ⟨_, rfl⟩
  | signDeep hs hb =>
    simp only [Gives]
    rw [primary, if_neg (not_leftParen_of_isAdditive hs), if_pos hs, hb]
    exact ⟨_, rfl⟩
  | sign hs hb _ ih =>
    obtain ⟨h, heq⟩ := ih
    simp only [Gives]
    rw [primary, if_neg (not_leftParen_of_isAdditive hs), if_pos hs, hb]
    dsimp only
    rw [heq]
    exact ⟨_, rfl⟩
  | missingValue hn hv =>
    simp only [Gives]
    rw [primary, hn, hv]
    exact ⟨_, rfl⟩
  | number hn hv =>
    simp only [Gives]
    rw [primary, hn, hv]
    exact ⟨_, rfl⟩
  | @noPrimary b ts hn =>
    simp only [Gives]
    match ts with
    | [] =>
      rw [primary]
      exact ⟨_, rfl⟩
    | token :: ts =>
      obtain ⟨⟨hk, hs⟩, hm⟩ : (token.kind ≠ .leftParen ∧ token.kind.isAdditive = false) ∧
          token.kind ≠ .number := by simpa [beginsPrimary, lookahead] using hn
      rw [primary, if_neg hk, if_neg (Bool.eq_false_iff.mp hs), if_neg hm]
      exact ⟨_, rfl⟩

/-- A sum is read by the rules. -/
theorem reads_sum (b : Budget) (ts : List Token) :
    Reads b (.chain .sum) ts (sum b ts).result (sum b ts).rest := reads_chain .sum b ts

/-- What the rules give is what reading a sum gives. -/
theorem sum_eq_of_reads {b : Budget} {ts rest : List Token} {result : Except Fault Expr}
    (h : Reads b (.chain .sum) ts result rest) : (sum b ts).result = result ∧ (sum b ts).rest = rest := by
  obtain ⟨_, heq⟩ := gives_of_reads h
  rw [sum, heq]
  exact ⟨rfl, rfl⟩

end Calculator.Reader
