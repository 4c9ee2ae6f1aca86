import Calculator.Proofs.Faults
import Calculator.Proofs.Texts
import Mathlib.Logic.Function.Iterate

/-!
# What a chain of operators means

A chain is a text of operands with operators between them. An operand is signs and separators and a text in
parentheses, which may be left out around a numeral. What a chain means is said without its tree, by the
values of its operands: each is negated once for every minus among its signs, and then the runs of carets
are worked out from the right, the runs of stars and slashes from the left, and what is left from the left.

**Results.**
* `strung_powers`, `strung_joinLeft`: working out a run of operands makes one operand of the next phrase.
* `evaluate_chain`: the text of a chain has the value that the chain means.
-/
namespace Calculator.Chain

open Reader Token

/-! ## What a chain means -/

inductive Operator where
  | plus
  | minus
  | times
  | divide
  | power
  deriving DecidableEq, Repr

namespace Operator

/-- The character of an operator. -/
def symbol : Operator → Char
  | plus => '+'
  | minus => '-'
  | times => '*'
  | divide => '/'
  | power => '^'

/-- What an operator makes of two numbers. -/
def apply : Operator → Float → Float → Except Double.Refusal Float
  | plus, x, y => .ok (x + y)
  | minus, x, y => .ok (x - y)
  | times, x, y => .ok (x * y)
  | divide, x, y => Double.divide x y
  | power, x, y => Double.power x y

/-- What an operator makes of two values. -/
def join (o : Operator) (x y : Except Double.Refusal Float) : Except Double.Refusal Float := do
  let x ← x
  let y ← y
  o.apply x y

end Operator

section Runs

variable {α : Type} (joins : Operator → Bool) (f : Operator → α → α → α)

/-- Works out every longest run of operands between operators that join, from the left. -/
def joinLeft (x : α) : List (Operator × α) → α × List (Operator × α)
  | [] => (x, [])
  | (o, y) :: links =>
    if joins o then joinLeft (f o x y) links
    else
      let later := joinLeft y links
      (x, (o, later.1) :: later.2)

/-- Works out every longest run of operands between operators that join, from the right. -/
def joinRight (x : α) : List (Operator × α) → α × List (Operator × α)
  | [] => (x, [])
  | (o, y) :: links =>
    let later := joinRight y links
    if joins o then (f o x later.1, later.2) else (x, (o, later.1) :: later.2)

end Runs

/-- A value, and further ones with their operators in front. -/
abbrev Values := Except Double.Refusal Float × List (Operator × Except Double.Refusal Float)

/-- Runs of carets are worked out from the right. -/
def powers (c : Values) : Values := joinRight (fun o => o == .power) Operator.join c.1 c.2

/-- Runs of stars and slashes are worked out from the left. -/
def products (c : Values) : Values := joinLeft (fun o => o == .times || o == .divide) Operator.join c.1 c.2

/-- Runs of plus and minus are worked out from the left. -/
def sums (c : Values) : Values := joinLeft (fun o => o == .plus || o == .minus) Operator.join c.1 c.2

/-- What values with operators between them mean. -/
def meaning (c : Values) : Except Double.Refusal Float := (sums (products (powers c))).1

/-! ## The text of a chain -/

/-- A numeral, with separators around it or none. -/
def IsLone (cs : List Char) : Prop := ∃ w l w', cs = w ++ (l ++ w') ∧ IsGap w ∧ IsNumeral l ∧ IsGap w'

/-- An operand: signs and separators, and a text with a value, in parentheses if it is more than a
numeral. -/
structure Operand where
  signs : List Char
  text : String
  enclosed : Bool
  value : Float
  isSign : ∀ c ∈ signs, c = '+' ∨ c = '-' ∨ isSeparator c = true
  hasValue : evaluate true .unlimited text = .ok value
  isLone : enclosed = false → IsLone text.toList

namespace Operand

/-- The characters of an operand. -/
def chars (a : Operand) : List Char :=
  a.signs ++ if a.enclosed then '(' :: (a.text.toList ++ [')']) else a.text.toList

/-- The operand of a numeral, in parentheses or not. -/
def ofNumeral (signs : List Char) (hs : ∀ c ∈ signs, c = '+' ∨ c = '-' ∨ isSeparator c = true)
    (l : List Char) (hl : IsNumeral l) (enclosed : Bool) : Operand where
  signs := signs
  text := String.ofList l
  enclosed := enclosed
  value := Double.ofNumeral l
  isSign := hs
  hasValue := evaluate_numeral hl
  isLone _ := ⟨[], l, [], by simp, isGap_nil, hl, isGap_nil⟩

/-- The value of an operand, negated once for every minus. -/
def signedValue (a : Operand) : Float := (fun x : Float => -x)^[a.signs.count '-'] a.value

end Operand

/-- The text of operands with operators between them. -/
def text (first : Operand) (links : List (Operator × Operand)) : String :=
  String.ofList (first.chars ++ links.flatMap fun link => link.1.symbol :: link.2.chars)

/-! ## Operators as tokens -/

namespace Operator

/-- The token of an operator. -/
def token (o : Operator) : Token := ofSymbol o.symbol

/-- The symbol of an operator is neither a digit nor a point nor a separator. -/
theorem symbol_spec (o : Operator) :
    o.symbol.isDigit = false ∧ o.symbol ≠ '.' ∧ isSeparator o.symbol = false := by
  cases o <;> decide

theorem applyOperator_token (o : Operator) (x y : Float) :
    Expr.applyOperator o.token x y = (o.apply x y).mapError .arithmetic := by
  cases o <;> rfl

end Operator

/-! ## Values of phrases -/

/-- The tokens spell a phrase that has the value. -/
def Worth (phrase : Phrase) (p : List Token) (x : Except Double.Refusal Float) : Prop :=
  ∃ e : Expr, Spells phrase p e ∧ e.value .unlimited = x.mapError .arithmetic

namespace Worth

variable {p q : List Token} {x y : Except Double.Refusal Float} {level : Level} {o : Operator}

theorem of_spells {phrase phrase' : Phrase} (h : Worth phrase p x)
    (hs : ∀ e, Spells phrase p e → Spells phrase' p e) : Worth phrase' p x := by
  obtain ⟨e, he, hx⟩ := h
  exact ⟨e, hs e he, hx⟩

/-- A lone operand is a chain. -/
theorem chain (h : Worth (operandOf level) p x) : Worth (.chain level) p x :=
  h.of_spells fun _ => spells_chain_of_operand

/-- The value of an operator with operands that have values. -/
theorem value_binary {left right : Expr} (hl : left.value .unlimited = x.mapError .arithmetic)
    (hr : right.value .unlimited = y.mapError .arithmetic) :
    (Expr.binary left o.token right).value .unlimited = (o.join x y).mapError .arithmetic := by
  have hvalue : (Expr.binary left o.token right).value .unlimited =
      (left.value .unlimited).bind fun x => (right.value .unlimited).bind fun y =>
        Expr.applyOperator o.token x y := rfl
  rw [hvalue, hl, hr]
  cases x with
  | error => rfl
  | ok x =>
    cases y with
    | error => rfl
    | ok y => exact Operator.applyOperator_token o x y

/-- A chain with one operand more. -/
theorem link (hp : Worth (.chain level) p x) (hj : level.joins o.token.kind = true)
    (hq : Worth (operandOf level) q y) : Worth (.chain level) (p ++ o.token :: q) (o.join x y) := by
  obtain ⟨left, hleft, hx⟩ := hp
  obtain ⟨right, hright, hy⟩ := hq
  exact ⟨_, spells_chain_link hleft hj hright, value_binary hx hy⟩

/-- A power. -/
theorem power (hp : Worth .primary p x) (hq : Worth .power q y) :
    Worth .power (p ++ Operator.power.token :: q) (Operator.power.join x y) := by
  obtain ⟨base, hbase, hx⟩ := hp
  obtain ⟨exponent, hexponent, hy⟩ := hq
  exact ⟨_, .power hbase rfl hexponent, value_binary hx hy⟩

end Worth

/-! ## Runs -/

/-- The tokens are operators with phrases behind them, which have the values. -/
inductive Links (phrase : Phrase) : List Token → List (Operator × Except Double.Refusal Float) → Prop where
  | nil : Links phrase [] []
  | cons {o p q y links} : Worth phrase p y → Links phrase q links →
      Links phrase (o.token :: (p ++ q)) ((o, y) :: links)

/-- The tokens are phrases with operators between them, which have the values. -/
def Strung (phrase : Phrase) (ts : List Token) (c : Values) : Prop :=
  ∃ p q, ts = p ++ q ∧ Worth phrase p c.1 ∧ Links phrase q c.2

variable {ts : List Token} {c : Values}

/-- Working out the runs of carets makes powers of primaries. -/
theorem strung_powers (h : Strung .primary ts c) : Strung .power ts (powers c) := by
  obtain ⟨x, links⟩ := c
  obtain ⟨p, q, rfl, hp, hq⟩ := h
  simp only at hp hq
  unfold powers
  induction hq generalizing p x with
  | nil => exact ⟨p, [], rfl, hp.of_spells fun _ => .base, .nil⟩
  | @cons o py q y links hy _ ih =>
    obtain ⟨p', q', hsplit, hp', hq'⟩ := ih _ _ hy
    unfold joinRight
    rw [hsplit]
    by_cases ho : o = .power
    · subst ho
      exact ⟨p ++ Operator.power.token :: p', q', by simp, hp.power hp', hq'⟩
    · rw [if_neg (by simpa using ho)]
      exact ⟨p, o.token :: (p' ++ q'), rfl, hp.of_spells fun _ => .base, .cons hp' hq'⟩

/-- Working out the runs of the operators of a chain makes chains of operands. -/
theorem strung_joinLeft {level : Level} {joins : Operator → Bool}
    (hjoins : ∀ o : Operator, level.joins o.token.kind = joins o) (h : Strung (operandOf level) ts c) :
    Strung (.chain level) ts (joinLeft joins Operator.join c.1 c.2) := by
  obtain ⟨x, links⟩ := c
  obtain ⟨p, q, rfl, hp, hq⟩ := h
  replace hp : Worth (.chain level) p x := hp.chain
  simp only at hq ⊢
  -- from here on the head is a chain, to which the next operand is added if its operator joins
  induction hq generalizing p x with
  | nil => exact ⟨p, [], rfl, hp, .nil⟩
  | @cons o py q y links hy _ ih =>
    unfold joinLeft
    by_cases ho : joins o = true
    · rw [if_pos ho]
      have hstrung := ih _ _ (hp.link (hjoins o ▸ ho) hy)
      rwa [List.append_assoc, List.cons_append] at hstrung
    · rw [if_neg ho]
      obtain ⟨p', q', hsplit, hp', hq'⟩ := ih _ _ hy.chain
      rw [hsplit]
      exact ⟨p, o.token :: (p' ++ q'), rfl, hp, .cons hp' hq'⟩

theorem strung_products (h : Strung .power ts c) : Strung (.chain .product) ts (products c) := by
  have hjoins : ∀ o : Operator, Level.product.joins o.token.kind = (o == .times || o == .divide) := by
    intro o
    cases o <;> rfl
  exact strung_joinLeft hjoins h

theorem strung_sums (h : Strung (.chain .product) ts c) : Strung (.chain .sum) ts (sums c) := by
  have hjoins : ∀ o : Operator, Level.sum.joins o.token.kind = (o == .plus || o == .minus) := by
    intro o
    cases o <;> rfl
  exact strung_joinLeft hjoins h

section Left

variable {α : Type} {joins : Operator → Bool} {f : Operator → α → α → α} {a : α}
  {pairs : List (Operator × α)} {o : Operator}

/-- The operators that are left over do not join, and were there before. -/
theorem of_mem_joinLeft (h : o ∈ (joinLeft joins f a pairs).2.map Prod.fst) :
    joins o = false ∧ o ∈ pairs.map Prod.fst := by
  fun_induction joinLeft joins f a pairs with
  | case1 => cases h
  | case2 _ o' _ _ _ ih =>
    obtain ⟨hj, hm⟩ := ih h
    exact ⟨hj, List.mem_cons_of_mem _ hm⟩
  | case3 _ o' _ _ ho _ ih =>
    rcases List.mem_cons.mp h with rfl | h
    · exact ⟨Bool.eq_false_iff.mpr ho, List.mem_cons_self⟩
    · obtain ⟨hj, hm⟩ := ih h
      exact ⟨hj, List.mem_cons_of_mem _ hm⟩

theorem of_mem_joinRight (h : o ∈ (joinRight joins f a pairs).2.map Prod.fst) : joins o = false := by
  fun_induction joinRight joins f a pairs with
  | case1 => cases h
  | case2 _ o' _ _ _ _ ih => exact ih h
  | case3 _ o' _ _ _ ho ih =>
    rcases List.mem_cons.mp h with rfl | h
    · exact Bool.eq_false_iff.mpr ho
    · exact ih h

end Left

/-- Every operator belongs to one of the three kinds of runs, so none is left over. -/
theorem leftover_eq_nil (c : Values) : (sums (products (powers c))).2 = [] := by
  have hnone : ∀ o, o ∉ (sums (products (powers c))).2.map Prod.fst := by
    intro o ho
    obtain ⟨hsum, ho⟩ := of_mem_joinLeft ho
    obtain ⟨hproduct, ho⟩ := of_mem_joinLeft ho
    have hpower := of_mem_joinRight ho
    cases o with
    | plus | minus => exact absurd hsum (by decide)
    | times | divide => exact absurd hproduct (by decide)
    | power => exact absurd hpower (by decide)
  exact List.map_eq_nil_iff.mp (List.eq_nil_iff_forall_not_mem.mpr hnone)

/-- Primaries with operators between them are a sum, and its value is what they mean. -/
theorem worth_meaning (h : Strung .primary ts c) : Worth (.chain .sum) ts (meaning c) := by
  obtain ⟨p, q, rfl, hp, hq⟩ := strung_sums (strung_products (strung_powers h))
  rw [leftover_eq_nil] at hq
  cases hq
  rw [List.append_nil]
  exact hp

/-! ## Operands as tokens -/

/-- A sign in front of a primary. -/
theorem Worth.sign {p : List Token} {v w : Float} {t : Token} (hp : Worth .primary p (.ok v))
    (ht : t.kind.isAdditive = true) (hw : Expr.applySign t v = .ok w) :
    Worth .primary (t :: p) (.ok w) := by
  obtain ⟨e, he, hx⟩ := hp
  have hvalue : (Expr.unary t e).value .unlimited = (e.value .unlimited).bind (Expr.applySign t) := rfl
  exact ⟨_, .sign ht he, by rw [hvalue, hx]; exact hw⟩

/-- Signs in front of a primary negate its value once for every minus. -/
theorem exists_worth_signs {signs : List Char}
    (hsigns : ∀ c ∈ signs, c = '+' ∨ c = '-' ∨ isSeparator c = true) {cs : List Char}
    {p q : List Token} {v : Float} (hcs : scan cs = p ++ q) (hp : Worth .primary p (.ok v)) :
    ∃ p', scan (signs ++ cs) = p' ++ q ∧
      Worth .primary p' (.ok ((fun x : Float => -x)^[signs.count '-'] v)) := by
  induction signs with
  | nil => exact ⟨p, hcs, hp⟩
  | cons c signs ih =>
    obtain ⟨p', hscan, hworth⟩ := ih fun d hd => hsigns d (List.mem_cons_of_mem _ hd)
    rcases hsigns c List.mem_cons_self with rfl | rfl | hc
    · refine ⟨ofSymbol '+' :: p', ?_, ?_⟩
      · rw [List.cons_append, scan_symbol rfl rfl, hscan, List.cons_append]
      · rw [List.count_cons_of_ne (by decide)]
        exact hworth.sign rfl rfl
    · refine ⟨ofSymbol '-' :: p', ?_, ?_⟩
      · rw [List.cons_append, scan_symbol rfl rfl, hscan, List.cons_append]
      · rw [List.count_cons_self, Function.iterate_succ_apply']
        exact hworth.sign rfl rfl
    · have hgap : IsGap [c] := fun d hd => List.mem_singleton.mp hd ▸ hc
      have hne : c ≠ '-' := by
        rintro rfl
        cases hc
      refine ⟨p', ?_, ?_⟩
      · rw [← hscan]
        exact scan_gap_append hgap (signs ++ cs)
      · rwa [List.count_cons_of_ne hne]

/-- A text with a value is a primary in parentheses. -/
theorem worth_enclosed {text : String} {v : Float} (h : evaluate true .unlimited text = .ok v) :
    Worth .primary (ofSymbol '(' :: (scan text.toList ++ [ofSymbol ')'])) (.ok v) := by
  obtain ⟨e, he, hv⟩ := evaluate_eq_ok_iff.mp h
  exact ⟨.paren e, .paren rfl he rfl, hv⟩

/-- A lone numeral is a primary without them. -/
theorem worth_lone {text : String} {v : Float} (h : evaluate true .unlimited text = .ok v)
    (hlone : IsLone text.toList) : Worth .primary (scan text.toList) (.ok v) := by
  obtain ⟨w, l, w', htext, hw, hl, hw'⟩ := hlone
  obtain ⟨e, he, hv⟩ := evaluate_eq_ok_iff.mp h
  have hparse := parse_eq_ok_iff.mpr he
  rw [← String.ofList_toList (s := text), htext, parse_numeral hw hl hw'] at hparse
  cases hparse
  rw [htext, scan_numeral hw hl hw']
  exact ⟨_, spells_numeral l, hv⟩

/-- An operand is a primary, and what follows it is scanned apart. -/
theorem exists_worth_operand (a : Operand) {rest : List Char}
    (hrest : ∀ c ∈ rest.head?, c.isDigit = false ∧ c ≠ '.') :
    ∃ p, scan (a.chars ++ rest) = p ++ scan rest ∧ Worth .primary p (.ok a.signedValue) := by
  unfold Operand.chars Operand.signedValue
  rw [List.append_assoc]
  cases henclosed : a.enclosed with
  | true =>
    refine exists_worth_signs a.isSign ?_ (worth_enclosed a.hasValue)
    have hclose : ∀ c ∈ (')' :: rest).head?, c.isDigit = false ∧ c ≠ '.' := by
      rintro c ⟨⟩
      decide
    rw [if_pos rfl, List.cons_append, scan_symbol rfl rfl, List.append_assoc, List.singleton_append,
      scan_append _ hclose, scan_symbol rfl rfl]
    simp
  | false =>
    refine exists_worth_signs a.isSign ?_ (worth_lone a.hasValue (a.isLone henclosed))
    rw [if_neg (by decide), scan_append _ hrest]

/-- What follows an operand begins with an operator, if it is anything. -/
theorem head_links (links : List (Operator × Operand)) :
    ∀ c ∈ (links.flatMap fun link => link.1.symbol :: link.2.chars).head?,
      c.isDigit = false ∧ c ≠ '.' := by
  cases links with
  | nil => exact nofun
  | cons link links =>
    rintro c ⟨⟩
    obtain ⟨hdigit, hpoint, -⟩ := link.1.symbol_spec
    exact ⟨hdigit, hpoint⟩

/-- Operators with operands behind them are scanned one after the other. -/
theorem links_scan (links : List (Operator × Operand)) :
    Links .primary (scan (links.flatMap fun link => link.1.symbol :: link.2.chars))
      (links.map fun link => (link.1, .ok link.2.signedValue)) := by
  induction links with
  | nil =>
    rw [List.flatMap_nil, scan_nil]
    exact .nil
  | cons link links ih =>
    obtain ⟨o, a⟩ := link
    obtain ⟨hdigit, -, hseparator⟩ := o.symbol_spec
    obtain ⟨p, hscan, hworth⟩ := exists_worth_operand a (head_links links)
    rw [List.flatMap_cons, List.cons_append, scan_symbol hdigit hseparator, hscan]
    exact .cons hworth ih

/-! ## The value of a chain -/

/-- The text of operands with operators between them has a value, and it is what they mean. -/
theorem evaluate_chain (first : Operand) (links : List (Operator × Operand)) :
    ∃ v, meaning (.ok first.signedValue, links.map fun link => (link.1, .ok link.2.signedValue)) = .ok v ∧
      evaluate true .unlimited (text first links) = .ok v := by
  obtain ⟨p, hscan, hworth⟩ := exists_worth_operand first (head_links links)
  have hstrung : Strung .primary (scan (text first links).toList)
      (.ok first.signedValue, links.map fun link => (link.1, .ok link.2.signedValue)) :=
    ⟨p, _, (congrArg scan String.toList_ofList).trans hscan, hworth, links_scan links⟩
  obtain ⟨e, he, hv⟩ := worth_meaning hstrung
  cases hm : meaning (.ok first.signedValue, links.map fun link => (link.1, .ok link.2.signedValue)) with
  | ok v =>
    rw [hm] at hv
    exact ⟨v, rfl, evaluate_eq_ok_iff.mpr ⟨e, he, hv⟩⟩
  | error refusal =>
    -- the operations refuse nothing
    rw [hm] at hv
    have hrefused : evaluate true .unlimited (text first links) = .error (.arithmetic refusal) := by
      rw [evaluate_eq, parse_eq_ok_iff.mpr he]
      exact hv
    rcases evaluate_cases true .unlimited (text first links) with
      ⟨x, hx⟩ | ⟨missing, found, hx⟩ | ⟨hb, -⟩
    · cases hrefused.symm.trans hx
    · cases hrefused.symm.trans hx
    · exact absurd rfl hb

/-- A sign negates its operand, in parentheses or not, before it is multiplied. -/
theorem evaluate_chain_product : evaluate true .unlimited "- 2*+(3)" = .ok (-6) := by
  have htwo : IsNumeral ['2'] := ⟨_, List.cons_ne_nil _ _, List.forall_mem_singleton.mpr rfl, .inl rfl⟩
  have hthree : IsNumeral ['3'] := ⟨_, List.cons_ne_nil _ _, List.forall_mem_singleton.mpr rfl, .inl rfl⟩
  obtain ⟨v, hm, hv⟩ := evaluate_chain (.ofNumeral ['-', ' '] (by simp [isSeparator]) ['2'] htwo false)
    [(.times, .ofNumeral ['+'] (by simp) ['3'] hthree true)]
  have hproduct : -Double.ofNumeral ['2'] * Double.ofNumeral ['3'] = -6 := by decide +kernel
  obtain rfl : -Double.ofNumeral ['2'] * Double.ofNumeral ['3'] = v := Except.ok.inj hm
  simp only [text, Operand.chars, Operand.ofNumeral, Operator.symbol, String.toList_ofList,
    List.flatMap_cons, List.flatMap_nil, hproduct] at hv
  exact hv

end Calculator.Chain
