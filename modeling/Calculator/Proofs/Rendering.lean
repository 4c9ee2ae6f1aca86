import Calculator.Expr.Printer
import Calculator.Proofs.Faults
import Calculator.Proofs.Literals
import Calculator.Proofs.Texts

/-!
# What a rendering is read as

A rendering has parentheses around every operation and around nothing else, and the sign of a number stands
in front of it. So it is read as the tree without its own parentheses, in which the negative numbers are
signs and all operations are in parentheses.

**Results.**
* `spells_chars`: if its numbers are plain, a rendering spells the tree with all its parentheses.
* `parse_render`: a rendering is read back just if its numbers are plain, as the same tree but for
  parentheses and for the signs of its numbers, with the same value.
-/
namespace Calculator

open Reader Token Double

namespace Expr

/-! ## Trees up to parentheses and signs -/

/-- The tree has signs in front of one operand and operators between two, each the token that its own character
is scanned as, and any numbers. -/
def IsWellFormed : Expr → Prop
  | number _ => True
  | paren inner => inner.IsWellFormed
  | unary operator operand =>
    operator.kind.isAdditive = true ∧ (∃ c, operator = ofSymbol c) ∧ operand.IsWellFormed
  | binary left operator right =>
    operator.kind.tightness ≠ 0 ∧ (∃ c, operator = ofSymbol c) ∧ left.IsWellFormed ∧
      right.IsWellFormed
  | stray _ => False

/-- The numbers of a tree. -/
def numbers : Expr → List Float
  | number x => [x]
  | paren inner => inner.numbers
  | unary _ operand => operand.numbers
  | binary left _ right => left.numbers ++ right.numbers
  | stray _ => []

/-- The tree without its parentheses. -/
def bare : Expr → Expr
  | number x => number x
  | paren inner => inner.bare
  | unary operator operand => unary operator operand.bare
  | binary left operator right => binary left.bare operator right.bare
  | stray leaf => stray leaf

/-- A number of negative sign as a sign and its magnitude, every other number as it is. -/
def signedNumber (x : Float) : Expr :=
  if isNegative x then unary (ofSymbol '-') (number x.abs) else number x

/-- The tree with its numbers of negative sign as signs and magnitudes. -/
def signed : Expr → Expr
  | number x => signedNumber x
  | paren inner => paren inner.signed
  | unary operator operand => unary operator operand.signed
  | binary left operator right => binary left.signed operator right.signed
  | stray leaf => stray leaf

/-- The tree with parentheses around its operations alone, and signs as operators of their own. -/
def explicit : Expr → Expr
  | number x => signedNumber x
  | paren inner => inner.explicit
  | unary operator operand => paren (unary operator operand.explicit)
  | binary left operator right => paren (binary left.explicit operator right.explicit)
  | stray leaf => stray leaf

theorem bare_explicit (t : Expr) : t.explicit.bare = t.bare.signed := by
  have hnumber : ∀ x, (signedNumber x).bare = signedNumber x := fun x => by
    unfold signedNumber
    split <;> rfl
  induction t with
  | number x => exact hnumber x
  | paren _ ih => exact ih
  | unary operator _ ih => exact congrArg (unary operator) ih
  | binary _ operator _ ihl ihr => exact congrArg₂ (fun left right => binary left operator right) ihl ihr
  | stray => rfl

theorem tightness_explicit (t : Expr) : t.explicit.tightness = 4 := by
  induction t with
  | number x =>
    unfold explicit signedNumber
    split <;> rfl
  | paren _ ih => exact ih
  | unary | binary | stray => rfl

/-- The value of a number of negative sign is that of its magnitude, negated. -/
theorem value_signedNumber {x : Float} (h : x.isFinite = true) :
    (signedNumber x).value .unlimited = .ok x := by
  have hrank := (isFinite_iff x).mp h
  unfold signedNumber
  split
  · next hx =>
    have habs : -x.abs = ofRank (isNegative x) (rank x) := by
      rw [abs_eq hrank.le, neg_ofRank false hrank.le, hx]
      rfl
    rw [ofRank_rank hrank.le] at habs
    exact congrArg Except.ok habs
  · rfl

/-- Parentheses, and signs of numbers, do not change the value. -/
theorem value_explicit {t : Expr} (h : ∀ x ∈ t.numbers, x.isFinite = true) :
    t.explicit.value .unlimited = t.value .unlimited := by
  induction t with
  | number x => exact value_signedNumber (h x List.mem_cons_self)
  | paren _ ih => exact ih h
  | unary operator operand ih =>
    exact congrArg (fun v : Except Fault Float => v >>= applySign operator) (ih h)
  | binary left operator right ihl ihr =>
    have hl := ihl fun x hx => h x (List.mem_append_left _ hx)
    have hr := ihr fun x hx => h x (List.mem_append_right _ hx)
    exact congrArg₂ (fun v w : Except Fault Float => v >>= fun x => w >>= fun y =>
      applyOperator operator x y) hl hr
  | stray => rfl

/-! ## The rendering -/

/-- The characters of the rendering of a tree. -/
def chars : Expr → List Char
  | number x => (Layout.literal.text x).toList
  | paren inner => inner.chars
  | unary operator operand => '(' :: (operator.lexeme.toList ++ (operand.chars ++ [')']))
  | binary left operator right =>
    '(' :: (left.chars ++ ' ' :: (operator.lexeme.toList ++ ' ' :: (right.chars ++ [')'])))
  | stray _ => []

theorem chars_unary (c : Char) (operand : Expr) :
    (unary (ofSymbol c) operand).chars = '(' :: c :: (operand.chars ++ [')']) := by
  simp [chars, ofSymbol]

theorem chars_binary (c : Char) (left right : Expr) :
    (binary left (ofSymbol c) right).chars =
      '(' :: (left.chars ++ ' ' :: c :: ' ' :: (right.chars ++ [')'])) := by
  simp [chars, ofSymbol]

theorem render_eq {t : Expr} (h : t.IsWellFormed) : t.render .unlimited = .ok (String.ofList t.chars) := by
  induction t with
  | number x =>
    have htext : String.ofList (Layout.literal.text x).toList = Layout.literal.text x := String.ofList_toList
    exact congrArg Except.ok htext.symm
  | paren _ ih => exact ih h
  | unary operator operand ih =>
    have hrender : (unary operator operand).render .unlimited = operand.render .unlimited >>= fun s =>
        .ok ("(" ++ operator.lexeme ++ s ++ ")") := rfl
    rw [hrender, ih h.2.2]
    refine congrArg Except.ok (String.toList_inj.mp ?_)
    simp [chars]
  | binary left operator right ihl ihr =>
    have hrender : (binary left operator right).render .unlimited = left.render .unlimited >>= fun l =>
        right.render .unlimited >>= fun r => .ok ("(" ++ l ++ " " ++ operator.lexeme ++ " " ++ r ++ ")") := rfl
    rw [hrender, ihl h.2.2.1, ihr h.2.2.2]
    refine congrArg Except.ok (String.toList_inj.mp ?_)
    simp [chars]
  | stray => exact h.elim

/-- If a number is not plain, the rendering has a letter. -/
theorem letter_mem_chars {t : Expr} {x : Float} (hx : x ∈ t.numbers) (h : ¬IsPlain x) :
    'e' ∈ t.chars ∨ 'n' ∈ t.chars := by
  induction t with
  | number y =>
    cases List.mem_singleton.mp hx
    exact letter_mem_text fun hp => h ((isPlain_iff x).mpr hp)
  | paren _ ih => exact ih hx
  | unary operator operand ih =>
    unfold chars
    rcases ih hx with h | h <;> simp [h]
  | binary left operator right ihl ihr =>
    unfold chars
    rcases List.mem_append.mp hx with hx | hx
    · rcases ihl hx with h | h <;> simp [h]
    · rcases ihr hx with h | h <;> simp [h]
  | stray => cases hx

end Expr

/-! ## Reading a rendering -/

namespace Reader

/-- The character of an operator is a token by itself. -/
theorem scan_operator {c : Char} (h : (ofSymbol c).kind.tightness ≠ 0) (rest : List Char) :
    scan (c :: rest) = ofSymbol c :: scan rest := by
  obtain ⟨hdigit, -, hseparator⟩ := ofSymbol_spec fun hk => h (congrArg Kind.tightness hk)
  exact scan_symbol hdigit hseparator rest

theorem scan_space (rest : List Char) : scan (' ' :: rest) = scan rest := by
  have hgap : IsGap [' '] := fun c hc => List.mem_singleton.mp hc ▸ rfl
  exact scan_gap_append hgap rest

/-- Characters are scanned apart from a space or a closing parenthesis behind them. -/
theorem scan_before {c : Char} (h : c = ' ' ∨ c = ')') (cs rest : List Char) :
    scan (cs ++ c :: rest) = scan cs ++ scan (c :: rest) := by
  refine scan_append cs ?_
  rintro d ⟨⟩
  rcases h with rfl | rfl <;> decide

theorem scan_closed (cs : List Char) : scan (cs ++ [')']) = scan cs ++ [ofSymbol ')'] := by
  rw [scan_before (.inr rfl), scan_symbol rfl rfl, scan_nil]

/-- The tokens of a rendered sign and its operand. -/
theorem scan_unary {c : Char} (h : (ofSymbol c).kind.tightness ≠ 0) (operand : Expr) :
    scan (Expr.unary (ofSymbol c) operand).chars =
      ofSymbol '(' :: ofSymbol c :: (scan operand.chars ++ [ofSymbol ')']) := by
  rw [Expr.chars_unary, scan_symbol rfl rfl, scan_operator h, scan_closed]

/-- The tokens of a rendered operator and its operands. -/
theorem scan_binary {c : Char} (h : (ofSymbol c).kind.tightness ≠ 0) (left right : Expr) :
    scan (Expr.binary left (ofSymbol c) right).chars =
      ofSymbol '(' :: ((scan left.chars ++ ofSymbol c :: scan right.chars) ++ [ofSymbol ')']) := by
  rw [Expr.chars_binary, scan_symbol rfl rfl, scan_before (.inl rfl), scan_space, scan_operator h, scan_space,
    scan_closed]
  simp

/-- The literal of a plain double spells it, with its sign in front. -/
theorem spells_literal {x : Float} (h : IsPlain x) :
    Spells .primary (scan (Layout.literal.text x).toList) (Expr.signedNumber x) := by
  have hrank := (isFinite_iff x).mp h.1
  obtain ⟨hl, hvalue⟩ := magnitude_of_isPositional ((isPlain_iff x).mp h)
  have hscan : scan (Layout.literal.magnitude (rank x)) =
      [Token.ofNumeral (Layout.literal.magnitude (rank x))] := by
    have hlone := scan_numeral isGap_nil hl isGap_nil
    rwa [List.nil_append, List.append_nil] at hlone
  have hnumber := spells_numeral (Layout.literal.magnitude (rank x))
  rw [hvalue, ← hscan] at hnumber
  unfold Expr.signedNumber
  rw [Layout.toList_text _ hrank.le]
  cases hx : isNegative x with
  | true =>
    rw [if_pos rfl, if_pos rfl, List.singleton_append, scan_symbol rfl rfl, abs_eq hrank.le]
    exact .sign rfl hnumber
  | false =>
    have hself := ofRank_rank hrank.le
    rw [hx] at hself
    rw [hself] at hnumber
    exact hnumber

/-- Operands in parentheses can stand beside every operator. -/
theorem beside_explicit {kind : Kind} (h : kind.tightness ≠ 0) (left right : Expr) :
    Expr.Beside left.explicit kind right.explicit := by
  unfold Expr.Beside
  rw [Expr.tightness_explicit, Expr.tightness_explicit]
  cases kind with
  | plus | minus | star | slash | caret => decide
  | _ => exact absurd rfl h

/-- If its numbers are plain, a rendering spells the tree with all its parentheses. -/
theorem spells_chars {t : Expr} (h : t.IsWellFormed) (hp : ∀ x ∈ t.numbers, IsPlain x) :
    Spells .primary (scan t.chars) t.explicit := by
  induction t with
  | number x => exact spells_literal (hp x List.mem_cons_self)
  | paren _ ih => exact ih h hp
  | unary operator operand ih =>
    obtain ⟨hsign, ⟨c, rfl⟩, hoperand⟩ := h
    have hsum := spells_sum_of_primary (.sign hsign (ih hoperand hp))
    rw [scan_unary (Kind.tightness_ne_zero_of_isAdditive hsign)]
    exact .paren rfl hsum rfl
  | binary left operator right ihl ihr =>
    obtain ⟨htight, ⟨c, rfl⟩, hl, hr⟩ := h
    have hleft := ihl hl fun x hx => hp x (List.mem_append_left _ hx)
    have hright := ihr hr fun x hx => hp x (List.mem_append_right _ hx)
    have hone : 1 ≤ left.explicit.tightness := by
      rw [Expr.tightness_explicit]
      decide
    have hbinary := (Spelled.of_primary hleft).binary (.of_primary hright) hone
      (beside_explicit htight left right)
    have hsum := hbinary.sum (Nat.one_le_iff_ne_zero.mpr htight)
    rw [scan_binary htight]
    exact .paren rfl hsum rfl
  | stray => exact h.elim

end Reader

/-! ## What is read -/

theorem parse_chars {t : Expr} (h : t.IsWellFormed) (hp : ∀ x ∈ t.numbers, IsPlain x) :
    Expr.parse true .unlimited (String.ofList t.chars) = .ok t.explicit := by
  rw [parse_eq_ok_iff, String.toList_ofList]
  refine (Spelled.of_primary (spells_chars h hp)).sum ?_
  rw [Expr.tightness_explicit]
  decide

/-- Only if its numbers are plain is a rendering read: letters are stray characters. -/
theorem isPlain_of_parse_chars {t u : Expr}
    (h : Expr.parse true .unlimited (String.ofList t.chars) = .ok u) : ∀ x ∈ t.numbers, IsPlain x := by
  intro x hx
  by_contra hnot
  have htext : (String.ofList t.chars).toList = t.chars := String.toList_ofList
  have hletter := Expr.letter_mem_chars hx hnot
  rw [← htext] at hletter
  rcases hletter with he | hn
  · exact parse_ne_ok_of_mem (c := 'e') rfl rfl (by decide) rfl he h
  · exact parse_ne_ok_of_mem (c := 'n') rfl rfl (by decide) rfl hn h

/-- The rendering of a tree is read, if nothing may follow, just if its numbers are plain. What is read is
the same tree but for parentheses and for the signs of its numbers, and has the same value. -/
theorem parse_render (t : Expr) (h : t.IsWellFormed) :
    ∃ text, t.render .unlimited = .ok text ∧
      ((∃ u, Expr.parse true .unlimited text = .ok u) ↔ ∀ x ∈ t.numbers, IsPlain x) ∧
      ∀ u, Expr.parse true .unlimited text = .ok u →
        u.bare = t.bare.signed ∧ ∃ v, u.value .unlimited = .ok v ∧ t.value .unlimited = .ok v := by
  refine ⟨_, Expr.render_eq h, ⟨fun ⟨u, hu⟩ => isPlain_of_parse_chars hu, fun hp => ⟨_, parse_chars h hp⟩⟩,
    fun u hu => ?_⟩
  have hp := isPlain_of_parse_chars hu
  have hexplicit := parse_chars h hp
  obtain rfl : u = t.explicit := Except.ok.inj (hu.symm.trans hexplicit)
  have hvalue := Expr.value_explicit fun x hx => (hp x hx).1
  refine ⟨Expr.bare_explicit t, ?_⟩
  cases hv : t.explicit.value .unlimited with
  | ok v => exact ⟨v, rfl, hvalue ▸ hv⟩
  | error fault =>
    have hshaped := isShaped_of_sum (sum_of_read_eq_ok hexplicit)
    exact absurd rfl (Expr.tooDeep_of_value hshaped hv).2

/-- The sign of a base is read as a sign, which binds tighter than the caret. -/
theorem parse_render_power :
    ∃ text u, (Expr.binary (.number (-2)) (ofSymbol '^') (.number 0.5)).render .unlimited = .ok text ∧
      Expr.parse true .unlimited text = .ok u ∧
      u.bare = .binary (.unary (ofSymbol '-') (.number 2)) (ofSymbol '^') (.number 0.5) := by
  obtain ⟨text, hrender, hplain, hread⟩ :=
    parse_render (.binary (.number (-2)) (ofSymbol '^') (.number 0.5))
      ⟨by decide, ⟨'^', rfl⟩, trivial, trivial⟩
  have hnumbers : ∀ x ∈ [-2, 0.5], IsPlain x := by decide +kernel
  obtain ⟨u, hu⟩ := hplain.mpr hnumbers
  have htree : (Expr.binary (.number (-2)) (ofSymbol '^') (.number 0.5)).bare.signed =
      .binary (.unary (ofSymbol '-') (.number 2)) (ofSymbol '^') (.number 0.5) := by decide +kernel
  exact ⟨text, u, hrender, hu, (hread u hu).1.trans htree⟩

end Calculator
