import Calculator.Proofs.Numerals
import Calculator.Proofs.Spelling

/-!
# The grammar

A grammar over kinds of tokens, written as it is documented, with no regard to how it is read:

    sum     := product { ("+" | "-") product }
    product := power { ("*" | "/") power }
    power   := primary [ "^" power ]
    primary := number | "(" sum ")" | ("+" | "-") primary

The sentences of the grammar are the tokens that spell a tree, so with an unlimited budget the reader
accepts exactly the sentences. If more may follow, it takes the one sentence behind which no operator
stands.

**Results.**
* `isSentence_iff`: sentences are what is spelled.
* `read_recognises_sentences`: the reader accepts the sentences, and takes the one with no operator behind.
-/
namespace Calculator.Grammar

open Reader Token

/-- The symbols of the grammar. The links of a chain are its operators, each with the operand behind it. -/
inductive Symbol where
  | chain (level : Level)
  | links (level : Level)
  | power
  | primary

/-- The operands of a chain. -/
def operand : Level → Symbol
  | .sum => .chain .product
  | .product => .power

/-- The kinds that a symbol stands for. -/
inductive Derives : Symbol → List Kind → Prop where
  | chain {level p q} : Derives (operand level) p → Derives (.links level) q →
      Derives (.chain level) (p ++ q)
  | noLink {level} : Derives (.links level) []
  | link {level kind p q} : level.joins kind = true → Derives (operand level) p →
      Derives (.links level) q → Derives (.links level) (kind :: (p ++ q))
  | base {p} : Derives .primary p → Derives .power p
  | power {p q} : Derives .primary p → Derives .power q → Derives .power (p ++ .caret :: q)
  | number : Derives .primary [.number]
  | paren {p} : Derives (.chain .sum) p → Derives .primary (.leftParen :: (p ++ [.rightParen]))
  | sign {kind p} : kind.isAdditive = true → Derives .primary p → Derives .primary (kind :: p)

/-- The tokens are a sentence: a sum and nothing else. -/
def IsSentence (ts : List Token) : Prop := Derives (.chain .sum) (ts.map Token.kind)

/-- No operator is ahead. -/
def Ends (ts : List Token) : Prop :=
  ∀ t ∈ ts.head?, t.kind ∉ [Kind.plus, Kind.minus, Kind.star, Kind.slash, Kind.caret]

/-- The tokens in front of the first end of input. -/
def beforeEnd (ts : List Token) : List Token := ts.takeWhile fun t => t.kind != .endOfInput

/-- Cut behind `q`, the tokens in front of the end of input are a sentence and no operator follows it. -/
def IsSplit (ts q r : List Token) : Prop := beforeEnd ts = q ++ r ∧ IsSentence q ∧ Ends r

/-! ## Sentences are what is spelled -/

/-- The symbol of a phrase. -/
def symbolOf : Phrase → Symbol
  | .chain level => .chain level
  | .more level _ => .links level
  | .power => .power
  | .primary => .primary

theorem symbolOf_operandOf (level : Level) : symbolOf (operandOf level) = operand level := by
  cases level <;> rfl

theorem derives_of_spells {phrase : Phrase} {q : List Token} {e : Expr} (h : Spells phrase q e) :
    Derives (symbolOf phrase) (q.map Token.kind) := by
  induction h with
  | chain _ _ ihp ihq =>
    rw [symbolOf_operandOf] at ihp
    rw [List.map_append]
    exact .chain ihp ihq
  | nothing => exact .noLink
  | more hj _ _ ihp ihq =>
    rw [symbolOf_operandOf] at ihp
    rw [List.map_cons, List.map_append]
    exact .link hj ihp ihq
  | base _ ih => exact .base ih
  | power _ hk _ ihp ihq =>
    rw [List.map_append, List.map_cons, hk]
    exact .power ihp ihq
  | paren hk _ hc ih =>
    rw [List.map_cons, List.map_append, List.map_singleton, hk, hc]
    exact .paren ih
  | sign hs _ ih => exact .sign hs ih
  | number hn _ =>
    rw [List.map_singleton, hn]
    exact .number

theorem spells_of_derives {symbol : Symbol} {kinds : List Kind} (h : Derives symbol kinds) :
    ∀ {q : List Token} (phrase : Phrase), q.map Token.kind = kinds → HasValues q →
      symbolOf phrase = symbol → ∃ e, Spells phrase q e := by
  -- the phrase is left open, as links know nothing of the tree on their left
  induction h with
  | @chain level p q _ _ ihp ihq =>
    intro ts phrase hk hv hs
    obtain ⟨p, q, rfl, hp, hq⟩ := List.map_eq_append_iff.mp hk
    obtain ⟨hvp, hvq⟩ := hasValues_append.mp hv
    cases phrase <;> cases hs
    obtain ⟨left, hleft⟩ := ihp (operandOf level) hp hvp (symbolOf_operandOf level)
    obtain ⟨e, he⟩ := ihq (.more level left) hq hvq rfl
    exact ⟨e, .chain hleft he⟩
  | noLink =>
    intro ts phrase hk _ hs
    cases List.map_eq_nil_iff.mp hk
    cases phrase <;> cases hs
    exact ⟨_, .nothing⟩
  | @link level kind p q hj _ _ ihp ihq =>
    intro ts phrase hk hv hs
    obtain ⟨t, ts, rfl, ht, hk⟩ := List.map_eq_cons_iff.mp hk
    obtain ⟨p, q, rfl, hp, hq⟩ := List.map_eq_append_iff.mp hk
    obtain ⟨hvp, hvq⟩ := hasValues_append.mp (hasValues_cons hv)
    cases phrase with
    | more _ left =>
      cases hs
      obtain ⟨right, hright⟩ := ihp (operandOf level) hp hvp (symbolOf_operandOf level)
      obtain ⟨e, he⟩ := ihq (.more level (.binary left t right)) hq hvq rfl
      exact ⟨e, .more (ht ▸ hj) hright he⟩
    | chain | power | primary => cases hs
  | base _ ih =>
    intro ts phrase hk hv hs
    cases phrase <;> cases hs
    obtain ⟨e, he⟩ := ih .primary hk hv rfl
    exact ⟨e, .base he⟩
  | power _ _ ihp ihq =>
    intro ts phrase hk hv hs
    obtain ⟨p, q, rfl, hp, hq⟩ := List.map_eq_append_iff.mp hk
    obtain ⟨t, q, rfl, ht, hq⟩ := List.map_eq_cons_iff.mp hq
    obtain ⟨hvp, hvq⟩ := hasValues_append.mp hv
    cases phrase <;> cases hs
    obtain ⟨base, hbase⟩ := ihp .primary hp hvp rfl
    obtain ⟨e, he⟩ := ihq .power hq (hasValues_cons hvq) rfl
    exact ⟨_, .power hbase ht he⟩
  | number =>
    intro ts phrase hk hv hs
    obtain ⟨t, ts, rfl, ht, hk⟩ := List.map_eq_cons_iff.mp hk
    cases List.map_eq_nil_iff.mp hk
    cases phrase <;> cases hs
    obtain ⟨value, hvalue⟩ := Option.ne_none_iff_exists'.mp (hv t List.mem_cons_self ht)
    exact ⟨_, .number ht hvalue⟩
  | paren _ ih =>
    intro ts phrase hk hv hs
    obtain ⟨t, ts, rfl, ht, hk⟩ := List.map_eq_cons_iff.mp hk
    obtain ⟨q, last, rfl, hq, hlast⟩ := List.map_eq_append_iff.mp hk
    obtain ⟨close, last, rfl, hclose, hlast⟩ := List.map_eq_cons_iff.mp hlast
    cases List.map_eq_nil_iff.mp hlast
    cases phrase <;> cases hs
    obtain ⟨e, he⟩ := ih (.chain .sum) hq (hasValues_append.mp (hasValues_cons hv)).1 rfl
    exact ⟨_, .paren ht he hclose⟩
  | sign hs _ ih =>
    intro ts phrase hk hv hp
    obtain ⟨t, ts, rfl, ht, hk⟩ := List.map_eq_cons_iff.mp hk
    cases phrase <;> cases hp
    obtain ⟨e, he⟩ := ih .primary hk (hasValues_cons hv) rfl
    exact ⟨_, .sign (ht ▸ hs) he⟩

/-- Sentences are what spells a tree. -/
theorem isSentence_iff {q : List Token} (hv : HasValues q) :
    IsSentence q ↔ ∃ e, Spells (.chain .sum) q e :=
  ⟨fun h => spells_of_derives h (.chain .sum) rfl hv rfl, fun ⟨_, h⟩ => derives_of_spells h⟩

/-! ## Up to the end of input -/

/-- Neither the end of input nor a stray token is part of a phrase. -/
theorem kind_of_derives {symbol : Symbol} {kinds : List Kind} (h : Derives symbol kinds) :
    ∀ kind ∈ kinds, kind ≠ .endOfInput ∧ kind ≠ .invalid := by
  induction h with
  | chain _ _ ihp ihq => exact List.forall_mem_append.mpr ⟨ihp, ihq⟩
  | noLink => exact nofun
  | @link level kind p q hj _ _ ihp ihq =>
    refine List.forall_mem_cons.mpr ⟨?_, List.forall_mem_append.mpr ⟨ihp, ihq⟩⟩
    constructor <;> rintro rfl <;> cases level <;> cases hj
  | base _ ih => exact ih
  | power _ _ ihp ihq =>
    exact List.forall_mem_append.mpr ⟨ihp, List.forall_mem_cons.mpr ⟨by decide, ihq⟩⟩
  | number => exact List.forall_mem_singleton.mpr (by decide)
  | paren _ ih =>
    refine List.forall_mem_cons.mpr ⟨by decide, List.forall_mem_append.mpr ⟨ih, ?_⟩⟩
    exact List.forall_mem_singleton.mpr (by decide)
  | sign hs _ ih =>
    refine List.forall_mem_cons.mpr ⟨?_, ih⟩
    constructor <;> rintro rfl <;> cases hs

theorem kind_of_spells {phrase : Phrase} {q : List Token} {e : Expr} (h : Spells phrase q e) :
    ∀ t ∈ q, t.kind ≠ .endOfInput ∧ t.kind ≠ .invalid := fun _ ht =>
  kind_of_derives (derives_of_spells h) _ (List.mem_map_of_mem ht)

theorem endOfInput_notMem {symbol : Symbol} {kinds : List Kind} (h : Derives symbol kinds) :
    Kind.endOfInput ∉ kinds := fun hm => (kind_of_derives h _ hm).1 rfl

/-- A sentence at the front stands in front of the end of input. -/
theorem beforeEnd_append {q rest : List Token} (h : IsSentence q) :
    beforeEnd (q ++ rest) = q ++ beforeEnd rest := by
  refine List.takeWhile_append_of_pos fun t ht => ?_
  have hne : t.kind ≠ .endOfInput := fun hk =>
    endOfInput_notMem h (hk ▸ List.mem_map_of_mem ht)
  simpa using hne

theorem beforeEnd_eq_nil_iff {ts : List Token} :
    beforeEnd ts = [] ↔ (lookahead ts).kind = .endOfInput := by
  cases ts with
  | nil => exact ⟨fun _ => rfl, fun _ => rfl⟩
  | cons t ts =>
    show beforeEnd (t :: ts) = [] ↔ t.kind = .endOfInput
    unfold beforeEnd
    rw [List.takeWhile_cons]
    split <;> simp_all

/-- No operator is ahead in front of the end of input if and only if none is ahead at all. -/
theorem ends_beforeEnd_iff {ts : List Token} :
    Ends (beforeEnd ts) ↔ (lookahead ts).kind.tightness = 0 := by
  cases ts with
  | nil => exact ⟨fun _ => rfl, fun _ _ h => nomatch h⟩
  | cons t ts =>
    show Ends (beforeEnd (t :: ts)) ↔ t.kind.tightness = 0
    unfold Ends beforeEnd
    rw [List.takeWhile_cons]
    cases hk : t.kind <;> simp [hk, Kind.tightness]

/-! ## The reader -/

variable {ts q r : List Token}

/-- The reader takes the sentence with no operator behind it, if there is one. -/
theorem sum_ok_iff_isSplit (hv : HasValues (beforeEnd ts)) :
    ((∃ e, (sum .unlimited ts).result = .ok e) ∧ (sum .unlimited ts).taken = q ∧
      beforeEnd (sum .unlimited ts).rest = r) ↔ IsSplit ts q r := by
  constructor
  · rintro ⟨⟨e, he⟩, rfl, rfl⟩
    obtain ⟨q, hq, hs, hf⟩ := sum_ok_iff.mp ⟨he, rfl⟩
    rw [Reading.taken_eq _ hq]
    have hsentence : IsSentence q := derives_of_spells hs
    refine ⟨?_, hsentence, ends_beforeEnd_iff.mpr hf⟩
    rw [← beforeEnd_append hsentence, ← hq]
  · rintro ⟨hsplit, hsentence, hr⟩
    obtain ⟨e, hs⟩ := (isSentence_iff (hasValues_append.mp (hsplit ▸ hv)).1).mp hsentence
    obtain ⟨rest, rfl⟩ : ∃ rest, ts = q ++ rest :=
      ⟨r ++ ts.dropWhile fun t => t.kind != .endOfInput, by
        rw [← List.append_assoc, ← hsplit]
        exact List.takeWhile_append_dropWhile.symm⟩
    rw [beforeEnd_append hsentence, List.append_cancel_left_eq] at hsplit
    have hf := ends_beforeEnd_iff.mp (hsplit ▸ hr)
    obtain ⟨he, hrest⟩ := sum_ok_iff.mpr ⟨q, rfl, hs, hf⟩
    exact ⟨⟨e, he⟩, Reading.taken_eq _ (by rw [hrest]), by rw [hrest, hsplit]⟩

/-- The reader after which nothing may follow accepts the sentences. A reader after which more may follow
takes a sentence behind which no operator stands, and there is at most one. -/
theorem read_recognises_sentences (ts : List Token) (hv : HasValues (beforeEnd ts)) :
    ((∃ e, (read true .unlimited ts).result = .ok e) ↔ IsSentence (beforeEnd ts)) ∧
      read false .unlimited ts = sum .unlimited ts ∧
      (∀ q r, ((∃ e, (sum .unlimited ts).result = .ok e) ∧ (sum .unlimited ts).taken = q ∧
        beforeEnd (sum .unlimited ts).rest = r) ↔ IsSplit ts q r) ∧
      (∀ q r q' r', IsSplit ts q r → IsSplit ts q' r' → q = q' ∧ r = r') := by
  refine ⟨⟨?_, ?_⟩, read_eq_sum .unlimited ts, fun q r => sum_ok_iff_isSplit hv, ?_⟩
  · rintro ⟨e, he⟩
    obtain ⟨he, hend⟩ := read_true_ok_iff.mp he
    obtain ⟨hsplit, hsentence, -⟩ :=
      (sum_ok_iff_isSplit hv).mp ⟨⟨e, he⟩, rfl, beforeEnd_eq_nil_iff.mpr hend⟩
    rwa [hsplit, List.append_nil]
  · intro hsentence
    have hsplit : IsSplit ts (beforeEnd ts) [] := ⟨(List.append_nil _).symm, hsentence, nofun⟩
    obtain ⟨⟨e, he⟩, -, hrest⟩ := (sum_ok_iff_isSplit hv).mpr hsplit
    exact ⟨e, read_true_ok_iff.mpr ⟨he, beforeEnd_eq_nil_iff.mp hrest⟩⟩
  · intro q r q' r' h h'
    obtain ⟨-, hq, hr⟩ := (sum_ok_iff_isSplit hv).mpr h
    obtain ⟨-, hq', hr'⟩ := (sum_ok_iff_isSplit hv).mpr h'
    exact ⟨hq.symm.trans hq', hr.symm.trans hr'⟩

/-- Of `1 - (+2) ) ^` the first six tokens are taken. -/
theorem read_recognises_sentences_before_parenthesis :
    let q : List Token := [⟨.number, "1", some 1⟩, ⟨.minus, "-", none⟩, ⟨.leftParen, "(", none⟩,
      ⟨.plus, "+", none⟩, ⟨.number, "2", some 2⟩, ⟨.rightParen, ")", none⟩]
    let r : List Token := [⟨.rightParen, ")", none⟩, ⟨.caret, "^", none⟩]
    HasValues (beforeEnd (q ++ r)) ∧ (∃ e, (sum .unlimited (q ++ r)).result = .ok e) ∧
      (sum .unlimited (q ++ r)).taken = q := by
  intro q r
  have hv : HasValues (beforeEnd (q ++ r)) := by
    intro t ht hk
    simp [q, r, beforeEnd] at ht
    rcases ht with rfl | rfl | rfl | rfl | rfl | rfl | rfl | rfl <;> simp at hk ⊢
  have hone : Derives (.chain .product) [.number] :=
    .chain (show Derives (operand .product) _ from .base .number) .noLink
  have htwo : Derives (.chain .product) [.plus, .number] :=
    .chain (show Derives (operand .product) _ from .base (.sign rfl .number)) .noLink
  have hparen : Derives (.chain .product) [.leftParen, .plus, .number, .rightParen] :=
    .chain (show Derives (operand .product) _ from
      .base (.paren (.chain (show Derives (operand .sum) _ from htwo) .noLink))) .noLink
  have hs : IsSentence q :=
    .chain (show Derives (operand .sum) _ from hone)
      (.link (show Level.sum.joins .minus = true from rfl) hparen .noLink)
  have h := (read_recognises_sentences (q ++ r) hv).2.2.1 q r
  obtain ⟨he, ht, -⟩ := h.mpr ⟨rfl, hs, by simp [Ends, r]⟩
  exact ⟨hv, he, ht⟩

end Calculator.Grammar
