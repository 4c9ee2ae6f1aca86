import Calculator.Expr.Same
import Calculator.Proofs.Trees

/-!
# When two texts have one tree

Trees are compared node by node. Numbers compare as numbers, which is not the same as being one double: what is
no number differs from itself, and zero has two signs. The tree of a text has neither, so trees of texts that
compare as equal are one tree. Since a tree keeps of its tokens their kinds and the values of the numerals, and
is told by what it keeps, two texts have one tree just if the tokens taken of them agree in that.

**Results.**
* `same_eq_decide`: trees of texts compare as equal just if they are one tree.
* `map_kept_eq_iff`: tokens of texts are kept alike just if they agree.
* `parse_same_iff_taken_agree`: when the trees of two texts compare as equal, and what follows if they do.
-/
namespace Calculator

open Reader Token Double Grammar

/-! ## Tokens -/

namespace Token

/-- The tokens are of one kind, and as numerals of one value. -/
def Agrees (s t : Token) : Prop := s.kind = t.kind ∧ (s.kind = .number → (s.value == t.value) = true)

/-- Numerals agree just if they are of one double. -/
theorem agrees_ofNumeral_iff (l m : List Char) :
    (Token.ofNumeral l).Agrees (Token.ofNumeral m) ↔ Double.ofNumeral l = Double.ofNumeral m := by
  obtain ⟨j, hj, hl⟩ := exists_ofNumeral_eq l
  obtain ⟨k, hk, hm⟩ := exists_ofNumeral_eq m
  unfold Agrees Token.ofNumeral
  rw [hl, hm, ← beq_ofRank_iff hj hk]
  exact ⟨fun h => h.2 rfl, fun h => ⟨rfl, fun _ => h⟩⟩

theorem kept_ofNumeral (l : List Char) :
    (Token.ofNumeral l).kept = ⟨.number, "", some (Double.ofNumeral l)⟩ := rfl

/-- A tree keeps the same of two tokens of texts just if they agree, unless they are strays. -/
theorem kept_eq_iff {cs ds : List Char} {s t : Token} (hs : s ∈ scan cs) (ht : t ∈ scan ds)
    (hstray : s.kind ≠ .invalid) : s.kept = t.kept ↔ s.Agrees t := by
  obtain ⟨l, hl, rfl⟩ := exists_lexeme_of_mem_scan hs
  obtain ⟨m, hm, rfl⟩ := exists_lexeme_of_mem_scan ht
  cases hl with
  | numeral hl =>
    rw [ofLexeme_of_isNumeral hl]
    cases hm with
    | numeral hm =>
      rw [ofLexeme_of_isNumeral hm, kept_ofNumeral, kept_ofNumeral, agrees_ofNumeral_iff, Token.mk.injEq,
        Option.some_inj]
      simp only [true_and]
    | @symbol d hd _ =>
      rw [ofLexeme_singleton hd]
      have hkind : Kind.number ≠ (ofSymbol d).kind := (ofSymbol_ne_number d).symm
      refine iff_of_false (fun h => hkind ?_) fun h => hkind h.1
      rw [← kind_kept (ofSymbol d), ← h, kind_kept]
      rfl
  | @symbol c hc _ =>
    rw [ofLexeme_singleton hc] at hstray ⊢
    constructor
    · intro h
      refine ⟨?_, fun hn => absurd hn (ofSymbol_ne_number c)⟩
      rw [← kind_kept, h, kind_kept]
    · intro h
      cases hm with
      | numeral hm =>
        rw [ofLexeme_of_isNumeral hm] at h
        exact absurd h.1 (ofSymbol_ne_number c)
      | symbol hd _ =>
        rw [ofLexeme_singleton hd] at h ⊢
        rw [ofSymbol_inj h.1 hstray]

/-- Trees keep the same of tokens of texts just if they agree one by one. -/
theorem map_kept_eq_iff {cs ds : List Char} {p q : List Token} (hp : ∀ t ∈ p, t ∈ scan cs)
    (hq : ∀ t ∈ q, t ∈ scan ds) (hstray : ∀ t ∈ p, t.kind ≠ .invalid) :
    p.map kept = q.map kept ↔ List.Forall₂ Agrees p q := by
  induction p generalizing q with
  | nil =>
    rw [List.forall₂_nil_left_iff, List.map_nil]
    exact ⟨fun h => List.map_eq_nil_iff.mp h.symm, fun h => by rw [h]; rfl⟩
  | cons s p ih =>
    obtain ⟨hs, hp⟩ := List.forall_mem_cons.mp hp
    obtain ⟨hkind, hstray⟩ := List.forall_mem_cons.mp hstray
    cases q with
    | nil => simp
    | cons t q =>
      obtain ⟨ht, hq⟩ := List.forall_mem_cons.mp hq
      rw [List.map_cons, List.map_cons, List.cons_eq_cons, kept_eq_iff hs ht hkind, ih hp hq hstray,
        List.forall₂_cons]

end Token

/-! ## Trees -/

namespace Expr

theorem same_ofSymbol (c d : Char) :
    (ofSymbol c).same (ofSymbol d) = decide (ofSymbol c = ofSymbol d) := by
  rw [Bool.eq_iff_iff, decide_eq_true_iff]
  simp [Token.same, ofSymbol]

/-- Trees of texts compare as equal just if they are one tree. -/
theorem same_eq_decide {t u : Expr} (ht : t.IsOfText) (hu : u.IsOfText) :
    t.same .unlimited u = .ok (decide (t = u)) := by
  induction t generalizing u with
  | number x =>
    cases u with
    | number y =>
      obtain ⟨j, hj, rfl⟩ := ht.of_number
      obtain ⟨k, hk, rfl⟩ := hu.of_number
      have hsame : (number (ofRank false j)).same .unlimited (number (ofRank false k)) =
          .ok (ofRank false j == ofRank false k) := rfl
      have hbeq : (ofRank false j == ofRank false k) = decide (ofRank false j = ofRank false k) := by
        rw [Bool.eq_iff_iff, decide_eq_true_iff, beq_ofRank_iff hj hk]
      rw [hsame, hbeq]
      simp only [number.injEq]
    | _ => rfl
  | paren a ih =>
    cases u with
    | paren b =>
      rw [same_paren, ih ht.of_paren hu.of_paren]
      simp only [paren.injEq]
    | _ => rfl
  | unary operator a ih =>
    cases u with
    | unary operator' b =>
      obtain ⟨-, ⟨c, rfl⟩, ha⟩ := ht.of_unary
      obtain ⟨-, ⟨d, rfl⟩, hb⟩ := hu.of_unary
      have hsame : (unary (ofSymbol c) a).same .unlimited (unary (ofSymbol d) b) =
          if (ofSymbol c).same (ofSymbol d) then a.same .unlimited b else .ok false := rfl
      rw [hsame, same_ofSymbol, ih ha hb]
      by_cases hoperator : ofSymbol c = ofSymbol d <;> simp [hoperator]
    | _ => rfl
  | binary a operator b iha ihb =>
    cases u with
    | binary c operator' d =>
      obtain ⟨-, ⟨p, rfl⟩, ha, hb⟩ := ht.of_binary
      obtain ⟨-, ⟨q, rfl⟩, hc, hd⟩ := hu.of_binary
      have hsame : (binary a (ofSymbol p) b).same .unlimited (binary c (ofSymbol q) d) =
          a.same .unlimited c >>= fun left =>
            if left && (ofSymbol p).same (ofSymbol q) then b.same .unlimited d else .ok false := rfl
      have hbind : ∀ (left : Bool) (f : Bool → Except Fault Bool), Except.ok left >>= f = f left := fun _ _ => rfl
      rw [hsame, same_ofSymbol, iha ha hc, ihb hb hd, hbind]
      by_cases hleft : a = c <;> by_cases hoperator : ofSymbol p = ofSymbol q <;> simp [hleft, hoperator]
    | _ => rfl
  | stray => exact ht.isWellFormed.elim

end Expr

/-! ## Texts -/

/-- The tokens that are taken of a text if more may follow. -/
def taken (text : String) : List Token := (read false .unlimited (tokenize text)).taken

variable {a b : String} {t u : Expr}

/-- The tree of a text keeps of the tokens that are taken what trees keep, and these are no strays. -/
theorem yield_of_parse (h : Expr.parse false .unlimited a = .ok t) :
    (taken a).map kept = t.yield ∧ t.IsShaped ∧
      ∀ s ∈ taken a, s ∈ scan a.toList ∧ s.kind ≠ .invalid := by
  have hsum := sum_of_read_eq_ok h
  obtain ⟨hyield, hshaped⟩ := shaped_of_sum hsum
  rw [taken, taken_read]
  refine ⟨hyield, hshaped, fun s hs => ?_⟩
  have hkind := kind_of_spells (spells_taken hsum) s hs
  exact ⟨mem_scan_of_mem_tokenize (List.mem_of_mem_take hs) hkind.1, hkind.2⟩

/-- The trees of two texts are one tree just if the tokens taken of the texts agree. -/
theorem eq_iff_taken_agree (ha : Expr.parse false .unlimited a = .ok t)
    (hb : Expr.parse false .unlimited b = .ok u) : t = u ↔ List.Forall₂ Agrees (taken a) (taken b) := by
  obtain ⟨hyieldt, hshapedt, htakena⟩ := yield_of_parse ha
  obtain ⟨hyieldu, hshapedu, htakenb⟩ := yield_of_parse hb
  rw [← map_kept_eq_iff (fun s hs => (htakena s hs).1) (fun s hs => (htakenb s hs).1)
    (fun s hs => (htakena s hs).2), hyieldt, hyieldu]
  exact ⟨congrArg Expr.yield, eq_of_yield_eq hshapedt hshapedu⟩

/-- The trees of two texts are compared, and compare as equal just if the tokens taken of the texts are as many
and agree one by one; what is between the tokens, how the numerals are written and what comes behind makes no
difference. Trees that compare as equal have one double as their value and one text as their rendering. -/
theorem parse_same_iff_taken_agree (ha : Expr.parse false .unlimited a = .ok t)
    (hb : Expr.parse false .unlimited b = .ok u) :
    (∃ same, t.same .unlimited u = .ok same ∧
      (same = true ↔ List.Forall₂ Agrees (taken a) (taken b))) ∧
    (t.same .unlimited u = .ok true → ∃ x s, t.value .unlimited = .ok x ∧ u.value .unlimited = .ok x ∧
      t.render .unlimited = .ok s ∧ u.render .unlimited = .ok s) := by
  have ht := isOfText_of_parse ha
  have hsame := Expr.same_eq_decide ht (isOfText_of_parse hb)
  refine ⟨⟨_, hsame, ?_⟩, fun h => ?_⟩
  · rw [decide_eq_true_iff, eq_iff_taken_agree ha hb]
  · obtain rfl : t = u := of_decide_eq_true (Except.ok.inj (hsame.symm.trans h))
    obtain ⟨x, hvalue⟩ := Expr.exists_value_eq (yield_of_parse ha).2.1
    have hrender := Expr.render_eq ht.isWellFormed
    exact ⟨x, _, hvalue, hvalue, hrender, hrender⟩

/-- Spaces, a point with a zero behind it and a parenthesis that nothing opened make no difference. -/
theorem parse_same_iff_taken_agree_sum :
    let t := Expr.binary (.number 1) (ofSymbol '+') (.number 2)
    Expr.parse false .unlimited "1+2)" = .ok t ∧ Expr.parse false .unlimited " 1.0 + 2" = .ok t ∧
      List.Forall₂ Agrees (taken "1+2)") (taken " 1.0 + 2") := by
  intro t
  have ht : t.IsShaped := ⟨show 1 < 4 by decide, trivial, trivial⟩
  have ha : Expr.parse false .unlimited "1+2)" = .ok t :=
    parse_of_yield (q := scan "1+2".toList) (r := [ofSymbol ')']) ht (by decide +kernel) (by decide +kernel) rfl
  have hb : Expr.parse false .unlimited " 1.0 + 2" = .ok t :=
    parse_of_yield (q := scan " 1.0 + 2".toList) (r := []) ht (by decide +kernel) (by decide +kernel) rfl
  obtain ⟨same, hsame, hagree⟩ := (parse_same_iff_taken_agree ha hb).1
  have htrue : t.same .unlimited t = .ok true := by decide +kernel
  exact ⟨ha, hb, hagree.mp (Except.ok.inj (hsame.symm.trans htrue))⟩

end Calculator
