import Calculator.Proofs.Shape
import Calculator.Proofs.Stops

/-!
# Reading looks at kinds only

What a token is written as and what it is worth make no difference to how a reading goes. Two token lists of
the same kinds are read step by step alike: the readings stop at the same place, and come to trees of one
outline, each with its own tokens in it, or to faults at one place, or both are too deep.

**Results.**
* `exists_drop_eq_cons`: where one list has a token, the other has one of its kind.
* `reads_alike`: phrases that are alike are read alike.
* `read_looks_at_kinds`: lists of the same kinds are read alike.
-/
namespace Calculator

/-! ## Outlines -/

/-- The form of a tree, without its operators and numbers. -/
inductive Outline where
  | number
  | paren (inner : Outline)
  | unary (operand : Outline)
  | binary (left right : Outline)
  deriving DecidableEq, Repr

namespace Outline

/-- Number of tokens of a tree of the form. -/
def size : Outline → Nat
  | number => 1
  | paren inner => inner.size + 2
  | unary operand => operand.size + 1
  | binary left right => left.size + 1 + right.size

/-- The tree of the form whose tokens are those of `ts` from the place `start` on. Its operators are the tokens
at their places, and its numbers the values of the tokens at theirs. -/
def fill (ts : List Token) (start : Nat) : Outline → Option Expr
  | number => (ts[start]?.bind Token.value).map .number
  | paren inner => (inner.fill ts (start + 1)).map .paren
  | unary operand =>
    ts[start]?.bind fun operator => (operand.fill ts (start + 1)).map (.unary operator)
  | binary left right =>
    let middle := start + left.size
    (left.fill ts start).bind fun l =>
      ts[middle]?.bind fun operator => (right.fill ts (middle + 1)).map (.binary l operator)

end Outline

/-- The trees have one outline, which is filled with the tokens of the one list and with those of the other, from
the place `start` up to the place `stop`. -/
def SameOutline (ts us : List Token) (start stop : Nat) (t u : Expr) : Prop :=
  ∃ outline : Outline, start + outline.size = stop ∧ outline.fill ts start = some t ∧
    outline.fill us start = some u

namespace SameOutline

variable {ts us : List Token} {start middle stop : Nat} {s s' : Token} {t t' u u' : Expr}

theorem number {x y : Float} (hs : ts[start]? = some s) (hs' : us[start]? = some s') (hx : s.value = some x)
    (hy : s'.value = some y) : SameOutline ts us start (start + 1) (.number x) (.number y) := by
  refine ⟨.number, rfl, ?_, ?_⟩
  · simp [Outline.fill, hs, hx]
  · simp [Outline.fill, hs', hy]

theorem paren (h : SameOutline ts us (start + 1) stop t u) :
    SameOutline ts us start (stop + 1) (.paren t) (.paren u) := by
  obtain ⟨outline, rfl, ht, hu⟩ := h
  refine ⟨.paren outline, ?_, ?_, ?_⟩
  · simp only [Outline.size]
    omega
  · simp [Outline.fill, ht]
  · simp [Outline.fill, hu]

theorem unary (h : SameOutline ts us (start + 1) stop t u) (hs : ts[start]? = some s)
    (hs' : us[start]? = some s') : SameOutline ts us start stop (.unary s t) (.unary s' u) := by
  obtain ⟨outline, rfl, ht, hu⟩ := h
  refine ⟨.unary outline, ?_, ?_, ?_⟩
  · simp only [Outline.size]
    omega
  · simp [Outline.fill, hs, ht]
  · simp [Outline.fill, hs', hu]

theorem binary (h : SameOutline ts us start middle t u) (h' : SameOutline ts us (middle + 1) stop t' u')
    (hs : ts[middle]? = some s) (hs' : us[middle]? = some s') :
    SameOutline ts us start stop (.binary t s t') (.binary u s' u') := by
  obtain ⟨left, rfl, ht, hu⟩ := h
  obtain ⟨right, rfl, ht', hu'⟩ := h'
  refine ⟨.binary left right, ?_, ?_, ?_⟩
  · simp only [Outline.size]
    omega
  · simp [Outline.fill, hs, ht, ht']
  · simp [Outline.fill, hs', hu, hu']

end SameOutline

namespace Reader

open Token

/-- The outcomes of two readings that began at the place `start` and stopped at `stop`: trees of one outline,
each filled with the tokens of its own list; or the fault that one of the kind is missing at `stop`, where each
list has a token of its own or is at its end; or for both that the budget is used up. -/
inductive Alike (ts us : List Token) (start stop : Nat) : Except Fault Expr → Except Fault Expr → Prop where
  | tree {t u} : SameOutline ts us start stop t u → Alike ts us start stop (.ok t) (.ok u)
  | unexpected {missing} : Alike ts us start stop (.error (.unexpected missing (lookahead (ts.drop stop))))
      (.error (.unexpected missing (lookahead (us.drop stop))))
  | tooDeep : Alike ts us start stop (.error .tooDeep) (.error .tooDeep)

/-- Phrases of two readings that are at `place`: the same, but for the chains that go on, which are trees of one
outline, filled from `start` on. -/
inductive AlikePhrases (ts us : List Token) : Nat → Nat → Phrase → Phrase → Prop where
  | chain {place level} : AlikePhrases ts us place place (.chain level) (.chain level)
  | more {start place level t u} : SameOutline ts us start place t u →
      AlikePhrases ts us start place (.more level t) (.more level u)
  | power {place} : AlikePhrases ts us place place .power .power
  | primary {place} : AlikePhrases ts us place place .primary .primary

variable {b : Budget} {ts us rest : List Token} {start stop place : Nat} {phrase phrase' : Phrase}
  {result result' : Except Fault Expr} {fault : Fault} {t u : Expr}

/-! ## Outcomes that are alike -/

/-- A fault is alike to faults, wherever the readings began. -/
theorem Alike.of_error (h : Alike ts us start stop (.error fault) result') (start' : Nat) :
    ∃ fault', result' = .error fault' ∧ Alike ts us start' stop (.error fault) (.error fault') := by
  cases h with
  | unexpected => exact ⟨_, rfl, .unexpected⟩
  | tooDeep => exact ⟨_, rfl, .tooDeep⟩

theorem Alike.of_ok (h : Alike ts us start stop (.ok t) result') :
    ∃ u, result' = .ok u ∧ SameOutline ts us start stop t u := by
  cases h with
  | tree hsame => exact ⟨_, rfl, hsame⟩

/-- What is alike stays so if trees of one outline are made of the trees. -/
theorem Alike.map {f f' : Expr → Expr} (h : Alike ts us place stop result result')
    (hf : ∀ t u, SameOutline ts us place stop t u → SameOutline ts us start stop (f t) (f' u)) :
    Alike ts us start stop (result.map f) (result'.map f') := by
  cases h with
  | tree hsame => exact .tree (hf _ _ hsame)
  | unexpected => exact .unexpected
  | tooDeep => exact .tooDeep

theorem alikePhrases_operandOf (ts us : List Token) (place : Nat) (level : Level) :
    AlikePhrases ts us place place (operandOf level) (operandOf level) := by
  cases level with
  | sum => exact .chain
  | product => exact .power

/-! ## Lists of the same kinds -/

section

variable (hkinds : ts.map kind = us.map kind)

include hkinds

theorem kind_lookahead_drop (place : Nat) :
    (lookahead (us.drop place)).kind = (lookahead (ts.drop place)).kind := by
  have hkind : us[place]?.map kind = ts[place]?.map kind := by
    rw [← List.getElem?_map, ← List.getElem?_map, hkinds]
  unfold lookahead
  rw [List.head?_drop, List.head?_drop]
  cases ht : ts[place]? <;> cases hu : us[place]? <;> simp_all

/-- Faults that are alike are worded alike. -/
theorem Alike.message_eq {fault' : Fault} (h : Alike ts us start stop (.error fault) (.error fault')) :
    fault.message = fault'.message := by
  cases h with
  | @unexpected missing =>
    exact congrArg (fun found : Kind => missing.name ++ " expected, found " ++ found.name)
      (kind_lookahead_drop hkinds stop).symm
  | tooDeep => rfl

/-- Where one list has a token, the other has one of its kind. -/
theorem exists_drop_eq_cons {token : Token} (h : token :: rest = ts.drop place) :
    ts[place]? = some token ∧ rest = ts.drop (place + 1) ∧
      ∃ token', us[place]? = some token' ∧ us.drop place = token' :: us.drop (place + 1) ∧
        token'.kind = token.kind := by
  have htoken : ts[place]? = some token := by rw [← List.head?_drop, ← h, List.head?_cons]
  have hkind : us[place]?.map kind = some token.kind := by
    rw [← List.getElem?_map, ← hkinds, List.getElem?_map, htoken, Option.map_some]
  obtain ⟨token', htoken', hkind⟩ := Option.map_eq_some_iff.mp hkind
  refine ⟨htoken, by rw [← List.tail_drop, ← h, List.tail_cons], token', htoken', ?_, hkind⟩
  obtain ⟨hlt, rfl⟩ := List.getElem?_eq_some_iff.mp htoken'
  exact List.drop_eq_getElem_cons hlt

/-- Phrases that are alike are read alike. -/
theorem reads_alike {all : List Token} (hts : HasValues ts) (hus : HasValues us)
    (h : Reads b phrase all result rest) (hall : all = ts.drop place)
    (hphrase : AlikePhrases ts us start place phrase phrase') :
    ∃ stop result', rest = ts.drop stop ∧ Reads b phrase' (us.drop place) result' (us.drop stop) ∧
      Alike ts us start stop result result' := by
  -- the first reading is at `place`, and each of its rules looks at a kind there, so the second goes by the same one
  induction h generalizing start place phrase' with
  | @chainFault b level all fault rest _ ih =>
    cases hphrase
    obtain ⟨stop, _, rfl, hreads, halike⟩ := ih hall (alikePhrases_operandOf ts us start level)
    obtain ⟨fault', rfl, hfault⟩ := halike.of_error start
    exact ⟨stop, _, rfl, .chainFault hreads, hfault⟩
  | @chain b level all left mid result rest _ _ ih ihm =>
    cases hphrase
    obtain ⟨middle, _, rfl, hreads, halike⟩ := ih hall (alikePhrases_operandOf ts us start level)
    obtain ⟨left', rfl, hsame⟩ := halike.of_ok
    obtain ⟨stop, result', rfl, hmore, halike⟩ := ihm rfl (.more hsame)
    exact ⟨stop, result', rfl, .chain hreads hmore, halike⟩
  | @moreEnd b level left all hj =>
    cases hphrase with
    | more hsame =>
      subst hall
      rw [← kind_lookahead_drop hkinds] at hj
      exact ⟨place, _, rfl, .moreEnd hj, .tree hsame⟩
  | @moreFault b level left operator all fault rest hj _ ih =>
    cases hphrase with
    | more hsame =>
      obtain ⟨-, rfl, operator', -, hdrop, hkind⟩ := exists_drop_eq_cons hkinds hall
      obtain ⟨stop, _, rfl, hreads, halike⟩ := ih rfl (alikePhrases_operandOf ts us (place + 1) level)
      obtain ⟨fault', rfl, hfault⟩ := halike.of_error start
      rw [← hkind] at hj
      rw [hdrop]
      exact ⟨stop, _, rfl, .moreFault hj hreads, hfault⟩
  | @more b level left operator all right mid result rest hj _ _ ih ihm =>
    cases hphrase with
    | more hsame =>
      obtain ⟨hs, rfl, operator', hs', hdrop, hkind⟩ := exists_drop_eq_cons hkinds hall
      obtain ⟨middle, _, rfl, hreads, halike⟩ := ih rfl (alikePhrases_operandOf ts us (place + 1) level)
      obtain ⟨right', rfl, hright⟩ := halike.of_ok
      obtain ⟨stop, result', rfl, hmore, halike⟩ := ihm rfl (.more (hsame.binary hright hs hs'))
      rw [← hkind] at hj
      rw [hdrop]
      exact ⟨stop, result', rfl, .more hj hreads hmore, halike⟩
  | powerFault _ ih =>
    cases hphrase
    obtain ⟨stop, _, rfl, hreads, halike⟩ := ih hall .primary
    obtain ⟨fault', rfl, hfault⟩ := halike.of_error start
    exact ⟨stop, _, rfl, .powerFault hreads, hfault⟩
  | base _ hk ih =>
    cases hphrase
    obtain ⟨stop, _, rfl, hreads, halike⟩ := ih hall .primary
    obtain ⟨base', rfl, -⟩ := halike.of_ok
    rw [← kind_lookahead_drop hkinds] at hk
    exact ⟨stop, _, rfl, .base hreads hk, halike⟩
  | powerDeep _ hk hb ih =>
    cases hphrase
    obtain ⟨middle, _, hmid, hreads, halike⟩ := ih hall .primary
    obtain ⟨base', rfl, -⟩ := halike.of_ok
    obtain ⟨-, rfl, operator', -, hdrop, hkind⟩ := exists_drop_eq_cons hkinds hmid
    obtain rfl := (Budget.spend_eq_error hb).1
    rw [hdrop] at hreads
    rw [← hkind] at hk
    exact ⟨middle + 1, _, rfl, .powerDeep hreads hk hb, .tooDeep⟩
  | power _ hk hb _ ih ihp =>
    cases hphrase
    obtain ⟨middle, _, hmid, hreads, halike⟩ := ih hall .primary
    obtain ⟨base', rfl, hbase⟩ := halike.of_ok
    obtain ⟨hs, rfl, operator', hs', hdrop, hkind⟩ := exists_drop_eq_cons hkinds hmid
    obtain ⟨stop, result', rfl, hpower, halike⟩ := ihp rfl .power
    rw [hdrop] at hreads
    rw [← hkind] at hk
    exact ⟨stop, _, rfl, .power hreads hk hb hpower, halike.map fun _ _ hsame => hbase.binary hsame hs hs'⟩
  | parenDeep hk hb =>
    cases hphrase
    obtain ⟨-, rfl, token', -, hdrop, hkind⟩ := exists_drop_eq_cons hkinds hall
    obtain rfl := (Budget.spend_eq_error hb).1
    rw [← hkind] at hk
    rw [hdrop]
    exact ⟨start + 1, _, rfl, .parenDeep hk hb, .tooDeep⟩
  | parenFault hk hb _ ih =>
    cases hphrase
    obtain ⟨-, rfl, token', -, hdrop, hkind⟩ := exists_drop_eq_cons hkinds hall
    obtain ⟨stop, _, rfl, hreads, halike⟩ := ih rfl .chain
    obtain ⟨fault', rfl, hfault⟩ := halike.of_error start
    rw [← hkind] at hk
    rw [hdrop]
    exact ⟨stop, _, rfl, .parenFault hk hb hreads, hfault⟩
  | parenOpen hk hb _ hclose ih =>
    cases hphrase
    obtain ⟨-, rfl, token', -, hdrop, hkind⟩ := exists_drop_eq_cons hkinds hall
    obtain ⟨stop, _, rfl, hreads, halike⟩ := ih rfl .chain
    obtain ⟨inner', rfl, -⟩ := halike.of_ok
    rw [← hkind] at hk
    rw [← kind_lookahead_drop hkinds] at hclose
    rw [hdrop]
    exact ⟨stop, _, rfl, .parenOpen hk hb hreads hclose, .unexpected⟩
  | paren hk hb _ hclose ih =>
    cases hphrase
    obtain ⟨-, rfl, token', -, hdrop, hkind⟩ := exists_drop_eq_cons hkinds hall
    obtain ⟨middle, _, hmid, hreads, halike⟩ := ih rfl .chain
    obtain ⟨inner', rfl, hinner⟩ := halike.of_ok
    obtain ⟨-, rfl, close', -, hdropc, hkindc⟩ := exists_drop_eq_cons hkinds hmid
    rw [← hkind] at hk
    rw [← hkindc] at hclose
    rw [hdropc] at hreads
    rw [hdrop]
    exact ⟨middle + 1, _, rfl, .paren hk hb hreads hclose, .tree hinner.paren⟩
  | signDeep hs hb =>
    cases hphrase
    obtain ⟨-, rfl, token', -, hdrop, hkind⟩ := exists_drop_eq_cons hkinds hall
    obtain rfl := (Budget.spend_eq_error hb).1
    rw [← hkind] at hs
    rw [hdrop]
    exact ⟨start + 1, _, rfl, .signDeep hs hb, .tooDeep⟩
  | sign hs hb _ ih =>
    cases hphrase
    obtain ⟨ht, rfl, token', hu, hdrop, hkind⟩ := exists_drop_eq_cons hkinds hall
    obtain ⟨stop, result', rfl, hreads, halike⟩ := ih rfl .primary
    rw [← hkind] at hs
    rw [hdrop]
    exact ⟨stop, _, rfl, .sign hs hb hreads, halike.map fun _ _ hsame => hsame.unary ht hu⟩
  | missingValue hn hv =>
    obtain ⟨ht, -⟩ := exists_drop_eq_cons hkinds hall
    exact absurd hv (hts _ (List.mem_of_getElem? ht) hn)
  | number hn hv =>
    cases hphrase
    obtain ⟨ht, rfl, token', hu, hdrop, hkind⟩ := exists_drop_eq_cons hkinds hall
    rw [← hkind] at hn
    obtain ⟨value', hv'⟩ := Option.ne_none_iff_exists'.mp (hus _ (List.mem_of_getElem? hu) hn)
    rw [hdrop]
    exact ⟨start + 1, _, rfl, .number hn hv', .tree (.number ht hu hv hv')⟩
  | noPrimary hn =>
    cases hphrase
    subst hall
    rw [← kind_lookahead_drop hkinds] at hn
    exact ⟨start, _, rfl, .noPrimary hn, .unexpected⟩

/-- Sums are read alike. -/
theorem sum_alike (b : Budget) (hts : HasValues ts) (hus : HasValues us) :
    ∃ stop, (sum b ts).rest = ts.drop stop ∧ (sum b us).rest = us.drop stop ∧
      Alike ts us 0 stop (sum b ts).result (sum b us).result := by
  obtain ⟨stop, result', hrest, hreads, halike⟩ :=
    reads_alike hkinds hts hus (reads_sum b ts) ts.drop_zero.symm .chain
  rw [List.drop_zero] at hreads
  obtain ⟨rfl, hrest'⟩ := sum_eq_of_reads hreads
  exact ⟨stop, hrest, hrest', halike⟩

/-- Token lists of the same kinds, in which every numeral has a value, are read alike, whether more may follow or
not: the readings stop at one place and come to trees of one outline, each filled with the tokens of its own list,
or to faults at that place that miss the same kind and are worded alike, or both to the fault that the budget is
used up. -/
theorem read_looks_at_kinds (strict : Bool) (b : Budget) (hts : HasValues ts) (hus : HasValues us) :
    ∃ stop, (read strict b ts).rest = ts.drop stop ∧ (read strict b us).rest = us.drop stop ∧
      Alike ts us 0 stop (read strict b ts).result (read strict b us).result ∧
      ∀ fault fault', (read strict b ts).result = .error fault → (read strict b us).result = .error fault' →
        fault.message = fault'.message := by
  obtain ⟨stop, hrest, hrest', hsum⟩ := sum_alike hkinds b hts hus
  have halike : Alike ts us 0 stop (read strict b ts).result (read strict b us).result := by
    cases ht : (sum b ts).result with
    | error fault =>
      rw [ht] at hsum
      obtain ⟨fault', hu, hfault⟩ := hsum.of_error 0
      rw [read_of_sum_eq_error strict ht, read_of_sum_eq_error strict hu]
      exact hfault
    | ok t =>
      rw [ht] at hsum
      obtain ⟨u, hu, hsame⟩ := hsum.of_ok
      rw [read_of_sum_eq_ok strict ht, read_of_sum_eq_ok strict hu, hrest, hrest',
        kind_lookahead_drop hkinds]
      split
      · exact .unexpected
      · exact .tree hsame
  refine ⟨stop, ?_, ?_, halike, fun fault fault' hf hf' => ?_⟩
  · rw [rest_read, hrest]
  · rw [rest_read, hrest']
  · rw [hf, hf'] at halike
    exact halike.message_eq hkinds

end

/-- A difference with a parenthesis, in figures and in words that mean something else. -/
theorem read_looks_at_kinds_difference :
    let ts : List Token := [⟨.number, "2", some 2⟩, ⟨.minus, "-", none⟩, ⟨.leftParen, "(", none⟩,
      ⟨.number, "1", some 1⟩, ⟨.rightParen, ")", none⟩]
    let us : List Token := [⟨.number, "one", some 1⟩, ⟨.minus, "plus", some 3⟩, ⟨.leftParen, "", none⟩,
      ⟨.number, "", some 0⟩, ⟨.rightParen, "(", none⟩]
    let t : Expr := .binary (.number 2) ⟨.minus, "-", none⟩ (.paren (.number 1))
    let u : Expr := .binary (.number 1) ⟨.minus, "plus", some 3⟩ (.paren (.number 0))
    ts.map kind = us.map kind ∧ HasValues ts ∧ HasValues us ∧
      (read true .unlimited ts).result = .ok t ∧ (read true .unlimited us).result = .ok u ∧
      ∃ outline : Outline, outline.fill ts 0 = some t ∧ outline.fill us 0 = some u := by
  intro ts us t u
  have hkinds : ts.map kind = us.map kind := by decide
  have hts : HasValues ts := by unfold HasValues; decide
  have hus : HasValues us := by unfold HasValues; decide
  have hshapedt : t.IsShaped := ⟨show 1 < 4 by decide, trivial, trivial⟩
  have hshapedu : u.IsShaped := ⟨show 1 < 4 by decide, trivial, trivial⟩
  have ht : (read true .unlimited (ts ++ [])).result = .ok t := read_of_shaped hshapedt rfl rfl
  have hu : (read true .unlimited (us ++ [])).result = .ok u := read_of_shaped hshapedu rfl rfl
  rw [List.append_nil] at ht hu
  obtain ⟨stop, -, -, halike, -⟩ := read_looks_at_kinds hkinds true .unlimited hts hus
  rw [ht, hu] at halike
  obtain ⟨_, hok, outline, -, hfill, hfill'⟩ := halike.of_ok
  cases hok
  exact ⟨hkinds, hts, hus, ht, hu, outline, hfill, hfill'⟩

end Reader
end Calculator
