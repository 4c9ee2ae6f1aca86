import Calculator.Proofs.Stops
import Calculator.Proofs.Texts

/-!
# Reading the front of a text

If more may follow, what is read of a text is its longest prefix that is read when nothing may follow, and
whatever comes behind the text changes nothing about that. The character behind the prefix begins a token
that goes on no expression. It begins such a token whatever comes behind it, and where it stands no token
in front of it could be longer, so the tokens in front of it are the same in all of these texts.

**Results.**
* `exists_cut_of_scan`: the character with which a token begins fixes its kind and the tokens in front of it.
* `parse_false_eq_ok_iff`: if more may follow, a text is read as the tree that its first tokens spell.
* `parse_modes_agree`: when the two ways of reading a text agree, and what they do when they do not.
-/
namespace Calculator

open Reader Token Grammar

namespace Token

/-! ## Where a token begins -/

/-- The kind of the tokens that begin with the character. -/
def Kind.ofFirst (c : Char) : Kind := if c.isDigit then .number else .ofSymbol c

theorem kind_ofLexeme_cons (c : Char) (l : List Char) : (ofLexeme (c :: l)).kind = Kind.ofFirst c := by
  unfold Kind.ofFirst
  show (if c.isDigit then ofNumeral (c :: l) else ofSymbol c).kind = _
  split <;> rfl

/-- Behind separators every other character begins a token. -/
theorem exists_scan_eq_cons {w : List Char} {c : Char} (hw : IsGap w) (hc : isSeparator c = false)
    (v : List Char) : ∃ t r, scan (w ++ c :: v) = t :: r ∧ t.kind = Kind.ofFirst c := by
  have hhead : ∀ d ∈ (c :: v).head?, isSeparator d = false := by
    rintro d ⟨⟩
    exact hc
  have hnext : next? (w ++ c :: v) =
      if c.isDigit then some (ofNumeral (numeral (c :: v)).1, (numeral (c :: v)).2)
      else some (ofSymbol c, v) := by
    unfold next?
    rw [(span_eq hw hhead).2]
  unfold Kind.ofFirst
  split at hnext
  · next hd => exact ⟨_, _, scan_of_next?_eq_some hnext, (if_pos hd).symm⟩
  · next hd => exact ⟨_, _, scan_of_next?_eq_some hnext, (if_neg hd).symm⟩

/-- Whether a lexeme ends in front of a text is told by the first character of the text. -/
theorem endsBefore_of_append_cons {l u v : List Char} {c : Char} (h : EndsBefore l (u ++ c :: v)) :
    EndsBefore l u ∧ ∀ v', EndsBefore l (u ++ c :: v') := by
  cases u with
  | nil => exact ⟨nofun, fun _ => h⟩
  | cons d u => exact ⟨h, fun _ => h⟩

/-- The character with which a token begins fixes its kind and the tokens in front of it, whatever comes
behind the character. -/
theorem exists_cut_of_scan {cs : List Char} {q r : List Token} {t : Token} (h : scan cs = q ++ t :: r) :
    ∃ u c v, cs = u ++ c :: v ∧ scan u = q ∧
      ∀ v', ∃ t' r', scan (u ++ c :: v') = q ++ t' :: r' ∧ t'.kind = t.kind := by
  induction cs using scan.induct generalizing q with
  | case1 cs hn =>
    rw [scan_of_next?_eq_none hn] at h
    simp at h
  | case2 cs t₁ later hn ih =>
    obtain ⟨w, l, rfl, hw, hl, hends, rfl⟩ := next?_eq_some_iff.mp hn
    rw [scan_of_next?_eq_some hn] at h
    cases q with
    | nil =>
      obtain ⟨c, l, rfl⟩ := List.exists_cons_of_ne_nil hl.ne_nil
      obtain ⟨rfl, -⟩ := List.cons.inj h
      refine ⟨w, c, l ++ later, rfl, scan_of_next?_eq_none (next?_of_isGap hw), fun v' => ?_⟩
      rw [kind_ofLexeme_cons]
      exact exists_scan_eq_cons hw (hl.not_isSeparator List.mem_cons_self) v'
    | cons t₂ q =>
      obtain ⟨rfl, hlater⟩ := List.cons.inj h
      obtain ⟨u, c, v, rfl, hu, hcut⟩ := ih hlater
      obtain ⟨hendsu, hendsv⟩ := endsBefore_of_append_cons hends
      refine ⟨w ++ (l ++ u), c, v, by simp, ?_, fun v' => ?_⟩
      · rw [scan_lexeme hw hl hendsu, hu]
      · obtain ⟨t', r', hscan, hkind⟩ := hcut v'
        refine ⟨t', r', ?_, hkind⟩
        have hlexeme := scan_lexeme hw hl (hendsv v')
        rw [hscan] at hlexeme
        simpa using hlexeme

end Token

variable {text : String} {e : Expr}

/-! ## If more may follow -/

/-- The end of input cut off, the token ahead is of the same kind. -/
theorem kind_lookahead_beforeEnd (ts : List Token) :
    (lookahead (beforeEnd ts)).kind = (lookahead ts).kind := by
  cases ts with
  | nil => rfl
  | cons t ts =>
    unfold beforeEnd
    by_cases hend : t.kind = .endOfInput
    · simp [hend, lookahead, endOfInput]
    · simp [hend, lookahead]

/-- If more may follow, a text is read as the tree that its first tokens spell, if no operator is behind
them. -/
theorem parse_false_eq_ok_iff :
    Expr.parse false .unlimited text = .ok e ↔ ∃ q rest, scan text.toList = q ++ rest ∧
      Spells (.chain .sum) q e ∧ (lookahead rest).kind.tightness = 0 := by
  unfold Expr.parse
  rw [read_eq_sum]
  constructor
  · intro he
    obtain ⟨q, hq, hs, ht⟩ := sum_ok_iff.mp ⟨he, rfl⟩
    refine ⟨q, beforeEnd (sum .unlimited (tokenize text)).rest, ?_, hs, ?_⟩
    · rw [← beforeEnd_append (derives_of_spells hs), ← hq, beforeEnd_tokenize]
    · rwa [kind_lookahead_beforeEnd]
  · rintro ⟨q, rest, hq, hs, ht⟩
    have htokens : tokenize text = q ++ (rest ++ [endOfInput]) := by
      rw [tokenize, hq, List.append_assoc]
    have hahead : (lookahead (rest ++ [endOfInput])).kind.tightness = 0 := by
      cases rest with
      | nil => rfl
      | cons t rest => exact ht
    exact (sum_ok_iff.mpr ⟨q, htokens, hs, hahead⟩).1

/-- What is read of a text if nothing may follow is all of it. -/
theorem eq_nil_of_spells {q rest : List Token} {e' : Expr} (h : Spells (.chain .sum) q e)
    (hall : Spells (.chain .sum) (q ++ rest) e') (ht : (lookahead rest).kind.tightness = 0) : rest = [] := by
  obtain ⟨-, hrest⟩ := sum_ok_iff.mpr ⟨q, rfl, h, ht⟩
  obtain ⟨-, hnone⟩ := sum_ok_iff.mpr ⟨q ++ rest, (List.append_nil _).symm, hall, rfl⟩
  exact hrest.symm.trans hnone

/-! ## The longest prefix -/

/-- The prefix of the text is read if nothing may follow, and no longer one is. -/
structure IsLongestRead (text front : String) : Prop where
  isPrefix : front.toList <+: text.toList
  reads : ∃ e, Expr.parse true .unlimited front = .ok e
  length_le : ∀ longer : String, longer.toList <+: text.toList →
    (∃ e, Expr.parse true .unlimited longer = .ok e) → longer.toList.length ≤ front.toList.length

theorem IsLongestRead.eq {front front' : String} (h : IsLongestRead text front)
    (h' : IsLongestRead text front') : front = front' := by
  have hlength : front.toList.length = front'.toList.length :=
    Nat.le_antisymm (h'.length_le _ h.isPrefix h.reads) (h.length_le _ h'.isPrefix h'.reads)
  have hbegins : front.toList <+: front'.toList :=
    List.prefix_of_prefix_length_le h.isPrefix h'.isPrefix (Nat.le_of_eq hlength)
  exact String.toList_inj.mp (hbegins.eq_of_length hlength)

/-- A text of which only the front is read: the front is read if nothing may follow, and it is read of all
texts that begin with it and with the character behind it, none of which is read if nothing may follow. -/
theorem exists_front {fault : Fault} (h : Expr.parse false .unlimited text = .ok e)
    (herror : Expr.parse true .unlimited text = .error fault) :
    ∃ u c v, text.toList = u ++ c :: v ∧ Expr.parse true .unlimited (String.ofList u) = .ok e ∧
      ∀ v' : List Char, Expr.parse false .unlimited (String.ofList (u ++ c :: v')) = .ok e ∧
        ∀ e', Expr.parse true .unlimited (String.ofList (u ++ c :: v')) ≠ .ok e' := by
  obtain ⟨q, rest, hscan, hs, ht⟩ := parse_false_eq_ok_iff.mp h
  cases rest with
  | nil =>
    rw [List.append_nil] at hscan
    rw [parse_eq_ok_iff.mpr (hscan ▸ hs)] at herror
    cases herror
  | cons t r =>
    obtain ⟨u, c, v, htext, hu, hcut⟩ := exists_cut_of_scan hscan
    refine ⟨u, c, v, htext, parse_eq_ok_iff.mpr (by rwa [String.toList_ofList, hu]), fun v' => ?_⟩
    obtain ⟨t', r', hscan', hkind⟩ := hcut v'
    have ht' : (lookahead (t' :: r')).kind.tightness = 0 := by
      show t'.kind.tightness = 0
      rw [hkind]
      exact ht
    refine ⟨parse_false_eq_ok_iff.mpr ⟨q, t' :: r', by rwa [String.toList_ofList], hs, ht'⟩, ?_⟩
    intro e' he'
    have hall := parse_eq_ok_iff.mp he'
    rw [String.toList_ofList, hscan'] at hall
    exact List.cons_ne_nil _ _ (eq_nil_of_spells hs hall ht')

/-- What is read of a text of which only the front is read is the longest prefix that is read if nothing
may follow. -/
theorem exists_isLongestRead {fault : Fault} (h : Expr.parse false .unlimited text = .ok e)
    (herror : Expr.parse true .unlimited text = .error fault) :
    ∃ front, IsLongestRead text front ∧ Expr.parse true .unlimited front = .ok e := by
  obtain ⟨u, c, v, htext, hfront, hmore⟩ := exists_front h herror
  refine ⟨String.ofList u, ⟨?_, ⟨e, hfront⟩, ?_⟩, hfront⟩
  · rw [htext, String.toList_ofList]
    exact List.prefix_append u _
  · rintro longer hbegins ⟨e', he'⟩
    rw [String.toList_ofList]
    refine Nat.le_of_not_lt fun hlt => ?_
    have hu : u ++ [c] <+: text.toList := ⟨v, by rw [htext, List.append_assoc]; rfl⟩
    have hlength : (u ++ [c]).length ≤ longer.toList.length := by
      rw [List.length_append, List.length_singleton]
      exact hlt
    obtain ⟨v', hv'⟩ := List.prefix_of_prefix_length_le hu hbegins hlength
    rw [List.append_assoc, List.singleton_append] at hv'
    refine (hmore v').2 e' ?_
    rwa [hv', String.ofList_toList]

/-- What comes behind a text of which only the front is read changes nothing. -/
theorem parse_append {fault : Fault} (h : Expr.parse false .unlimited text = .ok e)
    (herror : Expr.parse true .unlimited text = .error fault) (w : String) :
    Expr.parse false .unlimited (text ++ w) = .ok e := by
  obtain ⟨u, c, v, htext, -, hmore⟩ := exists_front h herror
  have happend : text ++ w = String.ofList (u ++ c :: (v ++ w.toList)) := by
    apply String.toList_inj.mp
    simp [htext]
  rw [happend]
  exact (hmore _).1

/-! ## The two ways of reading -/

/-- What is read if nothing may follow is read if more may, within the same budget. -/
theorem parse_false_of_true {b : Budget} (h : Expr.parse true b text = .ok e) :
    Expr.parse false b text = .ok e := by
  unfold Expr.parse at *
  rw [read_eq_sum]
  exact (read_true_ok_iff.mp h).1

/-- What is not read if more may follow is not read if nothing may, for the same reason. -/
theorem parse_true_of_error {b : Budget} {fault : Fault} (h : Expr.parse false b text = .error fault) :
    Expr.parse true b text = .error fault := by
  unfold Expr.parse at *
  rw [read_eq_sum] at h
  exact read_of_sum_eq_error true h

/-- If only the front of a text is read, the end of input is missing behind it, and the token there is
found instead. -/
theorem fault_of_parse {b : Budget} {fault : Fault} (h : Expr.parse false b text = .ok e)
    (herror : Expr.parse true b text = .error fault) :
    ∃ found later, tokenize text = (read false b (tokenize text)).taken ++ found :: later ∧
      fault = .unexpected .endOfInput found := by
  unfold Expr.parse at *
  rw [read_eq_sum] at h ⊢
  rw [read_of_sum_eq_ok true h, Bool.true_and] at herror
  have htaken := (sum b (tokenize text)).taken_append_rest
  cases hrest : (sum b (tokenize text)).rest with
  | nil =>
    rw [hrest] at herror
    cases herror
  | cons found later =>
    rw [hrest] at herror htaken
    refine ⟨found, later, htaken.symm, ?_⟩
    split at herror
    · cases herror
      rfl
    · cases herror

/-- What is read if nothing may follow is read if more may, and what is not read if more may follow fails for
the same reason if nothing may. If only the front of a text is read, the end of input is missing behind it;
it is the longest prefix that is read if nothing may follow, and it is what is read of the text whatever
comes behind that. -/
theorem parse_modes_agree (text : String) :
    (∀ b e, Expr.parse true b text = .ok e → Expr.parse false b text = .ok e) ∧
      (∀ b fault, Expr.parse false b text = .error fault → Expr.parse true b text = .error fault) ∧
      ∀ e fault, Expr.parse false .unlimited text = .ok e →
        Expr.parse true .unlimited text = .error fault →
        (∃ found later, tokenize text = (read false .unlimited (tokenize text)).taken ++ found :: later ∧
          fault = .unexpected .endOfInput found) ∧
        (∃ front, IsLongestRead text front ∧ Expr.parse true .unlimited front = .ok e ∧
          ∀ front', IsLongestRead text front' → front' = front) ∧
        ∀ w : String, Expr.parse false .unlimited (text ++ w) = .ok e := by
  refine ⟨fun b e => parse_false_of_true, fun b fault => parse_true_of_error, fun e fault h herror => ?_⟩
  obtain ⟨front, hlongest, hfront⟩ := exists_isLongestRead h herror
  exact ⟨fault_of_parse h herror, ⟨front, hlongest, hfront, fun _ h' => h'.eq hlongest⟩,
    parse_append h herror⟩

/-- Of `2.5.7` the number in front of the second point is read, whatever comes behind it all. -/
theorem parse_modes_agree_points :
    let e : Expr := .number (Double.ofNumeral ['2', '.', '5'])
    let fault : Fault := .unexpected .endOfInput (ofSymbol '.')
    Expr.parse false .unlimited "2.5.7" = .ok e ∧ Expr.parse true .unlimited "2.5.7" = .error fault ∧
      (∃ front, IsLongestRead "2.5.7" front ∧ Expr.parse true .unlimited front = .ok e) ∧
      ∀ w : String, Expr.parse false .unlimited ("2.5.7" ++ w) = .ok e := by
  intro e fault
  have hnumber : Spells (.chain .sum) [ofNumeral ['2', '.', '5']] e :=
    (Spelled.of_primary (spells_numeral _)).chain (show 1 ≤ 4 by decide)
  have htokens : tokenize "2.5.7" = [ofNumeral ['2', '.', '5']] ++
      [ofSymbol '.', ofNumeral ['7'], endOfInput] := by decide +kernel
  obtain ⟨hsum, hrest⟩ := sum_ok_iff.mpr ⟨_, htokens, hnumber, rfl⟩
  have h : Expr.parse false .unlimited "2.5.7" = .ok e := by
    unfold Expr.parse
    rw [read_eq_sum, hsum]
  have herror : Expr.parse true .unlimited "2.5.7" = .error fault := by
    unfold Expr.parse
    rw [read_of_sum_eq_ok true hsum, hrest]
    rfl
  obtain ⟨-, ⟨front, hlongest, hfront, -⟩, happend⟩ := (parse_modes_agree "2.5.7").2.2 e fault h herror
  exact ⟨h, herror, ⟨front, hlongest, hfront⟩, happend⟩

end Calculator
