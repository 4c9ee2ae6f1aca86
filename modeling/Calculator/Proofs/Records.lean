import Calculator.Proofs.Literals
import Calculator.Proofs.Sessions

/-!
# What a session records

Some records show what a line holds: the line itself, the tree that it was read as, and the first token that
was ignored. The line is quoted, and so are the lexemes in the tree. The token is not, but no token of a text
holds a line feed, which is a separator. So every record is one line of the log, whatever the input and the
level of the log are; and what a line leaves is told from the records with which a session begins and ends by
the level of each.

**Results.**
* `isOneLine_describe`: the description of a tree that was read holds no line feed.
* `isOfLine_of_mem_respond`: what the records of a line are like.
* `log_turns`: the records of turns are those of the lines that are answered.
* `log_run`: the log of a session at a level.
* `log_run_is_lines`: the same where everything is recorded, and that each log is one line for each record.
-/
namespace Calculator

open Token Reader Text Double

/-! ## Texts without line feeds -/

/-- The text holds no line feed. -/
def IsOneLine (text : String) : Prop := '\n' ∉ text.toList

instance (text : String) : Decidable (IsOneLine text) := inferInstanceAs (Decidable ('\n' ∉ text.toList))

@[simp]
theorem isOneLine_append {s t : String} : IsOneLine (s ++ t) ↔ IsOneLine s ∧ IsOneLine t := by
  simp [IsOneLine]

@[simp]
theorem isOneLine_quoted (text : String) : IsOneLine (quoted text) := newline_notMem_quoted text

@[simp]
theorem isOneLine_literal (x : Float) : IsOneLine (Layout.literal.text x) := by
  intro hmem
  rcases Layout.writes_text x _ hmem with hdigit | hmark
  · cases hdigit
  · exact absurd hmark (by decide)

@[simp]
theorem isOneLine_toString (n : Nat) : IsOneLine (toString n) := by
  intro hmem
  have hdigits : (toString n).toList = Nat.toDigits 10 n := by simp
  rw [hdigits] at hmem
  have hdigit := Nat.isDigit_of_mem_toDigits (by decide) (by decide) hmem
  cases hdigit

@[simp]
theorem isOneLine_name (kind : Kind) : IsOneLine kind.name := by
  cases kind <;> decide

theorem isOneLine_message (expected : Kind) (found : Token) :
    IsOneLine (Fault.unexpected expected found).message := by
  have hmessage : (Fault.unexpected expected found).message =
      expected.name ++ " expected, found " ++ found.kind.name := rfl
  rw [hmessage, isOneLine_append, isOneLine_append]
  exact ⟨⟨isOneLine_name _, by decide⟩, isOneLine_name _⟩

/-! ## Tokens and trees -/

/-- No token of a text holds a separator. -/
theorem not_isSeparator_of_mem_tokenize {text : String} {t : Token} (h : t ∈ tokenize text) {c : Char}
    (hc : c ∈ t.lexeme.toList) : isSeparator c = false := by
  rcases List.mem_append.mp h with h | h
  · obtain ⟨l, hl, rfl⟩ := exists_lexeme_of_mem_scan h
    rw [lexeme_ofLexeme hl, String.toList_ofList] at hc
    exact hl.not_isSeparator hc
  · rw [List.mem_singleton.mp h] at hc
    cases hc

theorem isOneLine_shown {text : String} {t : Token} (h : t ∈ tokenize text) : IsOneLine t.shown := by
  have hlexeme : IsOneLine t.lexeme := by
    intro hmem
    have hseparator := not_isSeparator_of_mem_tokenize h hmem
    cases hseparator
  simp only [shown, isOneLine_append, isOneLine_name, hlexeme]
  decide

/-- What is ahead of a token list is one of its tokens, or an end of input. -/
theorem lookahead_mem_or_eq (ts : List Token) : lookahead ts ∈ ts ∨ lookahead ts = endOfInput := by
  cases ts with
  | nil => exact .inr rfl
  | cons t ts => exact .inl List.mem_cons_self

namespace Expr

@[simp]
theorem isOneLine_describeOperator (operator : Token) : IsOneLine (describeOperator operator) := by
  unfold describeOperator
  cases operator.value <;> simp <;> decide

/-- The description of a tree that was read holds no line feed. -/
theorem isOneLine_describe {t : Expr} (h : t.IsShaped) {b : Budget} {s : String}
    (hs : t.describe b = .ok s) : IsOneLine s := by
  induction t generalizing b s with
  | number value =>
    obtain ⟨_, -, hs⟩ := Fault.ok_of_bind hs
    cases hs
    simp only [isOneLine_append, isOneLine_literal]
    decide
  | paren inner ih =>
    obtain ⟨b', -, hs⟩ := Fault.ok_of_bind hs
    obtain ⟨u, hu, hs⟩ := Fault.ok_of_bind hs
    cases hs
    simp only [isOneLine_append, ih h hu]
    decide
  | unary operator operand ih =>
    obtain ⟨-, -, hoperand⟩ := h
    obtain ⟨b', -, hs⟩ := Fault.ok_of_bind hs
    obtain ⟨u, hu, hs⟩ := Fault.ok_of_bind hs
    cases hs
    simp only [isOneLine_append, isOneLine_describeOperator, ih hoperand hu]
    decide
  | binary left operator right ihl ihr =>
    obtain ⟨-, hl, hr⟩ := h
    obtain ⟨b', -, hs⟩ := Fault.ok_of_bind hs
    obtain ⟨u, hu, hs⟩ := Fault.ok_of_bind hs
    obtain ⟨v, hv, hs⟩ := Fault.ok_of_bind hs
    cases hs
    simp only [isOneLine_append, isOneLine_describeOperator, ihl hl hu, ihr hr hv]
    decide
  | stray => exact h.elim

end Expr

/-! ## The records of a line -/

namespace Log

/-- What can stand in a log of a level: a record that is shown at the level, and is one line. -/
structure Record.IsEntry (r : Record) (level : Log.Level) : Prop where
  rank_le : level.rank ≤ r.level.rank
  isOneLine : IsOneLine r.line

/-- An entry about a line is none that a session begins or ends with: those are the only ones at their level. -/
structure Record.IsOfLine (r : Record) (level : Log.Level) : Prop extends r.IsEntry level where
  level_ne : r.level ≠ .info

/-- A record is one line if its text is. -/
theorem Record.isOneLine_line {r : Record} (h : IsOneLine r.text) : IsOneLine r.line := by
  have horigin : IsOneLine r.origin.name := by
    cases r.origin <;> decide
  have hlevel : IsOneLine r.level.name := by
    cases r.level <;> decide
  simp only [line, isOneLine_append, horigin, hlevel, h]
  decide

variable {r s : Record} {level : Log.Level}

theorem Record.isEntry_of_mem_shown (h : r ∈ shown level [s]) (htext : IsOneLine s.text) : r.IsEntry level := by
  obtain ⟨hmem, hrank⟩ := mem_shown_iff.mp h
  obtain rfl := List.mem_singleton.mp hmem
  exact ⟨hrank, isOneLine_line htext⟩

theorem Record.isOfLine_of_mem_shown (h : r ∈ shown level [s]) (htext : IsOneLine s.text)
    (hlevel : s.level ≠ .info) : r.IsOfLine level := by
  refine ⟨isEntry_of_mem_shown h htext, ?_⟩
  rwa [List.mem_singleton.mp (mem_shown_iff.mp h).1]

end Log

open Log

variable {r : Record} {level : Log.Level} {b : Budget} {line : String}

namespace Evaluation

theorem isOfLine_of_mem_trailing {ahead : Token} (hahead : IsOneLine ahead.shown)
    (h : r ∈ Log.shown level (trailing ahead)) : r.IsOfLine level := by
  unfold trailing at h
  split at h
  · exact absurd h List.not_mem_nil
  · refine Record.isOfLine_of_mem_shown h ?_ nofun
    simp only [isOneLine_append, hahead]
    decide

theorem isOfLine_of_mem_readAs {expr : Expr} (hshaped : expr.IsShaped) {records : List Record}
    (hread : readAs level b line expr = .ok records) (h : r ∈ records) : r.IsOfLine level := by
  by_cases hlevel : level = .debug
  · rw [hlevel, readAs_debug] at hread
    cases htree : expr.describe b with
    | error fault =>
      rw [htree] at hread
      cases hread
    | ok tree =>
      rw [htree] at hread
      cases hread
      rw [hlevel]
      refine Record.isOfLine_of_mem_shown h ?_ nofun
      simp only [isOneLine_append, isOneLine_quoted, Expr.isOneLine_describe hshaped htree]
      decide
  · rw [readAs_of_ne_debug hlevel] at hread
    cases hread
    cases h

theorem isOfLine_of_mem_workedOut {outcome : Except Fault Float}
    (h : r ∈ Log.shown level (workedOut line outcome)) : r.IsOfLine level := by
  unfold workedOut at h
  split at h
  · refine Record.isOfLine_of_mem_shown h ?_ nofun
    simp only [isOneLine_append, isOneLine_quoted, isOneLine_literal]
    decide
  · exact absurd h List.not_mem_nil

/-- The token that is ignored is shown as it is, while the line and the lexemes in its tree are quoted. -/
theorem isOfLine_of_mem_log {strict : Bool} (h : r ∈ (ofLine level strict b line).log) :
    r.IsOfLine level := by
  have hahead : IsOneLine (lookahead (read strict b (tokenize line)).rest).shown := by
    rcases lookahead_mem_or_eq (read strict b (tokenize line)).rest with hmem | hend
    · exact isOneLine_shown ((read strict b (tokenize line)).isSuffix.subset hmem)
    · rw [hend]
      decide
  unfold ofLine at h
  simp only at h
  split at h
  · cases h
  · next expr hsum =>
    have hshaped := isShaped_of_sum (sum_of_read_eq_ok hsum)
    split at h
    · exact isOfLine_of_mem_trailing hahead h
    · next records hread =>
      simp only [List.mem_append] at h
      rcases h with (htrailing | htree) | hvalue
      · exact isOfLine_of_mem_trailing hahead htrailing
      · exact isOfLine_of_mem_readAs hshaped hread htree
      · exact isOfLine_of_mem_workedOut hvalue

end Evaluation

namespace Session

variable {settings : Settings}

/-- The records of the answer to a line are those of working it out, and one more if it is rejected. -/
theorem isOfLine_of_mem_respond (h : r ∈ (respond settings level b line).log) : r.IsOfLine level := by
  unfold respond at h
  simp only at h
  split at h
  · exact Evaluation.isOfLine_of_mem_log h
  · rcases List.mem_append.mp h with hbefore | hrejected
    · exact Evaluation.isOfLine_of_mem_log hbefore
    · refine Record.isOfLine_of_mem_shown hrejected ?_ nofun
      simp only [isOneLine_append, isOneLine_quoted, isOneLine_message]
      decide
  · rcases List.mem_append.mp h with hbefore | hrejected
    · exact Evaluation.isOfLine_of_mem_log hbefore
    · refine Record.isOfLine_of_mem_shown hrejected ?_ nofun
      simp only [isOneLine_append, isOneLine_toString]
      decide
  · exact Evaluation.isOfLine_of_mem_log h

/-! ## The log of a session -/

/-- The records of lines, one line after the other. -/
def records (settings : Settings) (level : Log.Level) (b : Budget) (ls : List (List Char)) : List Record :=
  ls.flatMap fun line => (respond settings level b (content line)).log

theorem isOfLine_of_mem_records {ls : List (List Char)} (h : r ∈ records settings level b ls) :
    r.IsOfLine level := by
  obtain ⟨line, -, hline⟩ := List.mem_flatMap.mp h
  exact isOfLine_of_mem_respond hline

/-- The records of turns are those of the lines in front of the exit command, and that of the end of the
input if there is no exit command. -/
theorem log_turns (settings : Settings) (level : Log.Level) (b : Budget) (cs : List Char) :
    let k := (lines cs).findIdx (isExit settings)
    (turns settings level b cs).log = records settings level b ((lines cs).take k) ++
      if k < (lines cs).length then [] else Log.shown level [inputEnded] := by
  -- on the lines and not on the characters: each turn takes a whole line
  induction hls : lines cs generalizing cs with
  | nil =>
    obtain rfl : cs = [] := by rw [← flatten_lines cs, hls]; rfl
    rw [turns]
    rfl
  | cons line ls ih =>
    cases cs with
    | nil => cases hls
    | cons c cs =>
      rw [lines_eq_cons] at hls
      cases hls
      cases h : isExit settings (takeLine (c :: cs)).1 with
      | true =>
        rw [turns_of_isExit h, List.findIdx_cons, h]
        rfl
      | false =>
        have hlater := ih _ rfl
        simp only at hlater
        rw [turns_of_not_isExit h, List.findIdx_cons, h]
        simp [records, hlater]

/-- A session records that it begins and ends, and in between what its turns do. -/
theorem log_run (settings : Settings) (level : Log.Level) (b : Budget) (input : String) :
    let ls := lines input.toList
    let k := ls.findIdx (isExit settings)
    (run settings level b input).log = Log.shown level [started] ++
      (records settings level b (ls.take k) ++
        (if k < ls.length then [] else Log.shown level [inputEnded]) ++ Log.shown level [finished]) := by
  intro ls k
  obtain ⟨-, -, hescaped⟩ := turns_eq settings level b input.toList
  have hrun : (run settings level b input).log =
      Log.shown level [started] ++ (turns settings level b input.toList).log ++
        if (turns settings level b input.toList).escaped.isSome then [] else Log.shown level [finished] := rfl
  rw [hrun, hescaped, log_turns, List.append_assoc]
  rfl

/-- Every record of a session is shown at the level of the log, and is one line. -/
theorem isEntry_of_mem_run {input : String} (h : r ∈ (run settings level b input).log) : r.IsEntry level := by
  rw [log_run] at h
  simp only [List.mem_append] at h
  rcases h with hstarted | (hrecord | hended) | hfinished
  · exact Record.isEntry_of_mem_shown hstarted (by decide)
  · exact (isOfLine_of_mem_records hrecord).toIsEntry
  · split at hended
    · cases hended
    · exact Record.isEntry_of_mem_shown hended (by decide)
  · exact Record.isEntry_of_mem_shown hfinished (by decide)

/-- Where everything is recorded, that the input ended is recorded just if no line is the exit command. -/
theorem inputEnded_mem_run_iff {input : String} :
    inputEnded ∈ (run settings .debug b input).log ↔
      ∀ line ∈ lines input.toList, isExit settings line = false := by
  have hrecords : ∀ ls, inputEnded ∉ records settings .debug b ls := fun ls hmem =>
    (isOfLine_of_mem_records hmem).level_ne rfl
  have hstarted : inputEnded ∉ Log.shown .debug [started] := by decide
  have hfinished : inputEnded ∉ Log.shown .debug [finished] := by decide
  have hended : inputEnded ∈ Log.shown .debug [inputEnded] := by decide
  rw [log_run]
  by_cases hk : (lines input.toList).findIdx (isExit settings) < (lines input.toList).length
  · have hexit : ∃ line ∈ lines input.toList, isExit settings line = true := List.findIdx_lt_length.mp hk
    simp only [hk, if_true]
    simpa [hrecords, hstarted, hfinished] using hexit
  · have hnone : ¬∃ line ∈ lines input.toList, isExit settings line = true := mt List.findIdx_lt_length.mpr hk
    simp only [hk, if_false]
    simpa [hrecords, hstarted, hfinished, hended] using hnone

/-- The log as it is written down: each record and a line feed. -/
def written (log : List Record) : List Char := log.flatMap fun r => r.line.toList ++ ['\n']

/-- Records that are one line each are the lines of the log. -/
theorem lines_written {log : List Record} (h : ∀ r ∈ log, IsOneLine r.line) :
    lines (written log) = log.map fun r => r.line.toList ++ ['\n'] := by
  induction log with
  | nil => rfl
  | cons r log ih =>
    obtain ⟨hr, hlog⟩ := List.forall_mem_cons.mp h
    have hwritten : written (r :: log) = r.line.toList ++ '\n' :: written log := by
      simp [written]
    rw [hwritten, lines_newline hr, ih hlog, List.map_cons]

/-- Where everything is recorded, a session records that it begins and ends, in between what the lines in front of
the exit command leave, one after the other, and if there is no such command that the input ended. At every level
each record is a line of the log as it is written down; and no line leaves a record of the level at which a
session begins and ends. -/
theorem log_run_is_lines (settings : Settings) (b : Budget) (input : String) :
    let ls := lines input.toList
    let k := ls.findIdx (isExit settings)
    let log := (run settings .debug b input).log
    let ended : Record := ⟨.console, .info, "End of input, leaving"⟩
    log = ⟨.console, .info, "Session started"⟩ ::
        ((ls.take k).flatMap (fun line => (respond settings .debug b (content line)).log) ++
          (if k < ls.length then [] else [ended]) ++ [⟨.console, .info, "Session finished"⟩]) ∧
      (ended ∈ log ↔ ∀ line ∈ ls, isExit settings line = false) ∧
      ∀ level,
        let log := (run settings level b input).log
        (∀ line, ∀ r ∈ (respond settings level b line).log, r.level ≠ .info) ∧
          (∀ r ∈ log, level.rank ≤ r.level.rank ∧ '\n' ∉ r.line.toList) ∧
          lines (written log) = log.map fun r => r.line.toList ++ ['\n'] := by
  intro ls k log ended
  refine ⟨log_run settings .debug b input, inputEnded_mem_run_iff, fun level => ⟨?_, ?_, ?_⟩⟩
  · exact fun line r hr => (isOfLine_of_mem_respond hr).level_ne
  · intro r hr
    have hentry := isEntry_of_mem_run hr
    exact ⟨hentry.rank_le, hentry.isOneLine⟩
  · exact lines_written fun r hr => (isEntry_of_mem_run hr).isOneLine

end Session

end Calculator
