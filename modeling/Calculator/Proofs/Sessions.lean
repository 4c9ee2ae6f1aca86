import Calculator.Proofs.Budgets
import Calculator.Proofs.Faults
import Calculator.Session

/-!
# What a session writes

The input of a session is cut into lines, and the lines in front of the first exit command are answered
one by one, each by itself. Nothing that a line holds breaks the session off. The level of the log bears on an
answer in one way only: where trees are recorded, a tree can be too deep for that.

**Results.**
* `lines_eq_cons`, `flatten_lines`: the lines are what is taken one after the other, and make up the input.
* `line_induction`: inputs are a line without a line feed, or a line with one and an input.
* `exists_content_append`: what counts of a line is all of it but the returns and line feeds at its end.
* `respond_eq_answer`: the answer to a line rests on its outcome and the prompt only, and nothing escapes.
* `run_answers_lines`: a session writes the answers to the lines in front of the exit command, and leaves
  those behind it.
-/
namespace Calculator.Session

/-! ## Lines -/

/-- The lines of an input, cut behind every line feed; the last one may have none. -/
def lines : List Char → List (List Char)
  | [] => []
  | c :: cs =>
    if c = '\n' then [c] :: lines cs
    else
      match lines cs with
      | [] => [[c]]
      | line :: later => (c :: line) :: later

/-- The lines make up the input. -/
theorem flatten_lines (cs : List Char) : (lines cs).flatten = cs := by
  induction cs with
  | nil => rfl
  | cons c cs ih =>
    unfold lines
    split
    · rw [List.flatten_cons, ih]
      rfl
    · split
      · next h =>
        rw [h] at ih
        rw [← ih]
        rfl
      · next line later h =>
        rw [h] at ih
        rw [← ih]
        rfl

/-- The first line is the one that is taken, and the others are those of the rest. -/
theorem lines_eq_cons (c : Char) (cs : List Char) :
    lines (c :: cs) = (takeLine (c :: cs)).1 :: lines (takeLine (c :: cs)).2 := by
  induction cs generalizing c with
  | nil =>
    unfold lines takeLine
    split <;> rfl
  | cons d cs ih =>
    rw [lines, takeLine]
    split
    · rfl
    · rw [ih d]

/-- An input is a last line without a line feed, or a line in front of an input. -/
@[elab_as_elim]
theorem line_induction {motive : List Char → Prop} (last : ∀ cs, '\n' ∉ cs → motive cs)
    (line : ∀ body rest, '\n' ∉ body → motive rest → motive (body ++ '\n' :: rest)) (cs : List Char) :
    motive cs := by
  induction hn : cs.length using Nat.strongRecOn generalizing cs with
  | ind n ih =>
    by_cases h : '\n' ∈ cs
    · obtain ⟨body, rest, rfl, hbody⟩ := List.eq_append_cons_of_mem h
      rw [List.length_append, List.length_cons] at hn
      exact line body rest hbody (ih rest.length (by omega) rest rfl)
    · exact last cs h

theorem takeLine_of_notMem {cs : List Char} (h : '\n' ∉ cs) : takeLine cs = (cs, []) := by
  induction cs with
  | nil => rfl
  | cons c cs ih =>
    have hc : c ≠ '\n' := fun heq => h (heq ▸ List.mem_cons_self)
    rw [takeLine, if_neg hc, ih fun hmem => h (List.mem_cons_of_mem c hmem)]

theorem takeLine_newline {body : List Char} (h : '\n' ∉ body) (rest : List Char) :
    takeLine (body ++ '\n' :: rest) = (body ++ ['\n'], rest) := by
  induction body with
  | nil => rfl
  | cons c body ih =>
    have hc : c ≠ '\n' := fun heq => h (heq ▸ List.mem_cons_self)
    rw [List.cons_append, takeLine, if_neg hc, ih fun hmem => h (List.mem_cons_of_mem c hmem)]
    rfl

theorem lines_newline {body : List Char} (h : '\n' ∉ body) (rest : List Char) :
    lines (body ++ '\n' :: rest) = (body ++ ['\n']) :: lines rest := by
  have hne : body ++ '\n' :: rest ≠ [] := by simp
  obtain ⟨c, cs, hcons⟩ := List.exists_cons_of_ne_nil hne
  have htake := takeLine_newline h rest
  rw [hcons] at htake ⊢
  rw [lines_eq_cons, htake]

/-- What is compared and worked out of a line. -/
def content (line : List Char) : String := String.ofList (stripped line)

/-- The content of a line is all of it but the returns and line feeds at its end. -/
theorem exists_content_append (line : List Char) :
    ∃ ends, line = (content line).toList ++ ends ∧ (∀ c ∈ ends, c = '\r' ∨ c = '\n') ∧
      ∀ c ∈ (content line).toList.getLast?, c ≠ '\r' ∧ c ≠ '\n' := by
  let isEnd : Char → Bool := fun c => c == '\r' || c == '\n'
  have hcontent : (content line).toList = (line.reverse.dropWhile isEnd).reverse := String.toList_ofList
  refine ⟨(line.reverse.takeWhile isEnd).reverse, ?_, fun c hc => ?_, fun c hc => ?_⟩
  · rw [hcontent, ← List.reverse_append, List.takeWhile_append_dropWhile, List.reverse_reverse]
  · have hend := List.all_eq_true.mp List.all_takeWhile c (List.mem_reverse.mp hc)
    simpa [isEnd] using hend
  · have hlast := List.head?_dropWhile_not isEnd line.reverse
    rw [hcontent, List.getLast?_reverse] at hc
    rw [Option.mem_def.mp hc] at hlast
    simpa [isEnd] using hlast

/-- Whether the line ends the session. -/
def isExit (settings : Settings) (line : List Char) : Bool :=
  settings.exitCommand = some (content line)

/-! ## Answers -/

/-- The answer to a line with the outcome. -/
def answer (prompt : String) : Except Fault Float → String
  | .ok value => prompt ++ Double.Layout.result.text value ++ "\n"
  | .error .tooDeep => "Error: expression nested too deeply\n"
  | .error fault => "Error: " ++ fault.message ++ "\n"

/-- The answer to a line rests on its outcome and the prompt only, and no fault escapes. -/
theorem respond_eq_answer (settings : Settings) (level : Log.Level) (b : Budget) (line : String) :
    (respond settings level b line).output =
        answer settings.prompt (evaluateAt level settings.strict b line) ∧
      (respond settings level b line).escaped = none := by
  have houtcome : (Evaluation.ofLine level settings.strict b line).outcome
      = evaluateAt level settings.strict b line := rfl
  unfold respond
  simp only [houtcome]
  rcases evaluateAt_cases level settings.strict b line with ⟨x, h⟩ | ⟨expected, found, h⟩ | ⟨-, h⟩
  · rw [h]
    exact ⟨rfl, rfl⟩
  · rw [h]
    exact ⟨rfl, rfl⟩
  · rw [h]
    exact ⟨rfl, rfl⟩

/-! ## The session -/

/-- The answers to lines, each behind its prompt. -/
def answers (settings : Settings) (level : Log.Level) (b : Budget) (ls : List (List Char)) : String :=
  String.join <| ls.map fun line =>
    settings.prompt ++ answer settings.prompt (evaluateAt level settings.strict b (content line))

theorem answers_cons (settings : Settings) (level : Log.Level) (b : Budget) (line : List Char)
    (ls : List (List Char)) :
    answers settings level b (line :: ls) =
      settings.prompt ++ answer settings.prompt (evaluateAt level settings.strict b (content line)) ++
        answers settings level b ls := String.join_cons

theorem answer?_of_isExit {settings : Settings} {line : List Char} (h : isExit settings line = true)
    (level : Log.Level) (b : Budget) : answer? settings level b line = none :=
  if_pos (of_decide_eq_true h)

theorem answer?_of_not_isExit {settings : Settings} {line : List Char}
    (h : isExit settings line = false) (level : Log.Level) (b : Budget) :
    answer? settings level b line = some (respond settings level b (content line)) :=
  if_neg (of_decide_eq_false h)

/-- The exit command ends the turns. -/
theorem turns_of_isExit {settings : Settings} {c : Char} {cs : List Char}
    (h : isExit settings (takeLine (c :: cs)).1 = true) (level : Log.Level) (b : Budget) :
    turns settings level b (c :: cs) =
      ⟨settings.prompt, [], String.ofList (takeLine (c :: cs)).2, none⟩ := by
  rw [turns, answer?_of_isExit h]

/-- After any other line the turns go on with the next one. -/
theorem turns_of_not_isExit {settings : Settings} {c : Char} {cs : List Char}
    (h : isExit settings (takeLine (c :: cs)).1 = false) (level : Log.Level) (b : Budget) :
    let reply := respond settings level b (content (takeLine (c :: cs)).1)
    let later := turns settings level b (takeLine (c :: cs)).2
    turns settings level b (c :: cs) =
      ⟨settings.prompt ++ reply.output ++ later.output, reply.log ++ later.log, later.unread,
        later.escaped⟩ := by
  have hescaped := (respond_eq_answer settings level b (content (takeLine (c :: cs)).1)).2
  rw [turns, answer?_of_not_isExit h]
  generalize respond settings level b (content (takeLine (c :: cs)).1) = reply at hescaped
  cases reply
  cases hescaped
  rfl

/-- A line that ends in a line feed, and what follows it. -/
theorem turns_newline (settings : Settings) (level : Log.Level) (b : Budget) {body : List Char}
    (h : '\n' ∉ body) (rest : List Char) :
    let line := body ++ ['\n']
    let reply := respond settings level b (content line)
    let later := turns settings level b rest
    turns settings level b (body ++ '\n' :: rest) =
      if isExit settings line then ⟨settings.prompt, [], String.ofList rest, none⟩
      else ⟨settings.prompt ++ reply.output ++ later.output, reply.log ++ later.log, later.unread,
        later.escaped⟩ := by
  intro line reply later
  have hne : body ++ '\n' :: rest ≠ [] := by simp
  obtain ⟨c, cs, hcons⟩ := List.exists_cons_of_ne_nil hne
  have htake := takeLine_newline h rest
  rw [hcons] at htake ⊢
  have hline : isExit settings (takeLine (c :: cs)).1 = isExit settings line := by rw [htake]
  cases hexit : isExit settings line with
  | true => rw [turns_of_isExit (hline.trans hexit), htake, if_pos rfl]
  | false => rw [turns_of_not_isExit (hline.trans hexit), htake, if_neg Bool.false_ne_true]

/-- The lines in front of the exit command are answered, and those behind it are left. -/
theorem turns_eq (settings : Settings) (level : Log.Level) (b : Budget) (cs : List Char) :
    let k := (lines cs).findIdx (isExit settings)
    (turns settings level b cs).output = answers settings level b ((lines cs).take k) ++ settings.prompt ∧
      (turns settings level b cs).unread = String.ofList ((lines cs).drop (k + 1)).flatten ∧
      (turns settings level b cs).escaped = none := by
  -- on the lines and not on the characters: each turn takes a whole line
  induction hls : lines cs generalizing cs with
  | nil =>
    obtain rfl : cs = [] := by rw [← flatten_lines cs, hls]; rfl
    rw [turns]
    exact ⟨(String.empty_append).symm, rfl, rfl⟩
  | cons line ls ih =>
    cases cs with
    | nil => cases hls
    | cons c cs =>
      rw [lines_eq_cons] at hls
      cases hls
      cases h : isExit settings (takeLine (c :: cs)).1 with
      | true =>
        rw [turns_of_isExit h, List.findIdx_cons, h]
        refine ⟨(String.empty_append).symm, ?_, rfl⟩
        rw [cond_true, List.drop_succ_cons, List.drop_zero, flatten_lines]
      | false =>
        obtain ⟨hout, hunread, hescaped⟩ := ih _ rfl
        rw [turns_of_not_isExit h, List.findIdx_cons, h]
        refine ⟨?_, hunread, hescaped⟩
        simp only
        rw [hout, (respond_eq_answer _ _ _ _).1, cond_false, List.take_succ_cons, answers_cons]
        simp only [String.append_assoc]

/-- A session shows how it is left, answers the lines in front of the exit command, shows its prompt once more
and leaves the lines behind. Each answer rests on what the line holds, on the prompt and on whether more may
follow an expression; and it is the same at every level of the log, but for lines whose trees are too deep to be
recorded where trees are. -/
theorem run_answers_lines (settings : Settings) (level : Log.Level) (b : Budget) (input : String) :
    let ls := lines input.toList
    let k := ls.findIdx (isExit settings)
    let transcript := run settings level b input
    ls.flatten = input.toList ∧
      transcript.output = "Type \"" ++ settings.exitCommand.getD "[]" ++ "\" to exit\n" ++
        (answers settings level b (ls.take k) ++ settings.prompt) ∧
      transcript.unread = String.ofList (ls.drop (k + 1)).flatten ∧
      transcript.escaped = none ∧
      ∀ line,
        let outcome := evaluateAt level settings.strict b (content line)
        (∃ ends, line = (content line).toList ++ ends ∧ (∀ c ∈ ends, c = '\r' ∨ c = '\n') ∧
          ∀ c ∈ (content line).toList.getLast?, c ≠ '\r' ∧ c ≠ '\n') ∧
        ((∃ x, outcome = .ok x) ∨ (∃ expected found, outcome = .error (.unexpected expected found)) ∨
          (b ≠ .unlimited ∧ outcome = .error .tooDeep)) ∧
        (outcome = evaluate settings.strict b (content line) ∨
          (level = .debug ∧ outcome = .error .tooDeep ∧ ∃ e,
            Expr.parse settings.strict b (content line) = .ok e ∧ ¬.units (3 * e.height) ≤ b)) := by
  intro ls k transcript
  obtain ⟨hout, hunread, hescaped⟩ := turns_eq settings level b input.toList
  have hrun : transcript.output = banner settings ++ (turns settings level b input.toList).output := rfl
  refine ⟨flatten_lines _, ?_, hunread, hescaped, fun line => ⟨exists_content_append line,
    evaluateAt_cases _ _ _ _, evaluateAt_eq_or _ _ _ _⟩⟩
  rw [hrun, hout]
  rfl

end Calculator.Session
