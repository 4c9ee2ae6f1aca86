import Calculator.Proofs.Sessions

/-!
# Line ends

The carriage returns in front of a line feed are stripped with it. So they can be put in front of the line
feeds of an input, any number in front of each, and the session stays the same. The input that is left has
its own returns, those of the line feeds that are in it; a last line without a line feed has no place for any.

**Results.**
* `content_append`: what is at the end of a line but returns and line feeds is no part of its content.
* `turns_withReturns`: turns do not tell whether there are returns, and leave those that they do not reach.
* `run_withReturns`: the same of sessions.
-/
namespace Calculator.Session

variable {cs body : List Char}

/-- The text with carriage returns in front of its line feeds, `returns n` in front of the one that has `n`
others before it. -/
def withReturns (returns : Nat → Nat) : List Char → List Char
  | [] => []
  | c :: cs =>
    if c = '\n' then List.replicate (returns 0) '\r' ++ '\n' :: withReturns (fun n => returns (n + 1)) cs
    else c :: withReturns returns cs

/-- Two returns in front of the first line feed and none in front of the second. -/
example : withReturns (fun n => 2 - 2 * n) "1+2\n\\q\n3".toList = "1+2\r\r\n\\q\n3".toList := by decide

theorem withReturns_of_notMem (h : '\n' ∉ cs) (returns : Nat → Nat) : withReturns returns cs = cs := by
  induction cs with
  | nil => rfl
  | cons c cs ih =>
    have hc : c ≠ '\n' := fun heq => h (heq ▸ List.mem_cons_self)
    rw [withReturns, if_neg hc, ih fun hmem => h (List.mem_cons_of_mem c hmem)]

/-- The first line gets its returns, and the line feeds behind it get the later ones. -/
theorem withReturns_newline (h : '\n' ∉ body) (rest : List Char) (returns : Nat → Nat) :
    withReturns returns (body ++ '\n' :: rest) =
      body ++ List.replicate (returns 0) '\r' ++ '\n' :: withReturns (fun n => returns (n + 1)) rest := by
  induction body with
  | nil => simp [withReturns]
  | cons c body ih =>
    have hc : c ≠ '\n' := fun heq => h (heq ▸ List.mem_cons_self)
    rw [List.cons_append, withReturns, if_neg hc, ih fun hmem => h (List.mem_cons_of_mem c hmem)]
    rfl

/-! ## The end of a line -/

theorem stripped_append {ends : List Char} (h : ∀ c ∈ ends, c = '\r' ∨ c = '\n') (body : List Char) :
    stripped (body ++ ends) = stripped body := by
  have hends : ∀ c ∈ ends.reverse, (c == '\r' || c == '\n') = true := by
    intro c hc
    simpa using h c (List.mem_reverse.mp hc)
  unfold stripped
  rw [List.reverse_append, List.dropWhile_append_of_pos hends]

/-- Returns and line feeds at the end of a line are no part of its content. -/
theorem content_append {ends : List Char} (h : ∀ c ∈ ends, c = '\r' ∨ c = '\n') (body : List Char) :
    content (body ++ ends) = content body := by
  unfold content
  rw [stripped_append h]

/-- So the content is the same with returns in front of the line feed. -/
theorem content_returns (body : List Char) (n : Nat) :
    content (body ++ List.replicate n '\r' ++ ['\n']) = content (body ++ ['\n']) := by
  have hnewline : ∀ c ∈ ['\n'], c = '\r' ∨ c = '\n' := by simp
  have hreturns : ∀ c ∈ List.replicate n '\r', c = '\r' ∨ c = '\n' := by
    intro c hc
    exact .inl (List.eq_of_mem_replicate hc)
  rw [content_append hnewline, content_append hnewline, content_append hreturns]

/-! ## Sessions -/

theorem unread_of_notMem (settings : Settings) (level : Log.Level) (b : Budget) (h : '\n' ∉ cs) :
    (turns settings level b cs).unread = "" := by
  have hunread := (turns_eq settings level b cs).2.1
  rw [hunread]
  cases cs with
  | nil => rfl
  | cons c cs =>
    rw [lines_eq_cons, takeLine_of_notMem h]
    simp [lines]

/-- Turns do not tell whether there are returns, and leave those that they do not reach. -/
theorem turns_withReturns (settings : Settings) (level : Log.Level) (b : Budget) (cs : List Char)
    (returns : Nat → Nat) :
    let plain := turns settings level b cs
    let other := turns settings level b (withReturns returns cs)
    other.output = plain.output ∧ other.log = plain.log ∧ other.escaped = plain.escaped ∧
      ∃ taken, cs = taken ++ plain.unread.toList ∧
        other.unread.toList = withReturns (fun n => returns (n + taken.count '\n')) plain.unread.toList := by
  induction cs using line_induction generalizing returns with
  | last cs h =>
    simp only
    rw [withReturns_of_notMem h, unread_of_notMem settings level b h]
    exact ⟨rfl, rfl, rfl, cs, (List.append_nil cs).symm, rfl⟩
  | line body rest hbody ih =>
    have hreturns : '\n' ∉ body ++ List.replicate (returns 0) '\r' := by
      simp [hbody]
    have hexit : isExit settings (body ++ List.replicate (returns 0) '\r' ++ ['\n']) =
        isExit settings (body ++ ['\n']) := by
      unfold isExit
      rw [content_returns]
    have hcount : (body ++ ['\n']).count '\n' = 1 := by
      rw [List.count_append, List.count_eq_zero.mpr hbody]
      rfl
    rw [withReturns_newline hbody]
    simp only
    rw [turns_newline settings level b hreturns, turns_newline settings level b hbody, hexit, content_returns]
    cases h : isExit settings (body ++ ['\n']) with
    | true =>
      -- the returns of what is left are counted on from the line that was taken
      simp only [if_true, String.toList_ofList]
      refine ⟨trivial, trivial, trivial, body ++ ['\n'], by simp, ?_⟩
      rw [hcount]
    | false =>
      obtain ⟨houtput, hlog, hescaped, taken, hrest, hunread⟩ := ih fun n => returns (n + 1)
      simp only [Bool.false_eq_true, if_false, houtput, hlog, hescaped]
      refine ⟨trivial, trivial, trivial, body ++ ['\n'] ++ taken, ?_, ?_⟩
      · simp [← hrest]
      · rw [hunread, List.count_append, hcount]
        simp only [Nat.add_assoc, Nat.add_comm 1]

/-- At every level a session writes and records the same if carriage returns are put in front of the line feeds
of its input, and what it leaves has the returns that were put there. -/
theorem run_withReturns (settings : Settings) (level : Log.Level) (b : Budget) (input : String)
    (returns : Nat → Nat) :
    let plain := run settings level b input
    let other := run settings level b (String.ofList (withReturns returns input.toList))
    other.output = plain.output ∧ other.log = plain.log ∧ other.escaped = plain.escaped ∧
      ∃ taken, input.toList = taken ++ plain.unread.toList ∧
        other.unread.toList = withReturns (fun n => returns (n + taken.count '\n')) plain.unread.toList := by
  intro plain other
  obtain ⟨houtput, hlog, hescaped, hunread⟩ := turns_withReturns settings level b input.toList returns
  have hother : other = run settings level b (String.ofList (withReturns returns input.toList)) := rfl
  unfold run at hother
  simp only [String.toList_ofList, houtput, hlog, hescaped] at hother
  rw [hother]
  exact ⟨rfl, rfl, rfl, hunread⟩

end Calculator.Session
