import Calculator.Proofs.Stops

/-!
# Reading step after step

A reader can be asked again and again, whatever came of the step before. Each step goes on from the tokens
that the one before it left. What it takes is the expression that it gives, or, when it fails, as much of one
as there was, and a numeral without a value with it. So no token is lost and none is taken twice, and the end
of input is never taken. A step that fails before it has taken anything leaves things as they were, so that
all later steps fail in the same way.

**Results.**
* `answers_step`: what a step takes is told by what comes of it.
* `kind_ne_of_answers`: the end of input is never taken.
* `flatMap_taken_append`: what the steps take, in order, and what is left are the tokens.
* `repeats_of_isStuck`: after a step that fails without taking a token, all do.
* `steps_lose_no_token`: all of this, of each run of steps.
-/
namespace Calculator.Reader

open Token Grammar

/-- A step: whether nothing may follow, what comes of it, the tokens that it takes and those that it leaves. -/
structure Step where
  strict : Bool
  result : Except Fault Expr
  taken : List Token
  rest : List Token

/-- Reads one expression. -/
def step (b : Budget) (strict : Bool) (ts : List Token) : Step :=
  ⟨strict, (read strict b ts).result, (read strict b ts).taken, (read strict b ts).rest⟩

/-- Reads one expression after the other, each from the tokens that the one before it left. -/
def steps (b : Budget) : List Bool → List Token → List Step
  | [], _ => []
  | strict :: later, ts => step b strict ts :: steps b later (step b strict ts).rest

namespace Step

/-- What a step takes is told by what comes of it: the expression; if the end of input is missing, an
expression; if something else is, the tokens behind which it is; and if that is a number, a numeral without
a value may have been taken for it. -/
def Answers (s : Step) : Prop :=
  match s.result with
  | .ok e => Spells (.chain .sum) s.taken e
  | .error (.unexpected missing found) =>
    found = lookahead s.rest ∧
      (Stops (.chain .sum) s.taken missing ∨
        s.strict = true ∧ missing = .endOfInput ∧ ∃ e, Spells (.chain .sum) s.taken e)
  | .error (.missingValue literal) =>
    literal.kind = .number ∧ literal.value = none ∧
      ∃ q, s.taken = q ++ [literal] ∧ Stops (.chain .sum) q .number
  | .error _ => False

/-- The step fails, and takes nothing. -/
def IsStuck (s : Step) : Prop := s.taken = [] ∧ ∃ fault, s.result = .error fault

/-- The later step `s'` comes to the same, and takes nothing. -/
def Repeats (s s' : Step) : Prop := s'.result = s.result ∧ s'.taken = [] ∧ s'.rest = s.rest

end Step

variable {b : Budget} {strict : Bool} {ts q : List Token} {e : Expr} {s : Step}

/-! ## One step -/

theorem taken_append_step (b : Budget) (strict : Bool) (ts : List Token) :
    (step b strict ts).taken ++ (step b strict ts).rest = ts :=
  (read strict b ts).taken_append_rest

/-- The tokens of a sum are some. -/
theorem ne_nil_of_spells (h : Spells (.chain .sum) q e) : q ≠ [] := by
  rintro rfl
  have hreads : Reads .unlimited (.chain .sum) ([] ++ []) _ [] :=
    reads_of_stops Stops.primary.sum_of_primary rfl
  have herror := (sum_eq_of_reads hreads).1
  have hok : (sum .unlimited []).result = .ok e := (sum_ok_iff.mpr ⟨[], rfl, h, rfl⟩).1
  rw [List.append_nil, hok] at herror
  cases herror

/-- What is read is spelled by the tokens that are taken. -/
theorem spells_taken (h : (sum b ts).result = .ok e) : Spells (.chain .sum) (sum b ts).taken e := by
  have hreads := reads_sum b ts
  rw [h] at hreads
  obtain ⟨q, hq, hs, -⟩ := spells_of_reads hreads trivial
  rwa [Reading.taken_eq _ hq]

theorem taken_read (strict : Bool) (b : Budget) (ts : List Token) :
    (read strict b ts).taken = (sum b ts).taken := by
  unfold Reading.taken
  rw [rest_read]

/-- What a step takes is told by what comes of it. -/
theorem answers_step (strict : Bool) (ts : List Token) : (step .unlimited strict ts).Answers := by
  unfold Step.Answers step
  simp only [taken_read, rest_read]
  cases hsum : (sum .unlimited ts).result with
  | ok e =>
    have hs := spells_taken hsum
    rw [read_of_sum_eq_ok strict hsum]
    cases strict with
    | false => exact hs
    | true =>
      cases hend : (lookahead (sum .unlimited ts).rest).kind != .endOfInput with
      | false => exact hs
      | true => exact ⟨rfl, .inr ⟨rfl, rfl, e, hs⟩⟩
  | error fault =>
    have hreads := reads_sum .unlimited ts
    rw [hsum] at hreads
    rw [read_of_sum_eq_error strict hsum]
    rcases stops_or_tooDeep_of_reads hreads with ⟨q, ahead, missing, hq, hs, href⟩ | ⟨-, hlimit⟩
    · cases href with
      | unexpected _ =>
        rw [Reading.taken_eq _ hq]
        exact ⟨rfl, .inl hs⟩
      | @missingValue literal _ hk hv =>
        have htaken := Reading.taken_eq (sum .unlimited ts) (q := q ++ [literal]) (by simpa using hq)
        exact ⟨hk, hv, q, htaken, hs⟩
    · exact absurd rfl hlimit

/-- The end of input is never taken. -/
theorem kind_ne_of_answers (h : s.Answers) : ∀ t ∈ s.taken, t.kind ≠ .endOfInput := by
  unfold Step.Answers at h
  split at h
  · exact fun t ht => (kind_of_spells h t ht).1
  · rcases h.2 with hs | ⟨-, -, e, hs⟩
    · exact fun t ht => (kind_of_stops hs t ht).1
    · exact fun t ht => (kind_of_spells hs t ht).1
  · obtain ⟨hk, -, q, hq, hs⟩ := h
    rw [hq]
    intro t ht
    rcases List.mem_append.mp ht with ht | ht
    · exact (kind_of_stops hs t ht).1
    · simp_all
  · exact h.elim

/-- What fails without taking a token fails in the same way again, whether more may follow or not. -/
theorem repeats_step (h : (step b strict ts).IsStuck) (strict' : Bool) :
    (step b strict' ts).rest = ts ∧ (step b strict ts).Repeats (step b strict' ts) := by
  obtain ⟨hnil, -⟩ := h
  have htaken : (step b strict' ts).taken = [] := by
    rw [← hnil]
    exact (taken_read strict' b ts).trans (taken_read strict b ts).symm
  have hrest := taken_append_step b strict' ts
  rw [htaken, List.nil_append] at hrest
  cases hsum : (sum b ts).result with
  | ok e => exact absurd ((taken_read strict b ts).symm.trans hnil) (ne_nil_of_spells (spells_taken hsum))
  | error fault =>
    have hresult : (step b strict' ts).result = (step b strict ts).result :=
      (read_of_sum_eq_error strict' hsum).trans (read_of_sum_eq_error strict hsum).symm
    exact ⟨hrest, hresult, htaken, (rest_read strict' b ts).trans (rest_read strict b ts).symm⟩

/-! ## A run of steps -/

theorem readEach_eq_steps (b : Budget) (kinds : List Bool) (ts : List Token) :
    (readEach b kinds ts).1 = (steps b kinds ts).map Step.result := by
  induction kinds generalizing ts with
  | nil => rfl
  | cons strict kinds ih => simp [readEach, steps, step, ih]

/-- What the steps take, in order, and what is left are the tokens. -/
theorem flatMap_taken_append (b : Budget) (kinds : List Bool) (ts : List Token) :
    (steps b kinds ts).flatMap Step.taken ++ (readEach b kinds ts).2 = ts := by
  induction kinds generalizing ts with
  | nil => rfl
  | cons strict kinds ih =>
    rw [steps, List.flatMap_cons, List.append_assoc]
    exact (congrArg (_ ++ ·) (ih _)).trans (taken_append_step b strict ts)

theorem exists_step_of_mem {kinds : List Bool} (h : s ∈ steps b kinds ts) :
    ∃ strict us, s = step b strict us := by
  induction kinds generalizing ts with
  | nil => cases h
  | cons strict kinds ih =>
    rcases List.mem_cons.mp h with rfl | h
    · exact ⟨strict, ts, rfl⟩
    · exact ih h

/-- After a step that fails without taking a token, all do. -/
theorem repeats_of_isStuck (h : (step b strict ts).IsStuck) {kinds : List Bool} {s : Step}
    (hs : s ∈ steps b kinds ts) : (step b strict ts).Repeats s := by
  induction kinds with
  | nil => cases hs
  | cons strict' kinds ih =>
    obtain ⟨hrest, hrepeats⟩ := repeats_step h strict'
    rcases List.mem_cons.mp hs with rfl | hs
    · exact hrepeats
    · rw [hrest] at hs
      exact ih hs

/-- A step that is stuck is repeated by all that come after it. -/
theorem pairwise_steps (b : Budget) (kinds : List Bool) (ts : List Token) :
    (steps b kinds ts).Pairwise fun s s' => s.IsStuck → s.Repeats s' := by
  induction kinds generalizing ts with
  | nil => exact .nil
  | cons strict kinds ih =>
    refine .cons (fun s' hs' hstuck => ?_) (ih _)
    have hrest := (repeats_step hstuck strict).1
    rw [hrest] at hs'
    exact repeats_of_isStuck hstuck hs'

/-- Of each run of steps: what they take, in order, and what is left are the tokens, also up to the end of
input, which is never taken. What a step takes is told by what comes of it, and an expression has a token.
A step that fails without taking a token is repeated by all that come after it. -/
theorem steps_lose_no_token (kinds : List Bool) (ts : List Token) :
    let run := steps .unlimited kinds ts
    let rest := (readEach .unlimited kinds ts).2
    (readEach .unlimited kinds ts).1 = run.map Step.result ∧
      (∀ us, read false .unlimited us = sum .unlimited us) ∧
      run.flatMap Step.taken ++ rest = ts ∧
      run.flatMap Step.taken ++ beforeEnd rest = beforeEnd ts ∧
      (∀ s ∈ run, s.Answers ∧ ((∃ e, s.result = .ok e) → s.taken ≠ []) ∧
        ∀ t ∈ s.taken, t.kind ≠ .endOfInput) ∧
      run.Pairwise fun s s' => s.IsStuck → s.Repeats s' := by
  intro run rest
  have htaken : run.flatMap Step.taken ++ rest = ts := flatMap_taken_append .unlimited kinds ts
  have hanswers : ∀ s ∈ run, s.Answers := by
    intro s hs
    obtain ⟨strict, us, rfl⟩ := exists_step_of_mem hs
    exact answers_step strict us
  have hend : ∀ t ∈ run.flatMap Step.taken, (t.kind != .endOfInput) = true := by
    intro t ht
    obtain ⟨s, hs, ht⟩ := List.mem_flatMap.mp ht
    exact bne_iff_ne.mpr (kind_ne_of_answers (hanswers s hs) t ht)
  refine ⟨readEach_eq_steps .unlimited kinds ts, read_eq_sum .unlimited, htaken, ?_, ?_,
    pairwise_steps .unlimited kinds ts⟩
  · calc run.flatMap Step.taken ++ beforeEnd rest
        = beforeEnd (run.flatMap Step.taken ++ rest) := (List.takeWhile_append_of_pos hend).symm
      _ = beforeEnd ts := by rw [htaken]
  · intro s hs
    refine ⟨hanswers s hs, ?_, kind_ne_of_answers (hanswers s hs)⟩
    rintro ⟨e, he⟩
    have hspells := hanswers s hs
    unfold Step.Answers at hspells
    rw [he] at hspells
    exact ne_nil_of_spells hspells

end Calculator.Reader
