import Calculator.Options
import Mathlib.Data.List.Perm.Basic
import Mathlib.Data.List.TakeWhile

/-!
# Configurations on the command line

A configuration gives some of the settings and leaves the others as they are by default. Each setting that it
gives is one argument, a value being attached with an equals sign, so that nothing in the value is taken for
an option: it may be empty, begin with a minus, or have equals signs, spaces and line feeds in it. Only a value
that is two minuses alone does not arrive.

The arguments may come in any order, since settings of different options do not touch each other; and of two
settings of one option the later one counts.

**Results.**
* `ofArgument_argument`: the argument of a setting is the option with the value attached.
* `ofArguments_settings`: the settings are made one after the other.
* `foldl_apply_override`: a setting that is made again later makes no difference.
* `ofArguments_configuration`: every configuration can be given, in any order and over any earlier settings.
-/
namespace Calculator.Options

/-- A setting that an argument can give. -/
inductive Setting where
  | prompt (text : String)
  | exitCommand (text : String)
  | logLevel (level : Log.Level)
  | strict
  deriving DecidableEq, Repr

namespace Setting

/-- The option that gives the setting. -/
def name : Setting → Name
  | prompt _ => .prompt
  | exitCommand _ => .exitCommand
  | logLevel _ => .logLevel
  | strict => .strict

/-- The value of the option. -/
def attached : Setting → Option String
  | prompt text | exitCommand text => some text
  | logLevel level => some level.name
  | strict => none

/-- The argument that gives the setting. -/
def argument : Setting → String
  | prompt text => "--prompt=" ++ text
  | exitCommand text => "--exit-command=" ++ text
  | logLevel level => "--log-level=" ++ level.name
  | strict => "--strict"

/-- The options after the setting is made. -/
def apply (options : Options) : Setting → Options
  | prompt text => { options with prompt := valueOf text }
  | exitCommand text => { options with exitCommand := valueOf text }
  | logLevel level => { options with level := some level }
  | strict => { options with strict := true }

/-- Settings of different options do not touch each other. -/
theorem apply_comm {s t : Setting} (h : s.name ≠ t.name) (options : Options) :
    apply (apply options s) t = apply (apply options t) s := by
  cases s <;> cases t <;> simp_all [name, apply]

/-- Of two settings of one option the later one counts. -/
theorem apply_override {s t : Setting} (h : s.name = t.name) (options : Options) :
    apply (apply options s) t = apply options t := by
  cases s <;> cases t <;> cases h <;> rfl

/-- A setting that is made again later makes no difference. -/
theorem foldl_apply_override {s : Setting} {later : List Setting} (h : ∃ t ∈ later, t.name = s.name)
    (options : Options) : later.foldl apply (apply options s) = later.foldl apply options := by
  induction later generalizing options with
  | nil => simp at h
  | cons u later ih =>
    rw [List.foldl_cons, List.foldl_cons]
    by_cases hu : s.name = u.name
    · rw [apply_override hu]
    · obtain ⟨t, ht, hname⟩ := h
      rcases List.mem_cons.mp ht with rfl | ht
      · exact absurd hname.symm hu
      · rw [apply_comm hu, ih ⟨t, ht, hname⟩]

end Setting

open Setting

/-! ## The arguments of settings -/

/-- The spelling of an option begins with two minuses. -/
theorem Name.exists_spelling_eq (name : Name) : ∃ cs, name.spelling.toList = '-' :: '-' :: cs := by
  cases name <;> exact ⟨_, rfl⟩

/-- No equals sign is in the spelling of an option. -/
theorem Name.ne_equals_of_mem_spelling (name : Name) : ∀ c ∈ name.spelling.toList, (c != '=') = true := by
  have hall : name.spelling.toList.all (· != '=') = true := by cases name <;> decide +kernel
  exact List.all_eq_true.mp hall

theorem ofArgument_spelling (name : Name) : Word.ofArgument name.spelling = .option name none := by
  cases name <;> decide +kernel

/-- Behind the spelling of an option and an equals sign everything is its value. -/
theorem ofArgument_attached (name : Name) (text : String) :
    Word.ofArgument (name.spelling ++ "=" ++ text) = .option name (some text) := by
  have hall := name.ne_equals_of_mem_spelling
  obtain ⟨cs, hcs⟩ := name.exists_spelling_eq
  have hlist : (name.spelling ++ "=" ++ text).toList = name.spelling.toList ++ '=' :: text.toList := by
    rw [String.toList_append, String.toList_append, List.append_assoc]
    rfl
  have hlong : Word.ofArgument (name.spelling ++ "=" ++ text) =
      Word.ofLong (name.spelling.toList ++ '=' :: text.toList) := by
    unfold Word.ofArgument
    rw [hlist, hcs]
    rfl
  have htake : (name.spelling.toList ++ '=' :: text.toList).takeWhile (· != '=') = name.spelling.toList := by
    rw [List.takeWhile_append_of_pos hall, List.takeWhile_cons_of_neg (by decide), List.append_nil]
  have hdrop : (name.spelling.toList ++ '=' :: text.toList).dropWhile (· != '=') = '=' :: text.toList := by
    rw [List.dropWhile_append_of_pos hall, List.dropWhile_cons_of_neg (by decide)]
  rw [hlong]
  simp only [Word.ofLong, htake, hdrop, Name.ofSpelling?_spelling, String.ofList_toList]

/-- The word that gives a setting. -/
def Setting.word (s : Setting) : Word := .option s.name s.attached

theorem Setting.argument_eq (s : Setting) :
    s.argument = match s.attached with
      | none => s.name.spelling
      | some text => s.name.spelling ++ "=" ++ text := by
  have hprompt : "--prompt=" = Name.prompt.spelling ++ "=" := by decide +kernel
  have hexit : "--exit-command=" = Name.exitCommand.spelling ++ "=" := by decide +kernel
  have hlevel : "--log-level=" = Name.logLevel.spelling ++ "=" := by decide +kernel
  cases s with
  | prompt text => exact congrArg (· ++ text) hprompt
  | exitCommand text => exact congrArg (· ++ text) hexit
  | logLevel level => exact congrArg (· ++ level.name) hlevel
  | strict => rfl

/-- The argument of a setting is the option with the value attached. -/
theorem ofArgument_argument (s : Setting) : Word.ofArgument s.argument = s.word := by
  rw [s.argument_eq, Setting.word]
  cases s.attached with
  | none => exact ofArgument_spelling s.name
  | some text => exact ofArgument_attached s.name text

/-- An argument that gives a setting does not end the options. -/
theorem argument_ne_end (s : Setting) : s.argument ≠ "--" := by
  intro h
  have hword := ofArgument_argument s
  rw [h] at hword
  have hend : Word.ofArgument "--" = .ambiguous "--" := by decide +kernel
  rw [hend] at hword
  cases hword

/-! ## Command lines of settings -/

/-- A word that gives a setting makes it. -/
theorem ofWords_word (options : Options) (extra : List String) (s : Setting) (words : List Word) :
    ofWords options extra (s.word :: words) = ofWords (apply options s) extra words := by
  cases s with
  | prompt text => rfl
  | exitCommand text => rfl
  | logLevel level => cases level <;> rfl
  | strict => rfl

/-- Words that give settings make them one after the other. -/
theorem ofWords_settings (options : Options) (extra : List String) (settings : List Setting) :
    ofWords options extra (settings.map word) = ofWords (settings.foldl apply options) extra [] := by
  induction settings generalizing options with
  | nil => rfl
  | cons s settings ih => rw [List.map_cons, ofWords_word, ih, List.foldl_cons]

theorem firstAmbiguous?_settings (settings : List Setting) :
    firstAmbiguous? (settings.map word) = none := by
  unfold firstAmbiguous?
  rw [List.findSome?_eq_none_iff]
  intro w hw
  obtain ⟨s, -, rfl⟩ := List.mem_map.mp hw
  rfl

/-- The settings of a command line are made one after the other. -/
theorem ofArguments_settings (settings : List Setting) :
    ofArguments (settings.map argument) = .start (settings.foldl apply {}) := by
  have hall : ∀ a ∈ settings.map argument, (a != "--") = true := by
    intro a ha
    obtain ⟨s, -, rfl⟩ := List.mem_map.mp ha
    exact bne_iff_ne.mpr (argument_ne_end s)
  have htake := List.takeWhile_eq_self_iff.mpr hall
  have hdrop := List.dropWhile_eq_nil_iff.mpr hall
  have hwords : (settings.map argument).map Word.ofArgument = settings.map word := by
    rw [List.map_map]
    exact List.map_congr_left fun s _ => ofArgument_argument s
  unfold ofArguments
  simp only [htake, hdrop, hwords, firstAmbiguous?_settings, ofWords_settings]
  rfl

/-! ## Configurations -/

/-- What a configuration gives; the rest is left as it is by default. -/
structure Configuration where
  prompt : Option String := none
  exitCommand : Option String := none
  level : Option Log.Level := none
  strict : Bool := false
  deriving DecidableEq, Repr

namespace Configuration

/-- The settings of a configuration. -/
def settings (c : Configuration) : List Setting :=
  (c.prompt.map .prompt).toList ++ (c.exitCommand.map .exitCommand).toList ++
    (c.level.map .logLevel).toList ++ if c.strict then [.strict] else []

/-- The options that a configuration is meant to come to. -/
def options (c : Configuration) : Options where
  prompt := some (c.prompt.getD "> ")
  exitCommand := some (c.exitCommand.getD "\\q")
  strict := c.strict
  level := some (c.level.getD .warning)

/-- The configuration gives the setting. -/
def Gives (c : Configuration) : Setting → Prop
  | .prompt text => c.prompt = some text
  | .exitCommand text => c.exitCommand = some text
  | .logLevel level => c.level = some level
  | .strict => c.strict = true

variable {c : Configuration} {s t : Setting}

theorem mem_settings_iff : s ∈ c.settings ↔ c.Gives s := by
  cases s <;> simp [settings, Gives]

/-- A configuration gives each setting once. -/
theorem eq_of_gives (hs : c.Gives s) (ht : c.Gives t) (h : s.name = t.name) : s = t := by
  -- only settings of one option are left by `h`
  cases s <;> cases t <;> cases h
  · exact congrArg Setting.prompt (Option.some.inj (hs.symm.trans ht))
  · exact congrArg Setting.exitCommand (Option.some.inj (hs.symm.trans ht))
  · exact congrArg Setting.logLevel (Option.some.inj (hs.symm.trans ht))
  · rfl

/-- The settings of a configuration, made in the order in which it gives them. -/
theorem foldl_apply_settings (c : Configuration) :
    c.settings.foldl apply {} =
      { prompt := (c.prompt.map valueOf).getD (some "> ")
        exitCommand := (c.exitCommand.map valueOf).getD (some "\\q")
        strict := c.strict
        level := some (c.level.getD .warning) } := by
  obtain ⟨_ | _, _ | _, _ | _, _ | _⟩ := c <;> rfl

/-- A text other than two minuses alone arrives, and where there is none the default stays. -/
theorem getD_map_valueOf {text : Option String} (h : text ≠ some "--") (fallback : String) :
    (text.map valueOf).getD (some fallback) = some (text.getD fallback) := by
  cases text with
  | none => rfl
  | some text => exact valueOf_eq_some_iff.mpr ⟨rfl, fun heq => h (congrArg some heq)⟩

/-- The settings of a configuration, made in any order, are those that it is meant to come to. -/
theorem foldl_apply_eq {settings : List Setting} (h : settings.Perm c.settings) (hp : c.prompt ≠ some "--")
    (he : c.exitCommand ≠ some "--") : settings.foldl apply {} = c.options := by
  have hgives : ∀ s ∈ settings, c.Gives s := fun s hs => mem_settings_iff.mp (h.mem_iff.mp hs)
  have hcomm : ∀ s ∈ settings, ∀ t ∈ settings, ∀ options : Options,
      apply (apply options s) t = apply (apply options t) s := by
    intro s hs t ht options
    by_cases hname : s.name = t.name
    · rw [eq_of_gives (hgives s hs) (hgives t ht) hname]
    · exact apply_comm hname options
  rw [h.foldl_eq' hcomm, foldl_apply_settings, getD_map_valueOf hp, getD_map_valueOf he]
  rfl

end Configuration

/-- A setting that is made again later makes no difference on a command line. -/
theorem ofArguments_override (before : List Setting) {s : Setting} {after : List Setting}
    (h : ∃ t ∈ after, t.name = s.name) :
    ofArguments ((before ++ s :: after).map argument) = ofArguments ((before ++ after).map argument) := by
  rw [ofArguments_settings, ofArguments_settings, List.foldl_append, List.foldl_cons,
    foldl_apply_override h, List.foldl_append]

/-- Neither does which of two settings of different options comes first. -/
theorem ofArguments_swap (before after : List Setting) {s t : Setting} (h : s.name ≠ t.name) :
    ofArguments ((before ++ s :: t :: after).map argument) =
      ofArguments ((before ++ t :: s :: after).map argument) := by
  rw [ofArguments_settings, ofArguments_settings, List.foldl_append, List.foldl_append, List.foldl_cons,
    List.foldl_cons, apply_comm h, List.foldl_cons, List.foldl_cons]

/-- Every configuration without two minuses alone for a text can be given, with its settings in any order, and
comes to what it gives and the defaults for the rest. Settings that are made again later make no difference, and
neither does which of two settings of different options comes first. -/
theorem ofArguments_configuration :
    (∀ (c : Configuration) (settings : List Setting), c.prompt ≠ some "--" → c.exitCommand ≠ some "--" →
      settings.Perm c.settings → ofArguments (settings.map argument) = .start c.options) ∧
    (∀ (before : List Setting) (s : Setting) (after : List Setting), (∃ t ∈ after, t.name = s.name) →
      ofArguments ((before ++ s :: after).map argument) = ofArguments ((before ++ after).map argument)) ∧
    ∀ (before : List Setting) (s t : Setting) (after : List Setting), s.name ≠ t.name →
      ofArguments ((before ++ s :: t :: after).map argument) =
        ofArguments ((before ++ t :: s :: after).map argument) := by
  refine ⟨fun c settings hp he h => ?_, fun before s after h => ofArguments_override before h,
    fun before s t after h => ofArguments_swap before after h⟩
  rw [ofArguments_settings, Configuration.foldl_apply_eq h hp he]

/-- A prompt that looks like an option, an exit command with a line feed and an equals sign in it, the option
without a value between them, and two prompts that do not count. -/
theorem ofArguments_configuration_dashes :
    let c : Configuration := { prompt := some "--strict=", exitCommand := some "-h\n=", strict := true }
    c.prompt ≠ some "--" ∧ c.exitCommand ≠ some "--" ∧
      ofArguments ["--exit-command=-h\n=", "--strict", "--prompt=--strict="] = .start c.options ∧
      ofArguments ["--prompt=", "--exit-command=-h\n=", "--prompt=--", "--strict", "--prompt=--strict="] =
        .start c.options := by
  intro c
  have hp : c.prompt ≠ some "--" := by decide
  have he : c.exitCommand ≠ some "--" := by decide
  have hperm : List.Perm [.exitCommand "-h\n=", .strict, .prompt "--strict="] c.settings := by decide
  obtain ⟨hgiven, hoverride, -⟩ := ofArguments_configuration
  have heq := hgiven c _ hp he hperm
  have hlast := hoverride [.prompt "", .exitCommand "-h\n="] (.prompt "--") [.strict, .prompt "--strict="]
    ⟨.prompt "--strict=", by decide, rfl⟩
  have hfirst := hoverride [] (.prompt "") [.exitCommand "-h\n=", .strict, .prompt "--strict="]
    ⟨.prompt "--strict=", by decide, rfl⟩
  exact ⟨hp, he, heq, hlast.trans (hfirst.trans heq)⟩

/-- Two minuses alone do not arrive: they leave the option without a value. -/
theorem not_forall_ofArguments_eq : ¬∀ (c : Configuration) (settings : List Setting),
    settings.Perm c.settings → ofArguments (settings.map argument) = .start c.options := by
  intro h
  have hnone : ofArguments ["--prompt=--"] = .start { prompt := none } := ofArguments_settings [.prompt "--"]
  have hsome : ofArguments ["--prompt=--"] = .start { prompt := some "--" } :=
    h { prompt := some "--" } [.prompt "--"] (List.Perm.refl _)
  rw [hnone] at hsome
  exact absurd hsome (by decide)

end Calculator.Options
