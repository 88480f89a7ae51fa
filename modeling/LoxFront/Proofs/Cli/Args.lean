/-
# The option for a log among the arguments

Arguments among which `--log` does not stand before `--` ask for no log
(`Cli.log_of_read`).  To put the option in before `--` is to ask for the same work with a
log, wherever it stands (`Cli.read_insert`).  Only behind `help`, which takes no options,
it is refused (`Cli.read_help_insert`).
-/

import LoxFront.Cli.Args

namespace LoxFront
namespace Cli

/-- No log is asked for: the option does not stand before `--`. -/
def Unlogged (arguments : List String) : Prop := "--log" ∉ arguments.takeWhile (· ≠ "--")

/-- The same draft, with or without a log. -/
def Draft.withLog (log : Bool) (d : Draft) : Draft := { d with log := log }

/-- The same work, with or without a log. -/
def Invocation.withLog (log : Bool) (i : Invocation) : Invocation := { i with log := log }

/-- The same request, with or without a log if it asks for work. -/
def Request.withLog (log : Bool) : Request → Request
  | work i => work (i.withLog log)
  | version => version
  | help topic => help topic

variable {a : String} {arguments rest : List String}

/-- Where no log is asked for, the first argument is not the option. -/
theorem Unlogged.head_ne (h : Unlogged (a :: rest)) : a ≠ "--log" := by
  rintro rfl
  exact h (by simp)

/-- Where no log is asked for, the arguments behind the first ask for none either, unless the
first ends the options. -/
theorem Unlogged.tail (h : Unlogged (a :: rest)) (ha : a ≠ "--") : Unlogged rest := by
  unfold Unlogged at h ⊢
  rw [List.takeWhile_cons_of_pos (by simpa using ha)] at h
  exact fun hmem => h (List.mem_cons_of_mem a hmem)

/-! ### Behind the command -/

namespace Draft

/-- One argument behind the command, other than `--`. -/
def step (json : Bool) (d : Draft) (a : String) : Except Misuse (Option Draft) :=
  if a = "--log" then if d.log then .error (.repeated a) else .ok (some (d.withLog true))
  else if a = "--json" && json then
    if d.json then .error (.repeated a) else .ok (some { d with json := true })
  else if a = "--help" || shortRequest? a = some (.help .program) then .ok none
  else if isOption a then .error (.unexpected a)
  else (d.named a).map some

/-- Reading goes argument by argument, as long as none ends the options: one step, and the rest
from the draft that it leaves. -/
theorem read_cons (json : Bool) (d : Draft) (ha : a ≠ "--") :
    read json d (a :: rest) = (step json d a).bind fun
      | some d' => read json d' rest
      | none => .ok none := by
  rw [read, if_neg ha, step]
  split
  · split <;> rfl
  · split
    · split <;> rfl
    · split
      · rfl
      · split
        · rfl
        · cases d.named a <;> rfl

/-- A name is taken into a draft alike, with a log and without one. -/
theorem named_withLog (log : Bool) (d : Draft) (a : String) :
    (d.withLog log).named a = (d.named a).map (withLog log) := by
  unfold named
  split
  · rfl
  · show (if d.file.isSome then _ else _) = _
    split <;> rfl

/-- The same of all the names behind `--`. -/
theorem foldlM_named_withLog (log : Bool) (d : Draft) (names : List String) :
    names.foldlM named (d.withLog log) = (names.foldlM named d).map (withLog log) := by
  induction names generalizing d with
  | nil => rfl
  | cons a names ih =>
    rw [List.foldlM_cons, List.foldlM_cons, named_withLog]
    cases d.named a with
    | error m => rfl
    | ok d' => exact ih d'

/-- An argument other than the option changes a draft alike, with a log and without one. -/
theorem step_withLog (json log : Bool) (d : Draft) (ha : a ≠ "--log") :
    step json (d.withLog log) a = (step json d a).map (Option.map (withLog log)) := by
  rw [step, step, if_neg ha, if_neg ha, named_withLog]
  split
  · show (if d.json then _ else _) = _
    split <;> rfl
  · split
    · rfl
    · split
      · rfl
      · cases d.named a <;> rfl

/-- Without the option it stays with the draft whether there is a log. -/
theorem read_withLog (json log : Bool) (d : Draft) (h : Unlogged arguments) :
    read json (d.withLog log) arguments =
      (read json d arguments).map (Option.map (withLog log)) := by
  induction arguments generalizing d with
  | nil => rfl
  | cons a rest ih =>
    by_cases ha : a = "--"
    · rw [read, read, if_pos ha, if_pos ha, foldlM_named_withLog]
      cases rest.foldlM named d <;> rfl
    · rw [read_cons json _ ha, read_cons json _ ha, step_withLog json log d h.head_ne]
      cases step json d a with
      | error m => rfl
      | ok d' =>
        cases d' with
        | none => rfl
        | some d' => exact ih d' (h.tail ha)

/-- An argument other than the option changes nothing about the log. -/
theorem log_of_step {json : Bool} {d d' : Draft} (ha : a ≠ "--log")
    (h : step json d a = .ok (some d')) : d'.log = d.log := by
  have hstep := step_withLog json d.log d ha
  rw [show d.withLog d.log = d from rfl, h] at hstep
  have hsame : d' = d'.withLog d.log := Option.some.inj (Except.ok.inj hstep)
  exact (congrArg Draft.log hsame).trans rfl

/-- Arguments without the option leave it as it was whether there is a log. -/
theorem log_of_read {json : Bool} {d d' : Draft} (h : Unlogged arguments)
    (hread : read json d arguments = .ok (some d')) : d'.log = d.log := by
  have hlog := read_withLog json d.log d h
  rw [show d.withLog d.log = d from rfl, hread] at hlog
  have hsame : d' = d'.withLog d.log := Option.some.inj (Except.ok.inj hlog)
  exact (congrArg Draft.log hsame).trans rfl

/-- With the option the same is read, but with a log. -/
theorem read_insert (json : Bool) {d : Draft} (hd : d.log = false) {before behind : List String}
    (hbefore : "--" ∉ before) (h : Unlogged (before ++ behind)) :
    read json d (before ++ "--log" :: behind) =
      (read json d (before ++ behind)).map (Option.map (withLog true)) := by
  induction before generalizing d with
  | nil =>
    have hstep : step json d "--log" = .ok (some (d.withLog true)) := by simp [step, hd]
    rw [List.nil_append, List.nil_append, read_cons json d (by decide), hstep]
    exact read_withLog json true d h
  | cons a before ih =>
    have ha : a ≠ "--" := fun heq => hbefore (heq ▸ List.mem_cons_self)
    rw [List.cons_append, List.cons_append, read_cons json d ha, read_cons json d ha]
    cases hstep : step json d a with
    | error m => rfl
    | ok d' =>
      cases d' with
      | none => rfl
      | some d' =>
        exact ih ((log_of_step h.head_ne hstep).trans hd)
          (fun hmem => hbefore (List.mem_cons_of_mem a hmem)) (h.tail ha)

end Draft

/-! ### From the first argument on -/

/-- Without the option behind it, the same is read behind a command whether the option
stood before it, but for the log. -/
theorem command_withLog (json log : Bool) (topic : Topic) {action : Draft → Action}
    (h : Unlogged arguments) :
    command log json topic action arguments =
      (command false json topic action arguments).map (Request.withLog log) := by
  rw [command, command]
  cases hread : Draft.read json ⟨none, false, false⟩ arguments with
  | error m => rfl
  | ok d =>
    cases d with
    | none => rfl
    | some d =>
      have hlog : d.log = false := Draft.log_of_read h hread
      simp [Except.map, Request.withLog, Invocation.withLog, hlog]

/-- Behind a command that does not look at the option itself, the option makes the same
request one with a log. -/
theorem command_insert (json : Bool) (topic : Topic) {action : Draft → Action}
    (haction : ∀ d, action (d.withLog true) = action d) {before behind : List String}
    (hbefore : "--" ∉ before) (h : Unlogged (before ++ behind)) :
    command false json topic action (before ++ "--log" :: behind) =
      (command false json topic action (before ++ behind)).map (Request.withLog true) := by
  rw [command, command, Draft.read_insert json rfl hbefore h]
  cases Draft.read json ⟨none, false, false⟩ (before ++ behind) with
  | error m => rfl
  | ok d =>
    cases d with
    | none => rfl
    | some d =>
      show Except.ok (Request.work ⟨action (d.withLog true), d.file, true⟩) = _
      rw [haction]
      rfl

/-- Short options ask for help or the version, which have no log. -/
theorem withLog_of_shortRequest? {log : Bool} {r : Request} (h : shortRequest? a = some r) :
    r.withLog log = r := by
  unfold shortRequest? at h
  split at h
  · rw [← Option.some.inj h]
    rfl
  · rw [← Option.some.inj h]
    rfl
  · exact nomatch h

/-- Help is the same with a log and without one. -/
theorem helpOn_withLog (log : Bool) (arguments : List String) :
    helpOn arguments = (helpOn arguments).map (Request.withLog log) := by
  unfold helpOn
  split
  · rfl
  · split
    · rfl
    · split <;> rfl

/-- Help is never a request for work. -/
theorem helpOn_ne_work (arguments : List String) (i : Invocation) :
    helpOn arguments ≠ .ok (.work i) := by
  unfold helpOn
  split
  · simp
  · split
    · simp
    · split <;> simp

/-- The option is refused behind the wish for help, as what help is about and behind it. -/
theorem helpOn_insert (before behind : List String) :
    ∃ m, helpOn (before ++ "--log" :: behind) = .error m := by
  cases before with
  | nil => exact ⟨_, rfl⟩
  | cons a before =>
    rw [List.cons_append, helpOn]
    cases topic? a with
    | none => exact ⟨_, rfl⟩
    | some topic => cases before <;> exact ⟨_, rfl⟩

/-- The first argument, if it is not the option, says what is made of the others. -/
theorem readFrom_cons {log log' : Bool} {rest' : List String} (ha : a ≠ "--log")
    (hcommand : ∀ json topic action, (∀ d, action (Draft.withLog true d) = action d) →
      command log json topic action rest =
        (command false json topic action rest').map (Request.withLog log'))
    (hhelp : a = "help" → rest = rest') :
    readFrom log (a :: rest) = (readFrom false (a :: rest')).map (Request.withLog log') := by
  rw [readFrom, readFrom, if_neg ha, if_neg ha]
  by_cases htokenize : a = "tokenize"
  · rw [if_pos htokenize, if_pos htokenize]
    exact hcommand false _ _ fun _ => rfl
  by_cases hparse : a = "parse"
  · rw [if_neg htokenize, if_neg htokenize, if_pos hparse, if_pos hparse]
    exact hcommand true _ _ fun _ => rfl
  by_cases hversion : a = "--version"
  · simp only [if_neg htokenize, if_neg hparse, if_pos hversion]
    rfl
  by_cases hword : a = "help"
  · simp only [if_neg htokenize, if_neg hparse, if_neg hversion, if_pos hword, hhelp hword]
    exact helpOn_withLog log' rest'
  simp only [if_neg htokenize, if_neg hparse, if_neg hversion, if_neg hword]
  split
  · rfl
  · cases hshort : shortRequest? a with
    | none => rfl
    | some r => exact congrArg Except.ok (withLog_of_shortRequest? hshort).symm

/-- Without the option further on, it stays with what was seen before whether there is a
log. -/
theorem readFrom_withLog (log : Bool) (h : Unlogged arguments) :
    readFrom log arguments = (readFrom false arguments).map (Request.withLog log) := by
  cases arguments with
  | nil => rfl
  | cons a rest =>
    by_cases ha : a = "--"
    · subst ha
      rfl
    · exact readFrom_cons h.head_ne
        (fun json topic _ _ => command_withLog json log topic (h.tail ha)) fun _ => rfl

/-- Without the option no log is asked for. -/
theorem log_of_read {i : Invocation} (h : Unlogged arguments)
    (hread : read arguments = .ok (.work i)) : i.log = false := by
  have hlog := readFrom_withLog false h
  rw [show readFrom false arguments = .ok (.work i) from hread] at hlog
  have hsame : i = i.withLog false := Request.work.inj (Except.ok.inj hlog)
  exact (congrArg Invocation.log hsame).trans rfl

/-- **With the option the same is asked for, but with a log**, wherever it stands before
`--` and not behind `help`. -/
theorem read_insert {before behind : List String} (h : Unlogged (before ++ behind))
    (hbefore : "--" ∉ before) (hhelp : before.head? ≠ some "help") :
    read (before ++ "--log" :: behind) =
      (read (before ++ behind)).map (Request.withLog true) := by
  cases before with
  | nil => exact readFrom_withLog true h
  | cons a before =>
    have ha : a ≠ "--" := fun heq => hbefore (heq ▸ List.mem_cons_self)
    have hrest : "--" ∉ before := fun hmem => hbefore (List.mem_cons_of_mem a hmem)
    refine readFrom_cons (Unlogged.head_ne h) (fun json topic action haction => ?_) fun hword => ?_
    · exact command_insert json topic haction hrest (Unlogged.tail h ha)
    · exact absurd (congrArg some hword) hhelp

/-- Behind `help` the option is refused, wherever it stands. -/
theorem read_help_insert {before behind : List String} (hhelp : before.head? = some "help") :
    ∃ m, read (before ++ "--log" :: behind) = .error m := by
  obtain ⟨rest, rfl⟩ := List.head?_eq_some_iff.1 hhelp
  exact helpOn_insert rest behind

/-- What asks for nothing without the option asks for nothing with it. -/
theorem read_insert_of_misuse {before behind : List String} {m : Misuse}
    (h : Unlogged (before ++ behind)) (hbefore : "--" ∉ before)
    (hread : read (before ++ behind) = .error m) :
    ∃ m', read (before ++ "--log" :: behind) = .error m' := by
  by_cases hhelp : before.head? = some "help"
  · exact read_help_insert hhelp
  · refine ⟨m, ?_⟩
    rw [read_insert h hbefore hhelp, hread]
    rfl

/-- What asks for no work asks for the same with the option, if it is not put in behind
`help`. -/
theorem read_insert_of_no_work {before behind : List String} {r : Request}
    (h : Unlogged (before ++ behind)) (hbefore : "--" ∉ before)
    (hhelp : before.head? ≠ some "help") (hread : read (before ++ behind) = .ok r)
    (hr : ∀ i, r ≠ .work i) : read (before ++ "--log" :: behind) = .ok r := by
  rw [read_insert h hbefore hhelp, hread]
  cases r with
  | work i => exact absurd rfl (hr i)
  | version => rfl
  | help topic => rfl

/-- What begins with `help` asks for no work. -/
theorem read_help_ne_work {before behind : List String} (hhelp : before.head? = some "help")
    (i : Invocation) : read (before ++ behind) ≠ .ok (.work i) := by
  obtain ⟨rest, rfl⟩ := List.head?_eq_some_iff.1 hhelp
  exact helpOn_ne_work (rest ++ behind) i

end Cli
end LoxFront
