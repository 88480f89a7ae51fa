/-
# Runs with a log and without one

`init_logger` begins the file of the log before `read_file` opens the input.  So a log
changes nothing about a run if the path of the input does not lead to the place of that
file (`Cli.run_insert_log`).  A run that is to read the file of the log itself reads what
the log holds then, whatever the file held before and by whatever path it is named.
-/

import LoxFront.Proofs.Cli.Args
import LoxFront.Proofs.Cli.Directory
import LoxFront.Proofs.Cli.Outcome

namespace LoxFront

/-- A source that begins with a stray character is no row of tokens. -/
theorem Scan.tokens_of_stray {source : String} {c : Char} {cs : List Char}
    (hsource : source.toList = c :: cs) (hc : Scan.first c cs = (⟨.stray c, [c]⟩, cs)) :
    ∃ errors, Scan.tokens source = .error errors := by
  have hitems : Scan.items source = .trouble (1 + Scan.newlines [c]) (.stray c) ::
      Scan.itemsFrom (1 + Scan.newlines [c]) (Scan.pieces cs) := by
    rw [Scan.items, hsource, Scan.pieces, hc]
    rfl
  refine ⟨Scan.troubles source, ?_⟩
  rw [Scan.tokens, if_neg]
  simp [Scan.troubles, hitems, Scan.Item.diagnostic?]

/-- The first character of a text shows in the plain text if it shows outside of all
sequences. -/
theorem Text.toList_plain {s : String} {c : Char} {cs : List Char} (hs : s.toList = c :: cs)
    (hc : Stage.outside.shows c = true) : ∃ rest, (Text.plain s).toList = c :: rest := by
  rw [Text.plain, hs, Text.plainFrom, if_pos (by simpa using hc), String.toList_ofList]
  exact ⟨_, rfl⟩

namespace Cli

variable {arguments arguments' before behind : List String} {s : Setting} {d : Directory} {i : Invocation}
  {action : Action} {name : String} {place : List String} {plain logged : Outcome}

/-! ### What a log holds -/

/-- What the log holds when the input is read. -/
def Setting.begun (s : Setting) (i : Invocation) : ByteArray := s.logBytes (i.withLog true).opening

/-- Each line of a log begins with a bracket, in plain text and with all its sequences. -/
theorem Setting.toList_lineOf (s : Setting) (r : Record) :
    ∃ cs, (s.lineOf r).toList = '[' :: cs := by
  have hstamped : ∃ cs, (r.stamped ++ "\n").toList = '[' :: cs := by
    simp only [Record.stamped, String.toList_append]
    exact ⟨_, rfl⟩
  obtain ⟨cs, hcs⟩ := hstamped
  rw [Setting.lineOf]
  split
  · exact ⟨cs, hcs⟩
  · exact Text.toList_plain hcs (by decide)

/-- A log that keeps a record begins with a bracket. -/
theorem Setting.exists_logBytes {records : List Record} (h : ∃ r ∈ records, s.keeps r = true) :
    ∃ (text : String) (cs : List Char), text.toUTF8 = s.logBytes records ∧
      text.toList = '[' :: cs := by
  obtain ⟨r, hr, hkeeps⟩ := h
  cases hkept : records.filter s.keeps with
  | nil => exact absurd (List.mem_filter.2 ⟨hr, hkeeps⟩) (by simp [hkept])
  | cons first more =>
    obtain ⟨cs, hcs⟩ := s.toList_lineOf first
    refine ⟨_, cs ++ (String.join (more.map s.lineOf)).toList, rfl, ?_⟩
    rw [hkept, List.map_cons, String.join_cons, String.toList_append, hcs, List.cons_append]

/-- A log that keeps no record is empty. -/
theorem Setting.logBytes_eq_empty {records : List Record}
    (h : ∀ r ∈ records, s.keeps r = false) : s.logBytes records = "".toUTF8 := by
  have hkept : records.filter s.keeps = [] := List.filter_eq_nil_iff.2 (by simpa using h)
  rw [Setting.logBytes, hkept]
  rfl

/-- The exit code of an action on a file in which there is nothing. -/
def Action.exitOnNothing : Action → Nat
  | .tokenize => 0
  | .parse _ => softwareError

/-- Nothing that reads a log with a record in it finds it without errors; a log without one
reads as a file in which there is nothing. -/
theorem exit_of_log (s : Setting) (action : Action) (name : String) (records : List Record) :
    (action.onBytes name (s.logBytes records)).exit =
      if records.any s.keeps then dataError else action.exitOnNothing := by
  split
  · next hkeeps =>
    obtain ⟨text, cs, htext, hcs⟩ := Setting.exists_logBytes (List.any_eq_true.1 hkeeps)
    obtain ⟨errors, herrors⟩ := Scan.tokens_of_stray hcs rfl
    rw [(onBytes_of_text action name htext).1]
    cases action with
    | tokenize => exact (tokenize_eq text).1.2 ⟨errors, herrors⟩
    | parse json =>
      show (parseSource json text).exit = dataError
      rw [(parseSource_eq json text).1, verdict_of_errors herrors]
      rfl
  · next hkeeps =>
    have hnone : ∀ r ∈ records, s.keeps r = false := by simpa using hkeeps
    rw [Setting.logBytes_eq_empty hnone, (onBytes_of_text action name rfl).1]
    cases action with
    | tokenize => decide +kernel
    | parse json =>
      show (parseSource json "").exit = softwareError
      rw [(parseSource_eq json "").1]
      decide +kernel

/-- So the opening of a log is no program, if it is kept at all. -/
theorem exit_of_begun (s : Setting) (i : Invocation) (action : Action) (name : String) :
    (action.onBytes name (s.begun i)).exit =
      if (i.withLog true).opening.any s.keeps then dataError else action.exitOnNothing :=
  exit_of_log s action name _

/-! ### One run -/

/-- A command line that asks for nothing is refused in the words of the setting. -/
theorem runIn_of_misuse {m : Misuse} (hread : read arguments = .error m) :
    runIn s arguments d = ⟨2, "", s.refusal arguments, d⟩ := by
  rw [runIn, hread]

/-- A run whose log cannot be begun does nothing else. -/
theorem runIn_of_no_log {e : PathError} (hread : read arguments = .ok (.work (i.withLog true)))
    (hplace : d.placeFor logName = .error e) :
    runIn s arguments d = ⟨1, "", failureText s!"Failed to create {logName}" e.message, d⟩ := by
  rw [runIn, hread]
  show (i.withLog true).runLogged s d = _
  rw [Invocation.runLogged, hplace]

/-- A run with a log works in the directory in which the log is begun. -/
theorem runIn_of_logged (s : Setting) (hread : read arguments = .ok (.work (i.withLog true)))
    (hplace : d.placeFor logName = .ok place) :
    (runIn s arguments d).exit = (i.work (d.write place (s.begun i))).exit ∧
      (runIn s arguments d).out = (i.work (d.write place (s.begun i))).out ∧
      (runIn s arguments d).err = s.warnings ++ (i.work (d.write place (s.begun i))).err := by
  have hrun : runIn s arguments d = (i.withLog true).runLogged s d := by
    rw [runIn, hread]
    rfl
  rw [hrun, Invocation.runLogged, hplace]
  exact ⟨rfl, rfl, rfl⟩

/-! ### Two runs -/

/-- Work on a file other than that of the log leaves with a log what it leaves without. -/
theorem work_begun_of_apart (hplace : d.placeFor logName = .ok place)
    (hapart : ∀ name, i.file = some name → d.via? place name = none) :
    (∀ name, i.file = some name → (d.write place (s.begun i)).find name = d.find name) ∧
      i.work (d.write place (s.begun i)) = i.work d := by
  obtain ⟨old, hstanding⟩ := Directory.standing_of_placeFor hplace
  have hfind : ∀ name, i.file = some name →
      (d.write place (s.begun i)).find name = d.find name := fun name hname => by
    rw [Directory.find_write _ hstanding, hapart name hname]
  refine ⟨hfind, ?_⟩
  cases hname : i.file with
  | none => rw [Invocation.work, Invocation.work, hname]
  | some name =>
    rw [work_of_file hname, work_of_file hname, Action.onFile, Action.onFile, hfind name hname]

/-- Work on the file of the log finds what the log holds when it is begun. -/
theorem work_begun_of_own (hplace : d.placeFor logName = .ok place) (hname : i.file = some name)
    (hvia : d.via? place name = some []) (hread : d.permit .read place = .ok ()) :
    i.work (d.write place (s.begun i)) = i.action.onBytes name (s.begun i) := by
  obtain ⟨old, hstanding⟩ := Directory.standing_of_placeFor hplace
  rw [work_of_file hname, Action.onFile, Directory.find_write _ hstanding, hvia, hread]
  rfl

/-- A path that leads to the log and cannot be opened is reported. -/
theorem work_begun_of_shut {e : PathError} (hname : i.file = some name)
    (hfind : (d.write place (s.begun i)).find name = .error e) :
    i.work (d.write place (s.begun i)) =
      ⟨1, "", failureText s!"Failed to open file {Text.quoted name}" e.message, []⟩ := by
  rw [work_of_file hname, Action.onFile, hfind]

/-- **A log leaves a run as it is, unless the run is to read the log itself.**  Let no log
be asked for, and put the option in where it stands before `--`.

A command line that is refused without the option is refused with it, each in the words of
the setting, and one that asks for help or for the version gets the same answer; behind the
word `help` the option itself is refused.  Of the work that is asked for there is nothing
where the log cannot be created.  Where it can be, the exit code and the output are the same
with the log as without it, and so are the errors behind what is said about variables, if
the path of the input does not lead to the place of the log; the input is what it was before
the run then.

A path that leads to that place, whether by its name, through the root, through folders
above or by links, opens what the log holds by then: the run ends with 65 if a record of its
opening is kept, and else as on an empty file.  A path that goes on behind the place opens
nothing.  All of this holds for every filter of the log, in plain text and with all
sequences, for every text of help and of refusal, and for whatever the system refuses. -/
theorem run_insert_log (hquiet : Unlogged (before ++ behind)) (hbefore : "--" ∉ before)
    (hplain : runIn s (before ++ behind) d = plain)
    (hlogged : runIn s (before ++ "--log" :: behind) d = logged) :
    -- the option behind `help`
    (before.head? = some "help" →
      logged = ⟨2, "", s.refusal (before ++ "--log" :: behind), d⟩) ∧
    -- a command line that asks for nothing
    (∀ m, read (before ++ behind) = .error m →
      plain = ⟨2, "", s.refusal (before ++ behind), d⟩ ∧
        logged = ⟨2, "", s.refusal (before ++ "--log" :: behind), d⟩) ∧
    -- help and the version
    (before.head? ≠ some "help" → ∀ r, read (before ++ behind) = .ok r → (∀ i, r ≠ .work i) →
      logged = plain) ∧
    ∀ i, read (before ++ behind) = .ok (.work i) →
      -- work whose log cannot be created
      (∀ e, d.placeFor logName = .error e →
        logged = ⟨1, "", failureText s!"Failed to create {logName}" e.message, d⟩) ∧
      ∀ place, d.placeFor logName = .ok place →
        -- work on no file, or on another one than that of the log
        ((∀ name, i.file = some name → d.via? place name = none) →
          logged.exit = plain.exit ∧ logged.out = plain.out ∧
            logged.err = s.warnings ++ plain.err ∧
            ∀ name, i.file = some name → (d.write place (s.begun i)).find name = d.find name) ∧
        ∀ name, i.file = some name →
          -- work on the file of the log
          (d.via? place name = some [] →
            (d.permit .read place = .ok () →
              logged.exit = (if (i.withLog true).opening.any s.keeps then dataError
                else i.action.exitOnNothing) ∧
              logged.out = (i.action.onBytes name (s.begun i)).out ∧
              logged.err = s.warnings ++ (i.action.onBytes name (s.begun i)).err) ∧
            ∀ e, d.permit .read place = .error e →
              logged.exit = 1 ∧ logged.out = "" ∧ logged.err = s.warnings ++
                failureText s!"Failed to open file {Text.quoted name}" e.message) ∧
          -- work on a path behind it
          ∀ part more, d.via? place name = some (part :: more) →
            logged.exit = 1 ∧ logged.out = "" ∧ logged.err = s.warnings ++
              failureText s!"Failed to open file {Text.quoted name}"
                PathError.notFolder.message := by
  subst hplain hlogged
  refine ⟨fun hhelp => ?_, fun m hread => ?_, fun hhelp r hread hother => ?_, fun i hread => ?_⟩
  · obtain ⟨m, hm⟩ := read_help_insert hhelp
    exact runIn_of_misuse hm
  · obtain ⟨m', hm'⟩ := read_insert_of_misuse hquiet hbefore hread
    exact ⟨runIn_of_misuse hread, runIn_of_misuse hm'⟩
  · rw [runIn, runIn, hread, read_insert_of_no_work hquiet hbefore hhelp hread hother]
    cases r with
    | work i => exact absurd rfl (hother i)
    | version => rfl
    | help topic => rfl
  · have hhelp : before.head? ≠ some "help" := fun h => read_help_ne_work h i hread
    have hread' : read (before ++ "--log" :: behind) = .ok (.work (i.withLog true)) := by
      rw [read_insert hquiet hbefore hhelp, hread]
      rfl
    refine ⟨fun e he => runIn_of_no_log hread' he, fun place hplace => ?_⟩
    obtain ⟨old, hstanding⟩ := Directory.standing_of_placeFor hplace
    obtain ⟨hexit, hout, herr⟩ := runIn_of_logged s hread' hplace
    rw [hexit, hout, herr, runIn_of_quiet s hread (log_of_read hquiet hread)]
    refine ⟨fun hapart => ?_, fun name hname => ⟨fun hvia => ⟨fun hopen => ?_, fun e he => ?_⟩,
      fun part more hvia => ?_⟩⟩
    · obtain ⟨hfind, hwork⟩ := work_begun_of_apart (s := s) hplace hapart
      rw [hwork]
      exact ⟨rfl, rfl, rfl, hfind⟩
    · rw [work_begun_of_own hplace hname hvia hopen]
      exact ⟨exit_of_begun s i i.action name, rfl, rfl⟩
    · rw [work_begun_of_shut hname (e := e)
        (by rw [Directory.find_write _ hstanding, hvia, he]; rfl)]
      exact ⟨rfl, rfl, rfl⟩
    · rw [work_begun_of_shut hname (e := .notFolder)
        (by rw [Directory.find_write _ hstanding, hvia])]
      exact ⟨rfl, rfl, rfl⟩

/-- A working directory `/w` with a program, and another one in a file of the name of the log
that a symbolic link and a second name lead to as well. -/
def twoPrograms : Directory :=
  .holding ["w"] [("a.lox", .file "1;".toUTF8), (logName, .file "print 1;".toUTF8),
    ("soft.lox", .link "app.log"), ("hard.lox", .twin ["w", logName])]

/-- Paths that lead to the file of the log. -/
def logPaths : List String :=
  ["app.log", "./app.log", "/w/app.log", "../w/app.log", "soft.lox", "hard.lox"]

/-- The usual setting, but for a filter that keeps no record. -/
def silent : Setting := { Setting.usual with keeps := fun _ => false }

/-- The one program is parsed with a log as without it.  The other one is lost to the log,
whatever path it is named by; nothing is left of it if the log keeps no record. -/
theorem run_insert_log_twoPrograms :
    (run ["parse", "a.lox", "--log"] twoPrograms).exit = (run ["parse", "a.lox"] twoPrograms).exit ∧
      (run ["parse", "a.lox", "--log"] twoPrograms).out =
        (run ["parse", "a.lox"] twoPrograms).out ∧
      (∀ name ∈ logPaths, (run ["tokenize", "--log", name] twoPrograms).exit = 65 ∧
        (runIn silent ["tokenize", "--log", name] twoPrograms).exit = 0) ∧
      (run ["--log", "parse", "app.log/"] twoPrograms).exit = 1 ∧
      (run ["help", "--log"] twoPrograms).exit = 2 := by
  have hplace : twoPrograms.placeFor logName = .ok ["w", logName] := by rfl
  have hopen : twoPrograms.permit .read ["w", logName] = .ok () := rfl
  have hparse : read ["parse", "a.lox"] = .ok (.work ⟨.parse false, some "a.lox", false⟩) := by rfl
  have hslash : read ["parse", "app.log/"] =
      .ok (.work ⟨.parse false, some "app.log/", false⟩) := by rfl
  have hother : ∀ name, some "a.lox" = some name →
      twoPrograms.via? ["w", logName] name = none := by
    intro name hname
    obtain rfl := Option.some.inj hname
    decide +kernel
  have hown : ∀ name ∈ logPaths, Unlogged (["tokenize"] ++ [name]) ∧
      read (["tokenize"] ++ [name]) = .ok (.work ⟨.tokenize, some name, false⟩) ∧
      twoPrograms.via? ["w", logName] name = some [] := by
    intro name hname
    simp only [logPaths, List.mem_cons, List.not_mem_nil, or_false] at hname
    unfold Unlogged
    rcases hname with rfl | rfl | rfl | rfl | rfl | rfl <;>
      exact ⟨by decide, rfl, by decide +kernel⟩
  have hquiet₁ : Unlogged (["parse", "a.lox"] ++ []) := by unfold Unlogged; decide
  have hquiet₂ : Unlogged ([] ++ ["parse", "app.log/"]) := by unfold Unlogged; decide
  have hquiet₃ : Unlogged (["help"] ++ []) := by unfold Unlogged; decide
  obtain ⟨-, -, -, hwork₁⟩ :=
    run_insert_log (s := .usual) (d := twoPrograms) hquiet₁ (by decide) rfl rfl
  obtain ⟨-, -, -, hwork₂⟩ :=
    run_insert_log (s := .usual) (d := twoPrograms) hquiet₂ (by decide) rfl rfl
  obtain ⟨hhelp, -⟩ :=
    run_insert_log (s := .usual) (d := twoPrograms) hquiet₃ (by decide) rfl rfl
  have hsame := ((hwork₁ _ hparse).2 _ hplace).1 hother
  have hbehind := (((hwork₂ _ hslash).2 _ hplace).2 _ rfl).2 "" [] (by decide +kernel)
  refine ⟨hsame.1, hsame.2.1, fun name hname => ?_, hbehind.1, ?_⟩
  · obtain ⟨hquiet, hread, hvia⟩ := hown name hname
    have hwork (s : Setting) :=
      (run_insert_log (s := s) (d := twoPrograms) hquiet (by decide) rfl rfl).2.2.2 _ hread
    have hexit (s : Setting) := (((((hwork s).2 _ hplace).2 _ rfl).1 hvia).1 hopen).1
    exact ⟨(hexit .usual).trans rfl, (hexit silent).trans rfl⟩
  · exact congrArg Outcome.exit (hhelp rfl)

/-- **A log can change what a run does.**  A program in a file of the name of the log is
parsed without a log; with one the file is emptied before it is read, and the run ends with
65. -/
theorem log_changes_run :
    Unlogged ["parse", "app.log"] ∧
      twoPrograms.find logName = .ok (.file "print 1;".toUTF8) ∧
      (run ["parse", "app.log"] twoPrograms).exit = 0 ∧
      (run ["parse", "app.log"] twoPrograms).out = "(print 1.0)\n" ∧
      (run ["parse", "app.log", "--log"] twoPrograms).exit = 65 := by
  have hasks : Asks ["parse", "app.log"] (.parse false) logName := by rfl
  have hfile : twoPrograms.find logName = .ok (.file "print 1;".toUTF8) := by rfl
  obtain ⟨hexit, hout, -⟩ := hasks.run_of_text hfile rfl
  have hread : read ["parse", "app.log", "--log"] =
      .ok (.work (Invocation.withLog true ⟨.parse false, some logName, false⟩)) := by rfl
  have hplace : twoPrograms.placeFor logName = .ok ["w", logName] := by rfl
  refine ⟨by unfold Unlogged; decide, hfile, ?_, ?_, ?_⟩
  · rw [hexit]
    decide +kernel
  · rw [hout]
    decide +kernel
  · have hvia : twoPrograms.via? ["w", logName] logName = some [] := by decide +kernel
    obtain ⟨hlogged, -⟩ := runIn_of_logged .usual hread hplace
    rw [run, hlogged, work_begun_of_own hplace rfl hvia rfl, exit_of_begun]
    rfl

end Cli
end LoxFront
