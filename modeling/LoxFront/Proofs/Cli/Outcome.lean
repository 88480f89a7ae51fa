/-
# What a run on a file comes to

Parsing a source comes to one of four verdicts (`Cli.verdict`), and the exit code and
the errors of a run are those of the verdict, whether the tree is wanted as text or as
JSON (`Cli.parseSource_eq`).  So the exit code tells what is in the file, with one code
more for a file that is no text (`Cli.parse_outcome`).
-/

import LoxFront.Cli.Run
import LoxFront.Proofs.Parse.HandOver

namespace LoxFront

/-- Bytes are read as the text that they are kept for, if there is one. -/
theorem Text.decode_eq_ok_iff {bytes : ByteArray} {s : String} :
    Text.decode bytes = .ok s ↔ s.toUTF8 = bytes := by
  rw [Text.decode]
  constructor
  · intro h
    split at h
    · next s' hs' =>
      obtain rfl := Except.ok.inj h
      rw [String.fromUTF8?] at hs'
      split at hs'
      · rw [← Option.some.inj hs']
        rfl
      · cases hs'
    · cases h
  · rintro rfl
    rw [String.fromUTF8?, String.toUTF8_eq_toByteArray, dif_pos s.isValidUTF8]
    rfl

namespace Cli

/-- What parsing a source comes to. -/
inductive Verdict where
  /-- There are lexical errors. -/
  | unscanned (errors : List Diagnostic)
  /-- There are syntax errors. -/
  | rejected (report : Report)
  /-- The tokens cannot be parsed at all. -/
  | refused (cause : Diagnostic)
  | accepted (p : Program)

namespace Verdict

/-- The exit code for a verdict. -/
def exit : Verdict → Nat
  | unscanned _ | rejected _ => dataError
  | refused _ => softwareError
  | accepted _ => 0

/-- What is said about the errors, one a line. -/
def err : Verdict → String
  | unscanned errors => lines (errors.map Diagnostic.text)
  | rejected report => lines (report.errors.map ParseError.text)
  | refused cause => cause.text ++ "\n"
  | accepted _ => ""

/-- The tree, in the one form or the other. -/
def out (json : Bool) : Verdict → String
  | accepted p => (if json then p.json.pretty else p.text) ++ "\n"
  | _ => ""

end Verdict

/-- The verdict on a source. -/
def verdict (source : String) : Verdict :=
  match Scan.tokens source with
  | .error errors => .unscanned errors
  | .ok tokens =>
    match parse tokens with
    | .ok p => .accepted p
    | .error (.rejected report) => .rejected report
    | .error (.fatal cause) => .refused cause

/-- **Parsing a source leaves its verdict.** -/
theorem parseSource_eq (json : Bool) (source : String) :
    (parseSource json source).exit = (verdict source).exit ∧
      (parseSource json source).out = (verdict source).out json ∧
      (parseSource json source).err = (verdict source).err := by
  unfold parseSource parseTokens verdict
  cases Scan.tokens source with
  | error errors => exact ⟨rfl, rfl, rfl⟩
  | ok tokens =>
    dsimp only
    cases parse tokens with
    | ok p => exact ⟨rfl, rfl, rfl⟩
    | error f => cases f <;> exact ⟨rfl, rfl, rfl⟩

/-! ### Which verdict -/

section Verdicts

variable {source : String}

/-- A scan that fails has errors. -/
theorem errors_ne_nil {errors : List Diagnostic} (h : Scan.tokens source = .error errors) :
    errors ≠ [] := by
  rw [Scan.tokens] at h
  split at h
  · cases h
  · next hempty =>
    rw [← Except.error.inj h]
    simpa using hempty

/-- The four verdicts, by the scan and the parser. -/
theorem verdict_cases (source : String) :
    (∃ errors, Scan.tokens source = .error errors ∧ errors ≠ [] ∧
        verdict source = .unscanned errors) ∨
      (∃ ts report, Scan.tokens source = .ok ts ∧ parse ts = .error (.rejected report) ∧
        report.errors ≠ [] ∧ verdict source = .rejected report) ∨
      (∃ line, Scan.Gap source.toList [] ∧ Scan.tokens source = .ok [.atEnd line] ∧
        verdict source = .refused Fault.onlyEnd.diagnostic) ∨
      ∃ ts p, Scan.tokens source = .ok ts ∧ parse ts = .ok p ∧ verdict source = .accepted p := by
  cases hts : Scan.tokens source with
  | error errors => exact .inl ⟨errors, rfl, errors_ne_nil hts, by rw [verdict, hts]⟩
  | ok ts =>
    by_cases hgap : Scan.Gap source.toList []
    · obtain ⟨line, rfl⟩ := (Scan.gap_iff_of_tokens hts).1 hgap
      refine .inr (.inr (.inl ⟨line, hgap, rfl, ?_⟩))
      rw [verdict, hts]
      rfl
    · obtain ⟨body, line, rfl, hsound⟩ := Scan.sound_of_not_gap hts hgap
      rcases parse_ends (Cursor.ofTokens_concat hsound) with ⟨p, hp⟩ | ⟨report, hp, hne⟩
      · exact .inr (.inr (.inr ⟨_, p, rfl, hp, by simp only [verdict, hts, hp]⟩))
      · exact .inr (.inl ⟨_, report, rfl, hp, hne, by simp only [verdict, hts, hp]⟩)

/-- The scan of a source finds errors, or the parser does. -/
def Fails (source : String) : Prop :=
  (∃ errors, Scan.tokens source = .error errors) ∨
    ∃ ts report, Scan.tokens source = .ok ts ∧ parse ts = .error (.rejected report)

/-- Lexical errors are the verdict, whatever the tokens would have parsed to. -/
theorem verdict_of_errors {errors : List Diagnostic} (h : Scan.tokens source = .error errors) :
    verdict source = .unscanned errors := by
  rw [verdict, h]

/-- Without lexical errors, the report of the parser is the verdict. -/
theorem verdict_of_report {ts : List Token} {report : Report} (hts : Scan.tokens source = .ok ts)
    (h : parse ts = .error (.rejected report)) : verdict source = .rejected report := by
  simp only [verdict, hts, h]

/-- The exit code 65 tells that the source is at fault: a scan or a parse found errors in it. -/
theorem exit_eq_dataError_iff : (verdict source).exit = 65 ↔ Fails source := by
  constructor
  · intro h
    rcases verdict_cases source with ⟨errors, hts, -⟩ | ⟨ts, report, hts, hp, -⟩ |
      ⟨line, -, -, hv⟩ | ⟨ts, p, -, -, hv⟩
    · exact .inl ⟨errors, hts⟩
    · exact .inr ⟨ts, report, hts, hp⟩
    · exact absurd h (by rw [hv]; decide)
    · exact absurd h (by rw [hv, Verdict.exit]; decide)
  · rintro (⟨errors, hts⟩ | ⟨ts, report, hts, hp⟩)
    · rw [verdict_of_errors hts]
      rfl
    · rw [verdict_of_report hts hp]
      rfl

/-- The exit code 70 tells that there is no lexeme in the source, only blanks and comments. -/
theorem exit_eq_softwareError_iff :
    (verdict source).exit = 70 ↔ Scan.Gap source.toList [] := by
  constructor
  · intro h
    rcases verdict_cases source with ⟨errors, -, -, hv⟩ | ⟨ts, report, -, -, -, hv⟩ |
      ⟨line, hgap, -⟩ | ⟨ts, p, -, -, hv⟩
    · exact absurd h (by rw [hv, Verdict.exit]; decide)
    · exact absurd h (by rw [hv, Verdict.exit]; decide)
    · exact hgap
    · exact absurd h (by rw [hv, Verdict.exit]; decide)
  · intro hgap
    obtain ⟨line, -, hts⟩ := Scan.tokens_of_gap hgap
    rw [verdict, hts]
    rfl

end Verdicts

namespace Verdict

/-- A verdict has one of three exit codes. -/
theorem exit_eq_zero_iff {v : Verdict} : v.exit = 0 ↔ v.exit ≠ 65 ∧ v.exit ≠ 70 := by
  cases v <;> simp [exit, dataError, softwareError]

/-- The exit code 1 is kept for failures outside the source. -/
theorem exit_ne_one (v : Verdict) : v.exit ≠ 1 := by
  cases v <;> simp [exit, dataError, softwareError]

/-- A tree is printed, in the one form or the other, exactly for a program that is accepted. -/
theorem out_ne_empty_iff {v : Verdict} {json : Bool} : v.out json ≠ "" ↔ v.exit = 0 := by
  cases v <;> simp [out, exit, dataError, softwareError, String.append_eq_empty_iff]

end Verdict

/-- Even an empty text makes a line. -/
theorem lines_ne_empty {texts : List String} (h : texts ≠ []) : lines texts ≠ "" := by
  cases texts with
  | nil => exact absurd rfl h
  | cons t texts =>
    rw [lines, List.map_cons, String.join_cons]
    simp [String.append_eq_empty_iff]

/-- Something is said about every source that is no program. -/
theorem err_ne_empty_iff {source : String} :
    (verdict source).err ≠ "" ↔ (verdict source).exit ≠ 0 := by
  rcases verdict_cases source with ⟨errors, -, hne, hv⟩ | ⟨ts, report, -, -, hne, hv⟩ |
    ⟨line, -, -, hv⟩ | ⟨ts, p, -, -, hv⟩ <;> rw [hv]
  · simpa [Verdict.err, Verdict.exit, dataError] using lines_ne_empty (by simpa using hne)
  · simpa [Verdict.err, Verdict.exit, dataError] using lines_ne_empty (by simpa using hne)
  · simp [Verdict.err, Verdict.exit, softwareError, String.append_eq_empty_iff]
  · simp [Verdict.err, Verdict.exit]

/-- A failure is never reported in silence. -/
theorem failureText_ne_empty (message cause : String) : failureText message cause ≠ "" := by
  intro h
  have hend : toString "\n" = "" := (String.append_eq_empty_iff.1 h).2
  exact absurd hend (by decide)

/-! ### Runs on a file -/

section Runs

variable {arguments : List String} {i : Invocation} {name : String} {d : Directory}

/-- A run without a log works in the directory as it is, whatever the setting. -/
theorem runIn_of_quiet (s : Setting) (hread : read arguments = .ok (.work i))
    (hlog : i.log = false) :
    runIn s arguments d = ⟨(i.work d).exit, (i.work d).out, (i.work d).err, d⟩ := by
  rw [runIn, hread]
  simp only [Invocation.run, hlog, Bool.false_eq_true, if_false, Invocation.runQuietly]

/-- The work on a file is an action on it. -/
theorem work_of_file (h : i.file = some name) : i.work d = i.action.onFile d name := by
  rw [Invocation.work, h]

end Runs

/-- The command line asks for this action on this file, and for no log. -/
def Asks (arguments : List String) (action : Action) (name : String) : Prop :=
  read arguments = .ok (.work ⟨action, some name, false⟩)

section Files

variable {arguments : List String} {action : Action} {json : Bool} {name : String} {d : Directory}
  {bytes : ByteArray} {source : String}

/-- A run on a file leaves what the action on its bytes leaves. -/
theorem Asks.run (h : Asks arguments action name) (hfile : d.find name = .ok (.file bytes)) :
    run arguments d = ⟨(action.onBytes name bytes).exit, (action.onBytes name bytes).out,
      (action.onBytes name bytes).err, d⟩ := by
  rw [Cli.run, runIn_of_quiet .usual h rfl, work_of_file rfl, Action.onFile, hfile]

/-- An action on the bytes of a text is the action on the text, but for what the log says about
reading. -/
theorem onBytes_of_text (action : Action) (name : String) (h : source.toUTF8 = bytes) :
    (action.onBytes name bytes).exit = (action.onSource source).exit ∧
      (action.onBytes name bytes).out = (action.onSource source).out ∧
      (action.onBytes name bytes).err = (action.onSource source).err := by
  rw [Action.onBytes, Text.decode_eq_ok_iff.2 h]
  exact ⟨rfl, rfl, rfl⟩

/-- Bytes that are no text are refused in the same words, whatever is to be done. -/
theorem onBytes_of_no_text (h : ∀ source : String, source.toUTF8 ≠ bytes) (name : String) :
    ∃ report, report ≠ "" ∧ ∀ action : Action, (action.onBytes name bytes).exit = 1 ∧
      (action.onBytes name bytes).out = "" ∧ (action.onBytes name bytes).err = report := by
  cases hdecode : Text.decode bytes with
  | ok source => exact absurd (Text.decode_eq_ok_iff.1 hdecode) (h source)
  | error flaw =>
    refine ⟨failureText s!"File {Text.quoted name} is not valid UTF-8" flaw.message,
      failureText_ne_empty _ _, fun action => ?_⟩
    rw [Action.onBytes, hdecode]
    exact ⟨rfl, rfl, rfl⟩

/-- A run that parses a text leaves the verdict on it. -/
theorem Asks.run_of_text (h : Asks arguments (.parse json) name)
    (hfile : d.find name = .ok (.file bytes)) (hsource : source.toUTF8 = bytes) :
    (Cli.run arguments d).exit = (verdict source).exit ∧
      (Cli.run arguments d).out = (verdict source).out json ∧
      (Cli.run arguments d).err = (verdict source).err := by
  obtain ⟨hexit, hout, herr⟩ := onBytes_of_text (.parse json) name hsource
  rw [h.run hfile, hexit, hout, herr]
  exact parseSource_eq json source

/-- Listing the tokens fails exactly if the scan does, with the report of a run that
parses. -/
theorem tokenize_eq (source : String) :
    ((tokenize source).exit = 65 ↔ ∃ errors, Scan.tokens source = .error errors) ∧
      ∀ errors, Scan.tokens source = .error errors →
        (tokenize source).err = (verdict source).err := by
  constructor
  · rw [tokenize, Scan.tokens, Scan.troubles]
    dsimp only
    split
    · simp
    · simp [dataError]
  · intro errors h
    rw [verdict_of_errors h, Verdict.err, tokenize]
    rw [Scan.tokens] at h
    split at h
    · cases h
    · rw [← Except.error.inj h]
      rfl

/-- **The exit code tells what is in the file.**  A run that parses a file, without a log,
ends with 1 if and only if the bytes of the file are no text.  Else it ends with 65 if and
only if there are lexical errors or syntax errors, with 70 if and only if there is nothing
in the source but blanks and comments, and with 0 in all other cases; with 65 it reports
just the lexical errors or, if there are none, the syntax errors, in order, one a line.
It prints something if and only if it ends with 0, and reports something if and only if it
does not; whether JSON is wanted has no bearing on the exit code and the report.  A run
that lists the tokens of the file ends with 65 exactly if there are lexical errors, and
reports the same. -/
theorem parse_outcome (hasks : Asks arguments (.parse json) name)
    (hfile : d.find name = .ok (.file bytes)) :
    ((run arguments d).exit = 1 ↔ ∀ source : String, source.toUTF8 ≠ bytes) ∧
      (∀ source : String, source.toUTF8 = bytes →
        ((run arguments d).exit = 65 ↔ Fails source) ∧
        ((run arguments d).exit = 70 ↔ Scan.Gap source.toList []) ∧
        ((run arguments d).exit = 0 ↔ ¬Fails source ∧ ¬Scan.Gap source.toList []) ∧
        (∀ errors, Scan.tokens source = .error errors →
          (run arguments d).err = lines (errors.map Diagnostic.text)) ∧
        ∀ ts report, Scan.tokens source = .ok ts → parse ts = .error (.rejected report) →
          (run arguments d).err = lines (report.errors.map ParseError.text)) ∧
      ((run arguments d).out ≠ "" ↔ (run arguments d).exit = 0) ∧
      ((run arguments d).err ≠ "" ↔ (run arguments d).exit ≠ 0) ∧
      (∀ arguments' json', Asks arguments' (.parse json') name →
        (run arguments' d).exit = (run arguments d).exit ∧
          (run arguments' d).err = (run arguments d).err) ∧
      ∀ arguments', Asks arguments' .tokenize name →
        ((run arguments' d).exit = 65 ↔
          ∃ source errors, source.toUTF8 = bytes ∧ Scan.tokens source = .error errors) ∧
        ∀ source errors, source.toUTF8 = bytes → Scan.tokens source = .error errors →
          (run arguments' d).err = (run arguments d).err := by
  by_cases htext : ∃ source : String, source.toUTF8 = bytes
  · obtain ⟨source, hsource⟩ := htext
    have hunique : ∀ other : String, other.toUTF8 = bytes → other = source := fun other h =>
      String.toByteArray_inj.1 (h.trans hsource.symm)
    obtain ⟨hexit, hout, herr⟩ := hasks.run_of_text hfile hsource
    rw [hexit, hout, herr]
    refine ⟨⟨fun h => absurd h (Verdict.exit_ne_one _), fun h => absurd hsource (h source)⟩,
      fun other hother => ?_, Verdict.out_ne_empty_iff, err_ne_empty_iff,
      fun arguments' json' h => ?_, fun arguments' h => ?_⟩
    · obtain rfl := hunique other hother
      refine ⟨exit_eq_dataError_iff, exit_eq_softwareError_iff, ?_, fun errors h => ?_,
        fun ts report hts h => ?_⟩
      · rw [Verdict.exit_eq_zero_iff, ne_eq, ne_eq, exit_eq_dataError_iff,
          exit_eq_softwareError_iff]
      · rw [verdict_of_errors h]
        rfl
      · rw [verdict_of_report hts h]
        rfl
    · obtain ⟨hexit', -, herr'⟩ := h.run_of_text hfile hsource
      exact ⟨hexit', herr'⟩
    · obtain ⟨hexit', -, herr'⟩ := onBytes_of_text .tokenize name hsource
      obtain ⟨htokens, hreport⟩ := tokenize_eq source
      rw [h.run hfile, hexit', herr']
      refine ⟨htokens.trans ⟨fun ⟨errors, he⟩ => ⟨source, errors, hsource, he⟩, ?_⟩, ?_⟩
      · rintro ⟨other, errors, hother, he⟩
        exact ⟨errors, hunique other hother ▸ he⟩
      · intro other errors hother he
        exact hreport errors (hunique other hother ▸ he)
  · have hno : ∀ source : String, source.toUTF8 ≠ bytes := fun source h => htext ⟨source, h⟩
    obtain ⟨report, hreport, hrefused⟩ := onBytes_of_no_text hno name
    have hrun {arguments' : List String} {action : Action} (h : Asks arguments' action name) :
        (run arguments' d).exit = 1 ∧ (run arguments' d).out = "" ∧
          (run arguments' d).err = report := by
      rw [h.run hfile]
      exact hrefused action
    obtain ⟨hexit, hout, herr⟩ := hrun hasks
    rw [hexit, hout, herr]
    refine ⟨⟨fun _ => hno, fun _ => rfl⟩, fun source h => absurd h (hno source), by simp,
      by simpa using hreport, fun arguments' json' h => ?_, fun arguments' h => ?_⟩
    · obtain ⟨hexit', -, herr'⟩ := hrun h
      exact ⟨hexit', herr'⟩
    · obtain ⟨hexit', -, -⟩ := hrun h
      rw [hexit']
      exact ⟨⟨(fun h => nomatch h), fun ⟨source, _, h, _⟩ => absurd h (hno source)⟩,
        fun source _ h => absurd h (hno source)⟩

/-- A file with a string that is not closed. -/
def halfString : Directory := .ofList [("a.lox", .file "print \"a".toUTF8)]

/-- The open string is reported, whether the file is parsed or its tokens are listed. -/
theorem parse_outcome_halfString :
    Asks ["parse", "a.lox"] (.parse false) "a.lox" ∧
      Asks ["parse", "--json", "a.lox"] (.parse true) "a.lox" ∧
      Asks ["tokenize", "a.lox"] .tokenize "a.lox" ∧
      halfString.find "a.lox" = .ok (.file "print \"a".toUTF8) ∧
      (run ["parse", "a.lox"] halfString).exit = 65 ∧
      (run ["parse", "a.lox"] halfString).err = "[line 1] Error: Unterminated string.\n" ∧
      (run ["parse", "--json", "a.lox"] halfString).exit = 65 ∧
      (run ["tokenize", "a.lox"] halfString).exit = 65 ∧
      (run ["tokenize", "a.lox"] halfString).err = "[line 1] Error: Unterminated string.\n" := by
  have hasks : Asks ["parse", "a.lox"] (.parse false) "a.lox" := by rfl
  have hjson : Asks ["parse", "--json", "a.lox"] (.parse true) "a.lox" := by rfl
  have hlists : Asks ["tokenize", "a.lox"] .tokenize "a.lox" := by rfl
  have hfile : halfString.find "a.lox" = .ok (.file "print \"a".toUTF8) := by rfl
  have hscan : Scan.tokens "print \"a" = .error [.lexical 1 "Unterminated string."] := by
    decide +kernel
  have htext : lines ([Diagnostic.lexical 1 "Unterminated string."].map Diagnostic.text) =
      "[line 1] Error: Unterminated string.\n" := by decide +kernel
  obtain ⟨-, hsource, -, -, hother, htokenize⟩ := parse_outcome hasks hfile
  obtain ⟨hexit, -, -, herr, -⟩ := hsource _ rfl
  have hfails := hexit.2 (.inl ⟨_, hscan⟩)
  obtain ⟨hlisted, hsame⟩ := htokenize _ hlists
  refine ⟨hasks, hjson, hlists, hfile, hfails, (herr _ hscan).trans htext,
    (hother _ _ hjson).1.trans hfails, hlisted.2 ⟨_, _, rfl, hscan⟩, ?_⟩
  rw [hsame _ _ rfl hscan, herr _ hscan, htext]

end Files

end Cli
end LoxFront
