/-
The command line agrees with the library.

A command runs its program against streams, a caller of the library on
buffers. The two ways come to the same (`runFile_eq_runStreams`), and what a
command shows of a run is the streams as the run has left them
(`CommandLine.run_of_options`). An error that is meant for the user comes up
before the streams are touched (`streams_of_report`): a program that has begun
to run fails for other reasons only. So what the library gives tells the
outcome of the command (`CommandLine.run_of_library`).

The verbose switch does not take part in any of this. Whoever reads the words
of a command carries the flag along without looking at it
(`Reading.readWords_loud`), and a run does not know of it.
-/
import Brainfuck.CommandLine
import Brainfuck.Proofs.Decoding

namespace Brainfuck

/-! ## Buffers and streams -/

/-- A program that has begun to run does not fail in a way that is meant for
the user. -/
theorem Ending.not_report {e : Ending} {f : Failure} (h : e.failure? = some f) :
    f.isReport = false := by
  cases e with
  | finished => cases h
  | stopped g => cases h; rfl
  | unfinished => cases h; rfl

/-- Running the program in a file on a buffer is running it against a source
that gives the bytes of the buffer and a sink that takes everything. -/
theorem runFile_eq_runStreams (fuel : Nat) (codecs : Codecs) (disk : Disk) (path : String)
    (input : Array UInt8) (options : Options) :
    let streams := runStreams fuel codecs disk path (.ofBytes input) (.empty none) options
    runFile fuel codecs disk path input options =
      match streams.result with
      | .ok code => .ok ⟨streams.sink.held, code⟩
      | .error f => .error f := by
  simp only [runFile, runStreams, loadProgram]
  cases readSource codecs disk path options.encoding with
  | error f => rfl
  | ok text =>
    simp only [runText]
    cases ((Interpreter.new options.memorySize (.ofBytes input) (.empty none)).run fuel
      (Code.parse (.text text))).1.failure? with
    | none => rfl
    | some f => rfl

/-- An error that is meant for the user leaves the streams alone. -/
theorem streams_of_report {fuel : Nat} {codecs : Codecs} {disk : Disk} {path : String}
    {source : Source} {sink : Sink} {options : Options} {f : Failure}
    (h : (runStreams fuel codecs disk path source sink options).result = .error f)
    (hf : f.isReport = true) :
    (runStreams fuel codecs disk path source sink options).source = source ∧
      (runStreams fuel codecs disk path source sink options).sink = sink := by
  simp only [runStreams] at h ⊢
  cases hload : loadProgram codecs disk path options.encoding with
  | error g => exact ⟨rfl, rfl⟩
  | ok code =>
    simp only [hload] at h
    cases hend : ((Interpreter.new options.memorySize source sink).run fuel code).1.failure? with
    | none => simp [hend] at h
    | some g =>
      simp only [hend] at h
      cases h
      rw [Ending.not_report hend] at hf
      cases hf

namespace CommandLine

/-- What the library gives for the values of a command: options are made of
them, and the file is run on the bytes of the input. -/
def Arguments.libraryRun (fuel : Nat) (codecs : Codecs) (disk : Disk) (stdin : Array UInt8)
    (args : Arguments) : Except Failure RunResult :=
  match Options.ofValue (.int args.memorySize) args.encoding with
  | .error e => .error (.config e)
  | .ok options => runFile fuel codecs disk args.inputFile stdin options

/-! ## The outcome of a command -/

section Outcome

variable {fuel : Nat} {codecs : Codecs} {disk : Disk} {stdin : Array UInt8} {argv : List String}
  {args : Arguments}

@[simp] theorem failed_stdout (f : Failure) (stdout : Array UInt8) (stderr : String) (reads : Nat) :
    (failed f stdout stderr reads).stdout = stdout := by
  unfold failed
  split <;> rfl

/-- A command whose options are refused. -/
theorem run_of_config {e : ConfigError} (h : Arguments.parse argv = .ok args)
    (he : Options.ofValue (.int args.memorySize) args.encoding = .error e) :
    run fuel codecs disk stdin argv = failed (.config e) #[] "" 0 := by
  simp only [run, h, prepare, Ready.ofArguments, he]

/-- A command whose options are accepted: its outcome is that of a run against
streams, and some lines are shown if that is asked for. An error that is meant
for the user stands alone. -/
theorem run_of_options {options : Options} (h : Arguments.parse argv = .ok args)
    (ho : Options.ofValue (.int args.memorySize) args.encoding = .ok options) (fuel : Nat)
    (codecs : Codecs) (disk : Disk) (stdin : Array UInt8) :
    let streams := runStreams fuel codecs disk args.inputFile (.ofBytes stdin) (.empty none) options
    ∃ shown, (args.verbose = false → shown = "") ∧
      run fuel codecs disk stdin argv =
        match streams.result with
        | .ok _ => ⟨.status 0, streams.sink.held, shown, streams.source.reads⟩
        | .error f =>
          failed f streams.sink.held (if f.isReport then "" else shown) streams.source.reads := by
  simp only [run, h, prepare, Ready.ofArguments, ho, runStreams]
  cases hload : loadProgram codecs disk args.inputFile options.encoding with
  | error f => exact ⟨"", fun _ => rfl, by simp only [ite_self]; rfl⟩
  | ok code =>
    simp only [Ready.outcome, Ready.interpreter]
    generalize (Interpreter.new options.memorySize (.ofBytes stdin) (.empty none)).run fuel code = r
    refine ⟨if args.verbose then logText r.2.log else "", fun hquiet => by simp [hquiet], ?_⟩
    cases hend : r.1.failure? with
    | none => rfl
    | some f => simp only [Ending.not_report hend]; rfl

/-- What an accepted command writes is what a run against streams writes. -/
theorem stdout_of_options {options : Options} (h : Arguments.parse argv = .ok args)
    (ho : Options.ofValue (.int args.memorySize) args.encoding = .ok options) :
    (run fuel codecs disk stdin argv).stdout =
      (runStreams fuel codecs disk args.inputFile (.ofBytes stdin) (.empty none) options).sink.held := by
  obtain ⟨shown, -, hrun⟩ := run_of_options h ho fuel codecs disk stdin
  rw [hrun]
  obtain ⟨source, sink, result⟩ :=
    runStreams fuel codecs disk args.inputFile (.ofBytes stdin) (.empty none) options
  cases result with
  | ok code => rfl
  | error f => exact failed_stdout ..

/-- The outcome of an accepted command is told by what the library gives. -/
theorem run_of_library (h : Arguments.parse argv = .ok args) (fuel : Nat) (codecs : Codecs)
    (disk : Disk) (stdin : Array UInt8) :
    ∃ written shown reads, (args.verbose = false → shown = "") ∧
      run fuel codecs disk stdin argv =
        match args.libraryRun fuel codecs disk stdin with
        | .ok r => ⟨.status 0, r.output, shown, reads⟩
        | .error f =>
          if f.isReport then ⟨.status 1, #[], reportText f, 0⟩
          else ⟨.escaped f, written, shown, reads⟩ := by
  have hreported {f : Failure} (hf : f.isReport = true) :
      failed f #[] "" 0 = ⟨.status 1, #[], reportText f, 0⟩ := by
    rw [failed, if_pos hf, String.empty_append]
  rw [Arguments.libraryRun]
  cases ho : Options.ofValue (.int args.memorySize) args.encoding with
  | error e => exact ⟨#[], "", 0, fun _ => rfl, (run_of_config h ho).trans (hreported rfl)⟩
  | ok options =>
    obtain ⟨shown, hquiet, hrun⟩ := run_of_options h ho fuel codecs disk stdin
    let streams := runStreams fuel codecs disk args.inputFile (.ofBytes stdin) (.empty none) options
    refine ⟨streams.sink.held, shown, streams.source.reads, hquiet, hrun.trans ?_⟩
    simp only [runFile_eq_runStreams, streams]
    cases hresult :
        (runStreams fuel codecs disk args.inputFile (.ofBytes stdin) (.empty none) options).result with
    | ok code => rfl
    | error f =>
      by_cases hf : f.isReport = true
      · obtain ⟨hsource, hsink⟩ := streams_of_report hresult hf
        simp only [hsource, hsink, if_pos hf]
        exact hreported hf
      · simp only [failed, if_neg hf]

theorem answer_of_library (h : Arguments.parse argv = .ok args) :
    (run fuel codecs disk stdin argv).answer =
      match args.libraryRun fuel codecs disk stdin with
      | .ok _ => .status 0
      | .error f => if f.isReport then .status 1 else .escaped f := by
  obtain ⟨written, shown, reads, -, hrun⟩ := run_of_library h fuel codecs disk stdin
  rw [hrun]
  cases args.libraryRun fuel codecs disk stdin with
  | ok r => rfl
  | error f => exact apply_ite Outcome.answer ..

/-- What is told to the user: the error, and a line for the hint. -/
theorem reportText_eq (f : Failure) :
    reportText f = "bfi: error: " ++ f.message ++ "\n" ++
      (f.hint?.map fun hint => "Hint: " ++ hint.text ++ "\n").getD "" := by
  rw [reportText]
  cases f.hint? with
  | none => exact (String.append_empty).symm
  | some hint => simp only [errorLine, Option.map_some, Option.getD_some, String.append_assoc]

/-- Commands with the same values but for the flag. -/
theorem run_of_same_values (h : Arguments.parse argv = .ok args) {argv' : List String}
    {args' : Arguments} (h' : Arguments.parse argv' = .ok args')
    (hsame : { args' with verbose := args.verbose } = args) :
    (run fuel codecs disk stdin argv').answer = (run fuel codecs disk stdin argv).answer ∧
      (run fuel codecs disk stdin argv').stdout = (run fuel codecs disk stdin argv).stdout := by
  obtain ⟨file, memorySize, encoding, verbose⟩ := args
  obtain ⟨file', memorySize', encoding', verbose'⟩ := args'
  cases hsame
  constructor
  · -- The library is not told of the flag.
    rw [answer_of_library h, answer_of_library h']
    rfl
  · cases ho : Options.ofValue (.int memorySize') encoding' with
    | error e => rw [run_of_config h ho, run_of_config h' ho]
    | ok options => rw [stdout_of_options h ho, stdout_of_options h' ho]

end Outcome

/-! ## The verbose switch -/

/-- The same reading, with the flag up. -/
def Reading.loud (r : Reading) : Reading :=
  { r with verbose := true }

namespace Reading

theorem loud_setAside (r : Reading) (word : String) :
    r.loud.setAside word = (r.setAside word).loud := rfl

theorem loud_inputFile? (r : Reading) : r.loud.inputFile? = r.inputFile? := rfl

theorem act_loud (r : Reading) (s : Switch) (value : String) :
    r.loud.act s value = (r.act s value).map loud := by
  cases s with
  | help | verbose | encoding => rfl
  | memorySize =>
    simp only [act]
    cases Numeral.readInt? value.toList <;> rfl

theorem actAll_loud (r : Reading) (ss : List Switch) :
    r.loud.actAll ss = (r.actAll ss).map loud := by
  induction ss generalizing r with
  | nil => rfl
  | cons s ss ih =>
    rw [actAll, act_loud, actAll]
    cases r.act s "" with
    | ok r => exact ih r
    | error e => rfl

theorem finish_loud (r : Reading) :
    r.loud.finish = r.finish.map fun args => { args with verbose := true } := by
  obtain ⟨inputFile?, memorySize, encoding, verbose, extras⟩ := r
  cases inputFile? with
  | none => rfl
  | some file => cases extras <;> rfl

/-- The flag is carried along, whatever the words. -/
theorem readWords_loud (r : Reading) (beside : Bool) (ws : List Word) :
    r.loud.readWords beside ws = (r.readWords beside ws).map loud := by
  fun_induction readWords r beside ws with
  | case3 r beside ws ih => cases beside <;> exact ih
  | case4 r beside text ws hfile ih =>
    simp only [readWords, loud_inputFile?, hfile]
    exact ih
  -- A switch and its value act on the reading, and the words behind go on from there.
  | _ =>
    simp only [readWords, loud_setAside, loud_inputFile?, actAll_loud, act_loud, Except.map, *,
      if_true, Bool.false_eq_true, if_false]

theorem readWords_verbose (long : Bool) (ws : List Word) :
    start.readWords true (.switch .verbose long [] :: ws) = (start.readWords true ws).map loud := by
  have hspell : spell .verbose long [] = .ok ⟨[], .bare .verbose⟩ := by
    cases long <;> rfl
  rw [← readWords_loud, readWords, hspell]
  rfl

end Reading

/-- A verbose switch in front of a command, however it is spelled, puts up the
flag and does nothing else. -/
theorem parse_verbose {word : String} {long : Bool}
    (h : Word.classify word = .ok (.switch .verbose long [])) (argv : List String) :
    Arguments.parse (word :: argv) =
      (Arguments.parse argv).map fun args => { args with verbose := true } := by
  have hword : (word == "--") = false := by
    rw [beq_eq_false_iff_ne]
    rintro rfl
    cases h
  rw [Arguments.parse, Arguments.parse, Word.ofArguments, hword, h]
  cases Word.ofArguments argv with
  | error e => rfl
  | ok ws =>
    simp only [Bool.false_eq_true, if_false, Reading.readWords_verbose]
    cases Reading.start.readWords true ws with
    | error e => rfl
    | ok r => exact r.finish_loud

/-- **The command line agrees with the library.** Take a command that is
accepted, with its values. If the library makes options of them and runs the
file on the bytes of the input, the status is 0, the output is that of the
library, and nothing is shown beside it unless the command is verbose. If the
library fails with an error that is meant for the user, the status is 1,
nothing is written and not a byte of the input is read, and what is shown is
the error and the hint that goes with it. A command with the same values but
for the flag answers and writes the same; and a verbose switch in front makes
such a command. -/
theorem run_agrees_with_library {argv : List String} {args : Arguments}
    (h : Arguments.parse argv = .ok args) (fuel : Nat) (codecs : Codecs) (disk : Disk)
    (stdin : Array UInt8) :
    let outcome := run fuel codecs disk stdin argv
    (∀ r, args.libraryRun fuel codecs disk stdin = .ok r →
      outcome.answer = .status 0 ∧ outcome.stdout = r.output ∧
        (args.verbose = false → outcome.stderr = "")) ∧
      (∀ f, args.libraryRun fuel codecs disk stdin = .error f → f.isReport = true →
        outcome.answer = .status 1 ∧ outcome.stdout = #[] ∧ outcome.reads = 0 ∧
          outcome.stderr = "bfi: error: " ++ f.message ++ "\n" ++
            (f.hint?.map fun hint => "Hint: " ++ hint.text ++ "\n").getD "") ∧
      (∀ argv' args', Arguments.parse argv' = .ok args' →
        { args' with verbose := args.verbose } = args →
          (run fuel codecs disk stdin argv').answer = outcome.answer ∧
            (run fuel codecs disk stdin argv').stdout = outcome.stdout) ∧
      ∀ word long, Word.classify word = .ok (.switch .verbose long []) →
        Arguments.parse (word :: argv) = .ok { args with verbose := true } := by
  intro outcome
  obtain ⟨written, shown, reads, hquiet, hrun⟩ := run_of_library h fuel codecs disk stdin
  refine ⟨fun r hr => ?_, fun f hf hreport => ?_,
    fun argv' args' h' hsame => run_of_same_values h h' hsame,
    fun word long hword => by rw [parse_verbose hword, h]; rfl⟩
  · have houtcome : outcome = ⟨.status 0, r.output, shown, reads⟩ := by
      rw [hr] at hrun
      exact hrun
    rw [houtcome]
    exact ⟨rfl, rfl, hquiet⟩
  · have houtcome : outcome = ⟨.status 1, #[], reportText f, 0⟩ := by
      rw [hf] at hrun
      exact hrun.trans (if_pos hreport)
    rw [houtcome]
    exact ⟨rfl, rfl, rfl, reportText_eq f⟩

/-- A program that copies a byte, and a file that is not there. -/
theorem run_agrees_with_library_copy :
    let disk : Disk := fun path => if path = "p.bf" then .ok [0x2C, 0x2E] else .error .missing
    ((run 9 .empty disk #[7, 8] ["-m", "3", "p.bf"]).answer = .status 0 ∧
      (run 9 .empty disk #[7, 8] ["-m", "3", "p.bf"]).stdout = #[7]) ∧
      (run 9 .empty disk #[7, 8] ["-v", "-m", "3", "p.bf"]).stdout = #[7] ∧
      (run 9 .empty disk #[7, 8] ["q.bf"]).answer = .status 1 ∧
      (run 9 .empty disk #[7, 8] ["q.bf"]).reads = 0 ∧
      (run 9 .empty disk #[7, 8] ["q.bf"]).stderr =
        "bfi: error: no such file: 'q.bf'\n" ++
          "Hint: Check the path; it is resolved relative to the current directory.\n" := by
  intro disk
  have hcopy : Arguments.parse ["-m", "3", "p.bf"] = .ok ⟨"p.bf", 3, "utf-8", false⟩ := rfl
  have husual : Encoding.ofName? "utf-8" = some .utf8 := by decide
  have hread : readSource .empty disk "p.bf" "utf-8" = .ok ",." :=
    (readSource_ok_iff_readText rfl husual).mpr ⟨by decide, by decide, by cbv⟩
  have hran : Arguments.libraryRun 9 .empty disk #[7, 8] ⟨"p.bf", 3, "utf-8", false⟩ =
      .ok ⟨#[7], .act .input (.act .output .nil)⟩ := by
    show runFile 9 .empty disk "p.bf" #[7, 8] ⟨⟨3, by decide⟩, "utf-8"⟩ = _
    rw [runFile, hread]
    rfl
  have hagrees := run_agrees_with_library hcopy 9 .empty disk #[7, 8]
  obtain ⟨hstatus, hstdout, -⟩ := hagrees.1 _ hran
  have hloud := hagrees.2.2.2 "-v" false rfl
  have hgone : Arguments.parse ["q.bf"] = .ok ⟨"q.bf", 30000, "utf-8", false⟩ := rfl
  have hfailed : Arguments.libraryRun 9 .empty disk #[7, 8] ⟨"q.bf", 30000, "utf-8", false⟩ =
      .error (.source ⟨"q.bf", .missing⟩) := rfl
  obtain ⟨hstatus', -, hreads', hstderr'⟩ :=
    (run_agrees_with_library hgone 9 .empty disk #[7, 8]).2.1 _ hfailed rfl
  exact ⟨⟨hstatus, hstdout⟩, (hagrees.2.2.1 _ _ hloud rfl).2.trans hstdout, hstatus', hreads',
    hstderr'⟩

end CommandLine

end Brainfuck
