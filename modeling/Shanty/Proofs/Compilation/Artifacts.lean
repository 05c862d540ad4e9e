/-
# What artifacts change

A compilation may be asked for its tokens, for the program as it was parsed and with its names, for
its listing and for its tree. What it compiles does not depend on any of this: whether it succeeds, its
code and its listing are functions of the text and of the profile.

What it reports depends on one of them. The tokens are listed in a pass of its own over the text, which
makes the same remarks as the parser does, and which goes on where the parser has stopped at a mistake.
So all remarks on literals are made twice; and if some part of the text is no token, then this is
reported, even if the parser has something to complain about before.
-/

import Shanty.Analysis
import Shanty.Proofs.Compilation
import Shanty.Proofs.Tree.RoundTrip

namespace Shanty

open Host

/-- A text with a part that is no token is not parsed. -/
theorem TokenStream.failure_of_parse {text : List Char} {program : Tree.Program}
    (hparse : (Tree.parse (.ofText text)).program = some program) :
    (ofText text).failure = none := by
  obtain ⟨front, last, back, htokens, _, hlast, _⟩ :=
    (Tree.Parser.program_settles _).answers program (Tree.program_of_parse hparse)
  have hmem : last ∈ (fromPlace .origin text).tokens := by
    have hsame : (fromPlace .origin text).tokens = front ++ last :: back := htokens
    simp [hsame]
  exact failure_of_mem_end hmem hlast

/-! ## The analysis of a text -/

namespace Analysis

/-- All phases of the analysis of a text. -/
def ofText (text : List Char) : Except Fault Analysis := do
  (← (Analysis.parse {} (.ofText text)).resolve).check

variable {analysis : Analysis} {program : Tree.Program}

/-- What is checked once the names are resolved. -/
theorem ofText_eq {text : List Char} {state : Resolution.State}
    {resolved : Resolution.Resolved Tree.Program}
    (hparse : (Tree.parse (.ofText text)).program = some program)
    (hresolve : Shanty.resolve {} program = .ok (state, resolved)) :
    ofText text = check
      { program := some resolved.tree, registry := state.registry, chain := state.chain,
        messages := (Tree.parse (.ofText text)).messages ++ resolved.messages,
        failed := if resolved.ok then none else some .resolve } := by
  have hresolves : (Analysis.parse {} (.ofText text)).resolve =
      .ok { (Analysis.parse {} (.ofText text)).after .resolve resolved.ok resolved.messages with
        program := some resolved.tree, registry := state.registry, chain := state.chain } := by
    unfold resolve
    simp only [parse, after, hparse, hresolve]
    rfl
  rw [ofText, hresolves]
  simp only [parse, after, hparse]
  rfl

theorem check_eq (hprogram : analysis.program = some program) (hok : analysis.ok = true)
    {checked : Typing.Checked Tree.Program} (hcheck : Shanty.check program = .ok checked) :
    analysis.check = .ok { analysis.after .check checked.messages.isEmpty checked.messages with
      program := some checked.tree, checked := true } := by
  unfold check
  rw [hprogram]
  dsimp only
  rw [hok, hcheck]
  rfl

theorem check_of_not_ok (hok : analysis.ok = false) : analysis.check = .ok analysis := by
  unfold check
  rw [hok]
  split <;> rfl

end Analysis

namespace Compilation

variable {α β : Type}

/-- What a part of a compilation reports and how it ends, whatever the host replies. -/
def Does (work : Compilation α) (messages : List Message) (result : Option α) : Prop :=
  ∀ reporter : Reporter, reporter.Named → work.Always reporter fun _ result' after =>
    after.Named ∧ result' = result ∧ after.messages = reporter.messages ++ messages

namespace Does

variable {messages messages' : List Message}

theorem bind {work : Compilation α} {next : α → Compilation β} {answer : α} {result : Option β}
    (hwork : work.Does messages (some answer)) (hnext : (next answer).Does messages' result) :
    (work >>= next).Does (messages ++ messages') result := by
  intro reporter hnamed
  refine (hwork reporter hnamed).bind (by simp) ?_
  rintro front _ middle ⟨hmiddle, hanswer, hmessages⟩
  cases hanswer
  refine (hnext middle hmiddle).mono ?_
  rintro back _ after ⟨hafter, rfl, hmessages'⟩
  exact ⟨hafter, rfl, by rw [hmessages', hmessages, List.append_assoc]⟩

/-- A part after one that reports nothing. -/
theorem afterQuiet {work : Compilation α} {next : α → Compilation β} {answer : α}
    {result : Option β} (hwork : work.Does [] (some answer))
    (hnext : (next answer).Does messages result) : (work >>= next).Does messages result :=
  hwork.bind hnext

/-- A part before one that reports nothing. -/
theorem beforeQuiet {work : Compilation α} {next : α → Compilation β} {answer : α}
    {result : Option β} (hwork : work.Does messages (some answer))
    (hnext : (next answer).Does [] result) : (work >>= next).Does messages result := by
  have hboth := hwork.bind hnext
  rwa [List.append_nil] at hboth

/-- A part that fails is the last one. -/
theorem stop {work : Compilation α} (hwork : work.Does messages none) (next : α → Compilation β) :
    (work >>= next).Does messages none := by
  intro reporter hnamed
  refine (hwork reporter hnamed).bind ?_ ?_
  · rintro _ _ ⟨hafter, _, hmessages⟩
    exact ⟨hafter, rfl, hmessages⟩
  · rintro _ _ _ ⟨_, hanswer, _⟩
    cases hanswer

/-- A part that reports nothing. -/
theorem quiet {work : Compilation α} {answer : α} (hwork : ∀ reporter, work.Always reporter
    fun _ result after => result = some answer ∧ after = reporter) : work.Does [] (some answer) := by
  intro reporter hnamed
  refine (hwork reporter).mono ?_
  rintro _ _ _ ⟨rfl, rfl⟩
  exact ⟨hnamed, rfl, (List.append_nil _).symm⟩

theorem pure (answer : α) : Does (Pure.pure answer) [] (some answer) :=
  .quiet fun _ => .pure ⟨rfl, rfl⟩

theorem failure : Does (Alternative.failure : Compilation α) [] none :=
  fun _ hnamed => .failure ⟨hnamed, rfl, (List.append_nil _).symm⟩

theorem artifact (path what text : String) : (artifact path what (.ok text)).Does [] (some ()) :=
  .quiet fun reporter => (artifact_always path what (fun _ => rfl) reporter).mono
    fun _ _ _ hpost => ⟨hpost.1, hpost.2.1⟩

theorem report (hplaced : ∀ message ∈ messages, message.Placed) :
    (report messages).Does messages (some ()) := by
  intro reporter hnamed
  refine (report_always hplaced reporter).mono ?_
  rintro _ _ _ ⟨rfl, rfl⟩
  exact ⟨hnamed, rfl, rfl⟩

theorem phase {work : Compilation α} {result : Option α} (hwork : work.Does messages result)
    {name : String} (hname : name.utf8ByteSize ≤ Reporter.phaseWidth) :
    (phase name work).Does messages result := by
  intro reporter _
  refine (phase_always (hwork (reporter.beginPhase name) hname)).mono ?_
  rintro _ _ _ ⟨hnamed, _, _, _, _, _, hmessages, hresult, hmiddle⟩
  exact ⟨hnamed, hresult, hmessages.trans hmiddle⟩

end Does

/-- What is reported while the tokens are listed, if that was asked for. -/
def Job.listed (job : Job) : List Message :=
  if job.artifacts.tokens = "" then [] else (TokenStream.ofText job.text.toList).messages

/-- Whether the tokens are to be listed, but not all of the text is tokens. -/
def Job.stopsAtTokens (job : Job) : Bool :=
  job.artifacts.tokens ≠ "" && (TokenStream.ofText job.text.toList).failure.isSome

/-- The messages of a compilation, given those of the phases. -/
def Job.reported (job : Job) (messages : List Message) : List Message :=
  if job.stopsAtTokens then job.listed else job.listed ++ messages

theorem Job.reported_of_unlisted {job : Job} (messages : List Message)
    (hempty : job.artifacts.tokens = "") : job.reported messages = messages := by
  simp [reported, listed, stopsAtTokens, hempty]

theorem Job.reported_of_listed {job : Job} (messages : List Message)
    (hpath : job.artifacts.tokens ≠ "") :
    job.reported messages = (TokenStream.ofText job.text.toList).messages ++
      if (TokenStream.ofText job.text.toList).failure.isSome then [] else messages := by
  cases hfailure : (TokenStream.ofText job.text.toList).failure.isSome <;>
    simp [reported, listed, stopsAtTokens, hpath, hfailure]

theorem listTokens_does (job : Job) :
    (listTokens job (.ofText job.text.toList)).Does job.listed
      (if job.stopsAtTokens then none else some ()) := by
  unfold listTokens Job.listed Job.stopsAtTokens
  by_cases hpath : job.artifacts.tokens = ""
  · simp only [hpath, ne_eq, not_true_eq_false, if_true, if_false, decide_false, Bool.false_and,
      Bool.false_eq_true]
    exact .pure ()
  · simp only [hpath, ne_eq, not_false_eq_true, if_true, if_false, decide_true, Bool.true_and]
    have hreport := Does.report (TokenStream.placed_ofText job.text.toList none).messages
    refine hreport.beforeQuiet ?_
    cases (TokenStream.ofText job.text.toList).failure.isSome with
    | true => exact .failure
    | false => exact .artifact _ _ _

theorem parse_does (job : Job) :
    (parse job).Does (job.reported (Tree.parse (.ofText job.text.toList)).messages)
      (Tree.parse (.ofText job.text.toList)).program := by
  have hplaced := (Tree.parse_placed (TokenStream.placed_ofText job.text.toList none)).1
  have hlist := listTokens_does job
  unfold parse Job.reported
  cases hstops : job.stopsAtTokens with
  | true =>
      rw [hstops] at hlist
      have hfails : (Tree.parse (.ofText job.text.toList)).program = none := by
        cases hparse : (Tree.parse (.ofText job.text.toList)).program with
        | none => rfl
        | some program =>
            simp [Job.stopsAtTokens, TokenStream.failure_of_parse hparse] at hstops
      rw [hfails]
      exact hlist.stop _
  | false =>
      rw [hstops] at hlist
      refine hlist.bind ?_
      generalize Tree.parse (.ofText job.text.toList) = result at hplaced
      obtain ⟨program?, messages⟩ := result
      refine (Does.report hplaced).beforeQuiet ?_
      cases program? with
      | none => exact .failure
      | some program =>
          have hrest : (Compilation.artifact job.artifacts.parsed "unparse" (.ok program.render) >>=
              fun _ => Pure.pure program).Does [] (some program) :=
            (Does.artifact _ _ _).afterQuiet (.pure program)
          dsimp only
          split
          · exact (Does.quiet fun reporter => print_always _ reporter).afterQuiet hrest
          · exact hrest

theorem resolve_does {program : Tree.Program} (hprogram : ∀ decl ∈ program.decls, decl.Placed)
    {state : Resolution.State} {resolved : Resolution.Resolved Tree.Program}
    (hresolve : Shanty.resolve {} program = .ok (state, resolved)) :
    (resolve program).Does resolved.messages (if resolved.ok then some resolved.tree else none) := by
  have hcandid := resolve_candid {} hprogram _ hresolve
  unfold resolve
  rw [hresolve]
  refine (Does.quiet (ofExcept_always rfl)).afterQuiet ?_
  refine (Does.report fun message hmessage => (hcandid.blames message hmessage).2).beforeQuiet ?_
  cases resolved.ok with
  | true => exact .pure _
  | false => exact .failure

theorem check_does {program : Tree.Program} (hprogram : ∀ decl ∈ program.decls, decl.Placed)
    {checked : Typing.Checked Tree.Program} (hcheck : Shanty.check program = .ok checked) :
    (check program).Does checked.messages
      (if checked.messages.isEmpty then some checked.tree else none) := by
  have hblames := check_blames hprogram checked hcheck
  unfold check
  rw [hcheck]
  refine (Does.quiet (ofExcept_always rfl)).afterQuiet ?_
  refine (Does.report fun message hmessage => (hblames message hmessage).2).beforeQuiet ?_
  cases checked.messages.isEmpty with
  | true => exact .pure _
  | false => exact .failure

/-- The phases of the analysis of a text report some messages, and yield a tree if there is no mistake
in the text. -/
structure Analyzed (text : List Char) (messages : List Message) (tree? : Option Tree.Program) :
    Prop where
  exists_analysis : ∃ analysis, Analysis.ofText text = .ok analysis ∧
    analysis.messages = messages ∧ tree? = if analysis.ok then analysis.program else none
  accepted : ∀ tree ∈ tree?, Accepted text tree

section Analysis

variable {text : List Char} {program : Tree.Program} {state : Resolution.State}
  {resolved : Resolution.Resolved Tree.Program}

theorem analyzed_of_unparsed (hparse : (Tree.parse (.ofText text)).program = none) :
    Analyzed text (Tree.parse (.ofText text)).messages none where
  exists_analysis := by
    refine ⟨Analysis.parse {} (.ofText text), ?_, rfl, ?_⟩
    · simp only [Analysis.ofText, Analysis.resolve, Analysis.parse, hparse]
      rfl
    · simp only [Analysis.parse, hparse]
      rfl
  accepted := by simp

theorem analyzed_of_unresolved (hparse : (Tree.parse (.ofText text)).program = some program)
    (hresolve : Shanty.resolve {} program = .ok (state, resolved)) (hok : resolved.ok = false) :
    Analyzed text ((Tree.parse (.ofText text)).messages ++ resolved.messages) none where
  exists_analysis := by
    rw [Analysis.ofText_eq hparse hresolve, hok]
    exact ⟨_, Analysis.check_of_not_ok rfl, rfl, rfl⟩
  accepted := by simp

theorem analyzed_of_resolved (hparse : (Tree.parse (.ofText text)).program = some program)
    (hresolve : Shanty.resolve {} program = .ok (state, resolved)) (hok : resolved.ok = true)
    {checked : Typing.Checked Tree.Program} (hcheck : Shanty.check resolved.tree = .ok checked) :
    Analyzed text ((Tree.parse (.ofText text)).messages ++ (resolved.messages ++ checked.messages))
      (if checked.messages.isEmpty then some checked.tree else none) where
  exists_analysis := by
    rw [Analysis.ofText_eq hparse hresolve, hok]
    refine ⟨_, Analysis.check_eq rfl rfl hcheck, List.append_assoc _ _ _, ?_⟩
    cases checked.messages.isEmpty <;> rfl
  accepted := by
    intro tree htree
    cases hempty : checked.messages.isEmpty with
    | true =>
        rw [hempty] at htree
        cases htree
        exact ⟨_, checked, ⟨program, state, resolved, hparse, hresolve, hok, rfl⟩, hcheck,
          List.isEmpty_iff.1 hempty, rfl⟩
    | false =>
        rw [hempty] at htree
        cases htree

end Analysis

theorem Job.reported_append {job : Job} (hgoes : job.stopsAtTokens = false)
    (messages more : List Message) :
    job.reported (messages ++ more) = job.reported messages ++ more := by
  simp [Job.reported, hgoes]

theorem analyze_does (job : Job) :
    ∃ messages tree?, Analyzed job.text.toList messages tree? ∧
      (analyze job).Does (job.reported messages) tree? := by
  have hparses : (phase "Parsing" (parse job)).Does _ _ := (parse_does job).phase (by decide)
  unfold analyze
  cases hparse : (Tree.parse (.ofText job.text.toList)).program with
  | none =>
      rw [hparse] at hparses
      refine ⟨_, _, analyzed_of_unparsed hparse, ?_⟩
      exact hparses.stop _
  | some program =>
      rw [hparse] at hparses
      have hgoes : job.stopsAtTokens = false := by
        simp [Job.stopsAtTokens, TokenStream.failure_of_parse hparse]
      have hplaced := (Tree.parse_placed (TokenStream.placed_ofText job.text.toList none)).2 program hparse
      obtain ⟨state, resolved, hresolve, _⟩ := Scoping.exists_resolve_eq {} program
      have hresolves : (phase "Resolving" (resolve program)).Does _ _ :=
        (resolve_does hplaced hresolve).phase (by decide)
      cases hok : resolved.ok with
      | false =>
          rw [hok] at hresolves
          refine ⟨_, _, analyzed_of_unresolved hparse hresolve hok, ?_⟩
          rw [Job.reported_append hgoes]
          refine hparses.bind ?_
          exact hresolves.stop _
      | true =>
          rw [hok] at hresolves
          have hscoped : Scoped job.text.toList resolved.tree :=
            ⟨program, state, resolved, hparse, hresolve, hok, rfl⟩
          obtain ⟨hplaced', checked, hcheck⟩ := hscoped.exists_check_eq
          refine ⟨_, _, analyzed_of_resolved hparse hresolve hok hcheck, ?_⟩
          rw [Job.reported_append hgoes]
          refine hparses.bind ?_
          refine hresolves.bind ?_
          refine (Does.artifact _ _ _).afterQuiet ?_
          exact (check_does hplaced' hcheck).phase (by decide)

/-! ## Whole compilations -/

/-- A whole compilation reports what the analysis of its text reports, and whatever it reports about
tokens before. If it goes on to the end, it delivers the listing and the code of the tree that the
analysis yields. -/
theorem build_always (job : Job) (level : LogLevel) :
    ∃ messages tree?, Analyzed job.text.toList messages tree? ∧
      (run (build job) job level).Always fun log answer =>
        answer.2.messages = job.reported messages ∧
        (answer.1 = some () ↔ tree?.isSome = true) ∧
        ∀ tree ∈ tree?, ∃ listing text most summary, Generates job tree listing text ∧
          log = most ++ [⟨.print summary, ()⟩] ∧ DeliversLast job listing text most := by
  obtain ⟨messages, tree?, hanalyzed, hanalyze⟩ := analyze_does job
  refine ⟨messages, tree?, hanalyzed, ?_⟩
  have hbuild : (build job).Always (job.start level) fun log result after =>
      after.messages = job.reported messages ∧ (result = some () ↔ tree?.isSome = true) ∧
        ∀ tree ∈ tree?, ∃ listing text, Generates job tree listing text ∧
          DeliversLast job listing text log := by
    refine (hanalyze (job.start level) (Nat.zero_le _)).bind ?_ ?_
    · rintro front after ⟨_, rfl, hmessages⟩
      exact ⟨hmessages, by simp, by simp⟩
    · rintro front tree after ⟨_, rfl, hmessages⟩
      refine (generate_delivers job (hanalyzed.accepted tree rfl) after).mono ?_
      rintro log result after' ⟨rfl, _, hafter, listing, text, hgenerates, hdelivers⟩
      refine ⟨hafter.trans hmessages, by simp, ?_⟩
      rintro _ ⟨⟩
      exact ⟨listing, text, hgenerates, hdelivers.later front⟩
  refine Script.Always.bind hbuild ?_
  rintro most ⟨result, reporter⟩ ⟨hmessages, hresult, hdelivers⟩
  refine Script.Always.ask fun _ _ => Script.Always.done ⟨hmessages, hresult, ?_⟩
  intro tree htree
  obtain ⟨listing, text, hgenerates, hlast⟩ := hdelivers tree htree
  exact ⟨listing, text, most, _, hgenerates, rfl, hlast⟩

theorem Analyzed.unique {text : List Char} {messages messages' : List Message}
    {tree? tree?' : Option Tree.Program} (hfirst : Analyzed text messages tree?)
    (hsecond : Analyzed text messages' tree?') : messages = messages' ∧ tree? = tree?' := by
  obtain ⟨analysis, hanalysis, rfl, rfl⟩ := hfirst.exists_analysis
  obtain ⟨analysis', hanalysis', rfl, rfl⟩ := hsecond.exists_analysis
  rw [hanalysis] at hanalysis'
  cases hanalysis'
  exact ⟨rfl, rfl⟩

theorem Generates.unique {job : Job} {tree : Tree.Program} {listing listing' text text' : String}
    (hfirst : Generates job tree listing text) (hsecond : Generates job tree listing' text') :
    listing = listing' ∧ text = text' := by
  obtain ⟨code, hlower, hlisting, htext⟩ := hfirst
  obtain ⟨code', hlower', hlisting', htext'⟩ := hsecond
  rw [hlower] at hlower'
  cases hlower'
  rw [hlisting] at hlisting'
  rw [htext] at htext'
  cases hlisting'
  cases htext'
  exact ⟨rfl, rfl⟩

/-- A text that is not all tokens has one error. -/
theorem Analyzed.errorCount_eq_one {text : List Char} {messages : List Message}
    {tree? : Option Tree.Program} (hanalyzed : Analyzed text messages tree?)
    (hfailure : (TokenStream.ofText text).failure.isSome = true) : errorCount messages = 1 := by
  have hparse : (Tree.parse (.ofText text)).program = none := by
    cases hparse : (Tree.parse (.ofText text)).program with
    | none => rfl
    | some program =>
        rw [TokenStream.failure_of_parse hparse] at hfailure
        cases hfailure
  obtain ⟨rfl, rfl⟩ := hanalyzed.unique (analyzed_of_unparsed hparse)
  rw [Tree.errorCount_parse, hparse]
  rfl

/-- Listing the tokens does not add an error to those of the analysis. -/
theorem Analyzed.errorCount_reported {job : Job} {messages : List Message}
    {tree? : Option Tree.Program} (hanalyzed : Analyzed job.text.toList messages tree?) :
    errorCount (job.reported messages) = errorCount messages := by
  by_cases hempty : job.artifacts.tokens = ""
  · rw [Job.reported_of_unlisted _ hempty]
  · rw [Job.reported_of_listed _ hempty, errorCount_append, TokenStream.errorCount_messages]
    cases hfailure : (TokenStream.ofText job.text.toList).failure.isSome with
    | true => simp [hanalyzed.errorCount_eq_one hfailure]
    | false => simp

/-- The job with other artifacts. -/
def Job.asking (job : Job) (artifacts : Artifacts) : Job := { job with artifacts }

/-- How a compilation goes with a host that does all it is asked to do: whether it succeeds, and how
many messages there are. -/
def trial (job : Job) : Option (Bool × Nat) :=
  (Script.run obliging (run (build job) job .warn) ()).1.toOption.map fun answer =>
    (answer.1.isSome, answer.2.messages.length)

theorem exists_runs_of_trial {job : Job} {ok : Bool} {count : Nat}
    (htrial : trial job = some (ok, count)) :
    ∃ log result reporter, (run (build job) job .warn).Runs log (.ok (result, reporter)) ∧
      (∀ exchange ∈ log, exchange.Granted) ∧ result.isSome = ok ∧
      reporter.messages.length = count := by
  obtain ⟨log, hruns, hlog⟩ :=
    Script.exists_runs_of_run granted_of_obliging (run (build job) job .warn) ()
  unfold trial at htrial
  cases houtcome : (Script.run obliging (run (build job) job .warn) ()).1 with
  | error fault =>
      rw [houtcome] at htrial
      cases htrial
  | ok answer =>
      rw [houtcome] at htrial hruns
      cases htrial
      exact ⟨log, answer.1, answer.2, hruns, hlog, rfl, rfl⟩

/-- A program with a literal that is too large, and nothing wrong with it otherwise. -/
def overflowJob : Job where
  path := "/work/overflow.shy"
  text := "int n; void main() \x7b n = 99999999999; \x7d"

/-- All files that can be asked for besides the code. -/
def allFiles : Artifacts where
  tokens := "tokens.txt"
  parsed := "parsed.txt"
  names := "names.txt"
  listing := "listing.txt"

theorem trial_plain : trial (overflowJob.asking {}) = some (true, 1) := by decide +kernel

theorem trial_allFiles : trial (overflowJob.asking allFiles) = some (true, 2) := by decide +kernel

section Pairs

variable (job : Job) (artifacts artifacts' : Artifacts) (level : LogLevel)
  {log log' : List Exchange} {outcome outcome' : Except Fault (Option Unit × Reporter)}

/-- The artifacts change neither whether a compilation succeeds nor what it generates. Whatever is asked
for besides the code of a text, as long as the host writes what it is asked to write, the compilation
comes to the same end, and if it succeeds, the last thing that it does is to deliver the same code,
and the same listing before, if that was asked for. -/
theorem artifacts_keep_code
    (hruns : (run (build (job.asking artifacts)) (job.asking artifacts) level).Runs log outcome)
    (hlog : ∀ exchange ∈ log, exchange.Granted)
    (hruns' : (run (build (job.asking artifacts')) (job.asking artifacts') level).Runs log' outcome')
    (hlog' : ∀ exchange ∈ log', exchange.Granted) :
    ∃ result reporter reporter', outcome = .ok (result, reporter) ∧
      outcome' = .ok (result, reporter') ∧
      (result = some () → ∃ listing text most most' summary summary',
        log = most ++ [⟨.print summary, ()⟩] ∧ log' = most' ++ [⟨.print summary', ()⟩] ∧
        DeliversLast (job.asking artifacts) listing text most ∧
        DeliversLast (job.asking artifacts') listing text most') := by
  obtain ⟨messages, tree?, hanalyzed, halways⟩ := build_always (job.asking artifacts) level
  obtain ⟨_, _, hanalyzed', halways'⟩ := build_always (job.asking artifacts') level
  obtain ⟨rfl, rfl⟩ := hanalyzed.unique hanalyzed'
  obtain ⟨⟨result, reporter⟩, rfl, _, hresult, hdelivers⟩ := halways log outcome hruns hlog
  obtain ⟨⟨result', reporter'⟩, rfl, _, hresult', hdelivers'⟩ := halways' log' outcome' hruns' hlog'
  obtain rfl : result = result' := by
    have hiff := hresult.trans hresult'.symm
    cases result <;> cases result' <;> simp_all
  refine ⟨result, reporter, reporter', rfl, rfl, fun hsucceeds => ?_⟩
  obtain ⟨tree, htree⟩ := Option.isSome_iff_exists.1 (hresult.1 hsucceeds)
  obtain ⟨listing, text, most, summary, hgenerates, rfl, hlast⟩ := hdelivers tree htree
  obtain ⟨listing', text', most', summary', hgenerates', rfl, hlast'⟩ := hdelivers' tree htree
  obtain ⟨rfl, rfl⟩ := (show Generates job tree listing text from hgenerates).unique hgenerates'
  exact ⟨listing, text, most, most', summary, summary', rfl, rfl, hlast, hlast'⟩

/-- The program with the large literal is compiled to the same code, with all files and without. -/
theorem artifacts_keep_code_overflow :
    ∃ log log' reporter reporter' listing text most most' summary summary',
      (run (build (overflowJob.asking {})) (overflowJob.asking {}) .warn).Runs log
        (.ok (some (), reporter)) ∧ (∀ exchange ∈ log, exchange.Granted) ∧
      (run (build (overflowJob.asking allFiles)) (overflowJob.asking allFiles) .warn).Runs log'
        (.ok (some (), reporter')) ∧ (∀ exchange ∈ log', exchange.Granted) ∧
      log = most ++ [⟨.print summary, ()⟩] ∧ log' = most' ++ [⟨.print summary', ()⟩] ∧
      DeliversLast (overflowJob.asking {}) listing text most ∧
      DeliversLast (overflowJob.asking allFiles) listing text most' := by
  obtain ⟨log, result, reporter, hruns, hlog, hresult, _⟩ := exists_runs_of_trial trial_plain
  obtain ⟨log', result', reporter', hruns', hlog', _⟩ := exists_runs_of_trial trial_allFiles
  obtain ⟨_, _, _, houtcome, houtcome', hkeeps⟩ :=
    artifacts_keep_code overflowJob {} allFiles .warn hruns hlog hruns' hlog'
  cases houtcome
  cases houtcome'
  obtain ⟨⟨⟩, rfl⟩ := Option.isSome_iff_exists.1 hresult
  obtain ⟨listing, text, most, most', summary, summary', hall⟩ := hkeeps rfl
  exact ⟨log, log', reporter, reporter', listing, text, most, most', summary, summary', hruns, hlog,
    hruns', hlog', hall⟩

/-- The artifacts may change what is reported: with a list of the tokens, a literal that is too large
is remarked on twice. -/
theorem not_artifacts_keep_messages :
    ¬∀ (job : Job) (artifacts artifacts' : Artifacts) (level : LogLevel) (log log' : List Exchange)
      (outcome outcome' : Except Fault (Option Unit × Reporter)),
      (run (build (job.asking artifacts)) (job.asking artifacts) level).Runs log outcome →
      (∀ exchange ∈ log, exchange.Granted) →
      (run (build (job.asking artifacts')) (job.asking artifacts') level).Runs log' outcome' →
      (∀ exchange ∈ log', exchange.Granted) →
      ∃ result result' reporter reporter', outcome = .ok (result, reporter) ∧
        outcome' = .ok (result', reporter') ∧ reporter.messages = reporter'.messages := by
  intro hkeep
  obtain ⟨log, result, reporter, hruns, hlog, _, hone⟩ := exists_runs_of_trial trial_plain
  obtain ⟨log', result', reporter', hruns', hlog', _, htwo⟩ := exists_runs_of_trial trial_allFiles
  obtain ⟨_, _, _, _, houtcome, houtcome', hsame⟩ :=
    hkeep overflowJob {} allFiles .warn log log' _ _ hruns hlog hruns' hlog'
  cases houtcome
  cases houtcome'
  rw [hsame, htwo] at hone
  cases hone

/-- Two compilations of a text report the same if they agree on whether the tokens are listed. If one
lists them and the other does not, it reports more remarks, and it may report another error, but not
more of them: if all of the text is tokens, it makes the remarks on all of them first and then reports
what the other one does; and if not, it makes the remarks on the tokens before the part that is none,
and then only reports that part. -/
theorem messages_depend_on_tokens
    (hruns : (run (build (job.asking artifacts)) (job.asking artifacts) level).Runs log outcome)
    (hlog : ∀ exchange ∈ log, exchange.Granted)
    (hruns' : (run (build (job.asking artifacts')) (job.asking artifacts') level).Runs log' outcome')
    (hlog' : ∀ exchange ∈ log', exchange.Granted) :
    ∃ result result' reporter reporter', outcome = .ok (result, reporter) ∧
      outcome' = .ok (result', reporter') ∧
      errorCount reporter.messages = errorCount reporter'.messages ∧
      ((artifacts.tokens = "" ↔ artifacts'.tokens = "") →
        reporter.messages = reporter'.messages) ∧
      (artifacts.tokens = "" → artifacts'.tokens ≠ "" →
        ∀ tokens failure, TokenStream.ofText job.text.toList = ⟨tokens, failure⟩ →
          (failure = none → reporter'.messages = TokenStream.warnings tokens ++ reporter.messages) ∧
          ∀ error, failure = some error →
            reporter'.messages = TokenStream.warnings tokens ++ [error]) := by
  obtain ⟨messages, tree?, hanalyzed, halways⟩ := build_always (job.asking artifacts) level
  obtain ⟨_, _, hanalyzed', halways'⟩ := build_always (job.asking artifacts') level
  obtain ⟨rfl, rfl⟩ := hanalyzed.unique hanalyzed'
  obtain ⟨⟨result, reporter⟩, rfl, hmessages, _⟩ := halways log outcome hruns hlog
  obtain ⟨⟨result', reporter'⟩, rfl, hmessages', _⟩ := halways' log' outcome' hruns' hlog'
  dsimp only at hmessages hmessages'
  refine ⟨result, result', reporter, reporter', rfl, rfl, ?_, fun hiff => ?_,
    fun hempty hpath tokens failure hstream => ?_⟩
  · rw [hmessages, hmessages', hanalyzed.errorCount_reported, hanalyzed'.errorCount_reported]
  · rw [hmessages, hmessages']
    by_cases hempty : artifacts.tokens = ""
    · rw [Job.reported_of_unlisted _ hempty, Job.reported_of_unlisted _ (hiff.1 hempty)]
    · have hpath := mt hiff.2 hempty
      rw [Job.reported_of_listed _ hempty, Job.reported_of_listed _ hpath]
      rfl
  · rw [hmessages', Job.reported_of_listed _ hpath, hmessages, Job.reported_of_unlisted _ hempty]
    have hsame : TokenStream.ofText (job.asking artifacts').text.toList = ⟨tokens, failure⟩ := hstream
    rw [hsame]
    constructor
    · rintro rfl
      simp [TokenStream.messages]
    · rintro error rfl
      simp [TokenStream.messages]

/-- With all files, the compilation of the program with the large literal first makes the remarks on its
tokens and then reports what it does without. -/
theorem messages_depend_on_tokens_overflow :
    ∃ log log' result result' reporter reporter',
      (run (build (overflowJob.asking {})) (overflowJob.asking {}) .warn).Runs log
        (.ok (result, reporter)) ∧ (∀ exchange ∈ log, exchange.Granted) ∧
      (run (build (overflowJob.asking allFiles)) (overflowJob.asking allFiles) .warn).Runs log'
        (.ok (result', reporter')) ∧ (∀ exchange ∈ log', exchange.Granted) ∧
      reporter'.messages =
        TokenStream.warnings (TokenStream.ofText overflowJob.text.toList).tokens ++
          reporter.messages := by
  obtain ⟨log, result, reporter, hruns, hlog, _⟩ := exists_runs_of_trial trial_plain
  obtain ⟨log', result', reporter', hruns', hlog', _⟩ := exists_runs_of_trial trial_allFiles
  obtain ⟨_, _, _, _, houtcome, houtcome', _, _, hlisted⟩ :=
    messages_depend_on_tokens overflowJob {} allFiles .warn hruns hlog hruns' hlog'
  cases houtcome
  cases houtcome'
  have hfailure : (TokenStream.ofText overflowJob.text.toList).failure = none := by decide +kernel
  obtain ⟨hsound, _⟩ := hlisted rfl (by decide) _ _ rfl
  exact ⟨log, log', result, result', reporter, reporter', hruns, hlog, hruns', hlog',
    hsound hfailure⟩

end Pairs

end Compilation

end Shanty
