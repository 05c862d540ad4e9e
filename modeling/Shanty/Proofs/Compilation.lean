/-
# The verdict of a compilation

Each phase says twice how it went, by its messages and by whether it goes on, and the driver asks only
the latter. Here it is shown that the two ways agree, up to the verdict on the whole compilation: as
long as the host writes what it is asked to write, a compilation never breaks off, it succeeds exactly
if no error has been reported, and it delivers names and code exactly if the phases before have
reported none.

The steps of a compilation are followed by what they tell: the messages that they add, and whether
they go on.
-/

import Shanty.Compilation
import Shanty.Proofs.Diagnosis
import Shanty.Proofs.Host
import Shanty.Proofs.Target.Emission

namespace Shanty

open Host

/-! ## Showing messages -/

namespace Reporter

theorem display_succeeds (reporter : Reporter) {message : Message} (hplaced : message.Placed) :
    ∃ shown, reporter.display message = .ok shown := by
  unfold display
  cases hspan : message.span with
  | none => exact ⟨_, rfl⟩
  | some span =>
      have hstart : ¬span.start.line < 0 := Int.not_lt.2 (hplaced span hspan)
      by_cases hsource : reporter.source = ""
      · simp only [hsource, if_true]
        exact ⟨_, rfl⟩
      · simp only [hsource, if_false, Excerpt.ofSpan, Excerpt.touched, hstart, decide_false,
          Bool.false_and, Bool.false_eq_true]
        exact ⟨_, rfl⟩

theorem add_eq (reporter : Reporter) {message : Message} (hplaced : message.Placed) :
    ∃ shown, reporter.add message =
      ({ reporter with messages := reporter.messages ++ [message] }, .ok shown) := by
  unfold add
  split
  · obtain ⟨shown, hshown⟩ := reporter.display_succeeds hplaced
    exact ⟨shown, by rw [hshown]⟩
  · exact ⟨"", rfl⟩

/-- The phase under way has a name that can be filled up. -/
def Named (reporter : Reporter) : Prop := reporter.phase.utf8ByteSize ≤ phaseWidth

/-- A phase can be ended, and no message is lost. -/
theorem Named.endPhase_eq {reporter : Reporter} (hnamed : reporter.Named) (ok : Bool)
    (elapsed : String) :
    ∃ phase shown, reporter.endPhase ok elapsed = ({ reporter with phase }, .ok shown) ∧
      phase.utf8ByteSize ≤ phaseWidth := by
  unfold endPhase
  dsimp only
  split
  · exact ⟨reporter.phase, _, rfl, hnamed⟩
  · rw [if_neg (Nat.not_lt.2 hnamed)]
    exact ⟨"", _, rfl, Nat.zero_le _⟩

end Reporter

/-! ## Listings -/

namespace Code

open Target (Succeeds Yields)

theorem Operand.render_succeeds {site : Site} {width : Int64} {operand : Operand}
    (hhas : site.Has width operand) : Succeeds operand.render := by
  cases operand with
  | nothing => exact hhas.elim
  | _ => exact .ok trivial

theorem Operand.renderPlace_succeeds {site : Site} {width : Int64} {operand : Operand}
    (hstores : site.Stores width operand) : Succeeds operand.renderPlace := by
  cases operand with
  | constant | string => exact absurd hstores.2 (by simp [Operand.isLocated])
  | nothing => exact hstores.1.elim
  | _ => exact .ok trivial

theorem Instr.render_succeeds {site : Site} {labels : List Label} {before after : Pending}
    {instr : Instr} (hfits : site.Fits labels before instr after) : Succeeds instr.render := by
  cases hfits with
  | binary htarget hleft hright =>
      exact (Operand.render_succeeds htarget.1).bind fun _ _ =>
        (Operand.render_succeeds hleft).bind fun _ _ =>
          (Operand.render_succeeds hright).bind fun _ _ => .pure trivial
  | unary htarget hsource | assign htarget hsource =>
      exact (Operand.render_succeeds htarget.1).bind fun _ _ =>
        (Operand.render_succeeds hsource).bind fun _ _ => .pure trivial
  | index _ hbase => exact (Operand.renderPlace_succeeds hbase).bind fun _ _ => .pure trivial
  | ifZero hcondition => exact (Operand.render_succeeds hcondition).bind fun _ _ => .pure trivial
  | setArg hpasses | setRet hpasses =>
      exact (Operand.render_succeeds hpasses.2.1).bind fun _ _ => .pure trivial
  | output _ hsource => exact (Operand.render_succeeds hsource).bind fun _ _ => .pure trivial
  | input _ htarget => exact (Operand.render_succeeds htarget.1).bind fun _ _ => .pure trivial
  | goto | nop | call | enter | leave | getArg | getRet => exact .pure trivial

/-- Quads that fit can be listed. -/
theorem Site.AllFit.render_succeeds {site : Site} {labels : List Label} {before after : Pending}
    {quads : List Quad} (hall : site.AllFit labels before quads after) (verbose : Bool) :
    ∀ quad ∈ quads, Succeeds (quad.render verbose) := by
  induction hall with
  | nil => simp
  | cons hfits _ ih =>
      refine List.forall_mem_cons.2 ⟨?_, ih⟩
      exact (Instr.render_succeeds hfits).bind fun _ _ => .pure trivial

/-- Code that fits can be listed. -/
theorem Program.render_succeeds {program : Program} (hfitting : program.Fitting) (verbose : Bool) :
    Succeeds (program.render verbose) := by
  have hprocedures : ∀ procedure ∈ program.procedures, Succeeds (procedure.render verbose) := by
    intro procedure hprocedure
    obtain ⟨last, hall⟩ := (hfitting.procedures procedure hprocedure).quads_fit
    exact (Yields.mapM (hall.render_succeeds verbose)).bind fun _ _ => .pure trivial
  exact (Yields.mapM hprocedures).bind fun _ _ => .pure trivial

end Code

namespace Compilation

variable {α β : Type}

/-! ## Rules for the steps of a compilation -/

/-- What always holds of a part of a compilation that goes on from a reporter: of its log, its result
and the reporter that it leaves. -/
def Always (work : Compilation α) (reporter : Reporter)
    (post : List Exchange → Option α → Reporter → Prop) : Prop :=
  Script.Always ((OptionT.run work).run reporter) fun log answer => post log answer.1 answer.2

namespace Always

variable {reporter : Reporter} {post : List Exchange → Option α → Reporter → Prop}
  {final : List Exchange → Option β → Reporter → Prop}

theorem pure {answer : α} (hpost : post [] (some answer) reporter) :
    Always (Pure.pure answer) reporter post := Script.Always.done hpost

theorem failure (hpost : post [] none reporter) :
    Always (Alternative.failure : Compilation α) reporter post := Script.Always.done hpost

theorem mono {post' : List Exchange → Option α → Reporter → Prop} {work : Compilation α}
    (halways : work.Always reporter post)
    (himp : ∀ log result reporter', post log result reporter' → post' log result reporter') :
    work.Always reporter post' :=
  Script.Always.mono halways fun log answer => himp log answer.1 answer.2

/-- A step that fails is the last one. -/
theorem bind {work : Compilation α} {next : α → Compilation β} (hwork : work.Always reporter post)
    (hfails : ∀ front reporter', post front none reporter' → final front none reporter')
    (hnext : ∀ front answer reporter', post front (some answer) reporter' →
      (next answer).Always reporter' fun back => final (front ++ back)) :
    (work >>= next).Always reporter final := by
  refine Script.Always.bind hwork ?_
  intro front ⟨result, reporter'⟩ hpost
  cases result with
  | none => exact Script.Always.done (by simpa using hfails front reporter' hpost)
  | some answer => exact hnext front answer reporter' hpost

/-- A step of which it is known how it ends can be passed over. -/
theorem step {work : Compilation α} {next : α → Compilation β} {answer : α} {reporter' : Reporter}
    {final : Option β → Reporter → Prop}
    (hwork : work.Always reporter fun _ result after => result = some answer ∧ after = reporter')
    (hnext : (next answer).Always reporter' fun _ => final) :
    (work >>= next).Always reporter fun _ => final := by
  refine hwork.bind (by simp) ?_
  rintro _ _ _ ⟨hanswer, rfl⟩
  cases hanswer
  exact hnext

end Always

theorem ofScript_always {script : Script α} {reporter : Reporter}
    {post : List Exchange → Option α → Reporter → Prop}
    (hscript : script.Always fun log answer => post log (some answer) reporter) :
    (ofScript script).Always reporter post := by
  have hlift : (script.bind fun answer => .done (answer, reporter)).Always fun log pair =>
      post log (some pair.1) pair.2 := by
    refine hscript.bind ?_
    intro front answer hpost
    exact Script.Always.done (by simpa using hpost)
  refine Script.Always.bind hlift ?_
  intro front pair hpost
  exact Script.Always.done (by simpa using hpost)

theorem print_always (text : String) (reporter : Reporter) :
    (print text).Always reporter fun _ result after => result = some () ∧ after = reporter :=
  Script.Always.ask fun _ _ => Script.Always.done ⟨rfl, rfl⟩

theorem ofExcept_always {outcome : Except Fault α} {answer : α} (houtcome : outcome = .ok answer)
    (reporter : Reporter) :
    (ofExcept outcome).Always reporter fun _ result after =>
      result = some answer ∧ after = reporter := by
  rw [houtcome]
  exact Script.Always.done ⟨rfl, rfl⟩

theorem reportOne_always {message : Message} (hplaced : message.Placed) (reporter : Reporter) :
    (reportOne message).Always reporter fun _ result after => result = some () ∧
      after = { reporter with messages := reporter.messages ++ [message] } := by
  obtain ⟨shown, hadd⟩ := reporter.add_eq hplaced
  have hrun : (OptionT.run (reportOne message)).run reporter =
      (OptionT.run (print shown)).run
        { reporter with messages := reporter.messages ++ [message] } := by
    show (OptionT.run (do
      set (reporter.add message).1
      print (← ofExcept (reporter.add message).2) : Compilation Unit)).run reporter = _
    rw [hadd]
    rfl
  unfold Always
  rw [hrun]
  exact print_always shown _

theorem report_always {messages : List Message} (hplaced : ∀ message ∈ messages, message.Placed)
    (reporter : Reporter) :
    (report messages).Always reporter fun _ result after => result = some () ∧
      after = { reporter with messages := reporter.messages ++ messages } := by
  induction messages generalizing reporter with
  | nil => exact .pure ⟨rfl, by simp⟩
  | cons message messages ih =>
      obtain ⟨hmessage, hmessages⟩ := List.forall_mem_cons.1 hplaced
      refine Always.step (reportOne_always hmessage reporter) ?_
      have hrest := ih hmessages { reporter with messages := reporter.messages ++ [message] }
      rw [List.append_assoc] at hrest
      exact hrest

/-- A phase is timed, and how it went is told when it has ended. -/
theorem phase_run (name : String) (work : Compilation α) (reporter : Reporter) :
    (OptionT.run (phase name work)).run reporter =
      .ask .startWatch fun _ => ((OptionT.run work).run (reporter.beginPhase name)).bind fun answer =>
        .ask .readWatch fun elapsed =>
          (Script.ofExcept (answer.2.endPhase answer.1.isSome elapsed).2).bind fun shown =>
            .ask (.print shown) fun _ =>
              .done (answer.1, (answer.2.endPhase answer.1.isSome elapsed).1) := by
  show (Script.ask Request.startWatch fun _ =>
    (((OptionT.run work).run (reporter.beginPhase name)).bind fun answer =>
      .done (some answer.1, answer.2)).bind _) = _
  simp only [Script.bind_assoc]
  congr 1
  funext _
  congr 1
  funext answer
  show (Script.ask Request.readWatch _) = _
  congr 1
  funext elapsed
  show (Script.bind (Script.bind (Script.bind
    (Script.ofExcept (answer.2.endPhase answer.1.isSome elapsed).2) _) _) _) = _
  cases (answer.2.endPhase answer.1.isSome elapsed).2 <;> rfl

/-- The phase is ended whether or not its work failed, and nothing but the work adds messages or does
more than to ask for the time and to print. -/
theorem phase_log_always {name : String} {work : Compilation α} {reporter : Reporter}
    {post : List Exchange → Option α → Reporter → Prop}
    (hwork : work.Always (reporter.beginPhase name) fun log result after =>
      after.Named ∧ post log result after) :
    (phase name work).Always reporter fun log result after => after.Named ∧
      ∃ inner elapsed shown middle,
        log = ⟨.startWatch, ()⟩ :: (inner ++ [⟨.readWatch, elapsed⟩, ⟨.print shown, ()⟩]) ∧
          after.messages = middle.messages ∧ post inner result middle := by
  unfold Always
  rw [phase_run]
  refine Script.Always.ask fun started _ => Script.Always.bind hwork ?_
  rintro inner ⟨result, middle⟩ ⟨hnamed, hpost⟩
  refine Script.Always.ask fun elapsed _ => ?_
  obtain ⟨phase, shown, hends, hphase⟩ := hnamed.endPhase_eq result.isSome elapsed
  rw [hends]
  refine Script.Always.ask fun printed _ => Script.Always.done ⟨hphase, ?_⟩
  exact ⟨inner, elapsed, shown, middle, rfl, rfl, hpost⟩

/-- What holds of the work of a phase holds of a part of the log. -/
theorem phase_always {name : String} {work : Compilation α} {reporter : Reporter}
    {post : List Exchange → Option α → Reporter → Prop}
    (hwork : work.Always (reporter.beginPhase name) fun log result after =>
      after.Named ∧ post log result after) :
    (phase name work).Always reporter fun log result after => after.Named ∧
      ∃ front inner back middle, log = front ++ inner ++ back ∧ after.messages = middle.messages ∧
        post inner result middle := by
  refine (phase_log_always hwork).mono ?_
  rintro _ result after ⟨hnamed, inner, _, _, middle, rfl, hafter, hpost⟩
  exact ⟨hnamed, [_], inner, _, middle, rfl, hafter, hpost⟩

/-! ## Deliveries -/

/-- The log is that of delivering a text to a path. -/
def Delivered (path text : String) (log : List Exchange) : Prop :=
  if path = screen then log = [⟨.print text, ()⟩]
  else log = [⟨.makeFolder (Path.directory path), .ok ()⟩, ⟨.write path text, .ok ()⟩]

theorem deliver_always (path text : String) :
    (deliver path (.ok text)).Always fun log result => result = .ok () ∧ Delivered path text log := by
  unfold deliver Delivered
  by_cases hscreen : path = screen
  · simp only [if_pos hscreen]
    exact Script.Always.ask fun _ _ => Script.Always.done ⟨rfl, rfl⟩
  · simp only [if_neg hscreen]
    refine Script.Always.ask fun made hmade => ?_
    cases show made = .ok () from hmade
    refine Script.Always.ask fun written hwritten => ?_
    cases show written = .ok () from hwritten
    exact Script.Always.done ⟨rfl, rfl⟩

/-- What has a path is delivered to it, and what has none is not. -/
theorem artifact_log_always (path what : String) {text : Except Fault String} {content : String}
    (htext : path ≠ "" → text = .ok content) (reporter : Reporter) :
    (artifact path what text).Always reporter fun log result after =>
      result = some () ∧ after = reporter ∧
        if path = "" then log = [] else Delivered path content log := by
  unfold artifact
  by_cases hpath : path = ""
  · rw [if_neg (not_not.2 hpath)]
    exact .pure ⟨rfl, rfl, by rw [if_pos hpath]⟩
  · rw [if_pos hpath, htext hpath]
    have hdeliver : (ofScript (deliver path (.ok content))).Always reporter fun log result after =>
        result = some (.ok ()) ∧ after = reporter ∧ Delivered path content log :=
      ofScript_always ((deliver_always path content).mono fun log result hpost =>
        ⟨congrArg some hpost.1, rfl, hpost.2⟩)
    refine hdeliver.bind (by simp) ?_
    rintro front _ _ ⟨hanswer, rfl, hdelivered⟩
    cases hanswer
    exact .pure ⟨rfl, rfl, by rwa [if_neg hpath, List.append_nil]⟩

theorem artifact_always (path what : String) {text : Except Fault String} {content : String}
    (htext : path ≠ "" → text = .ok content) (reporter : Reporter) :
    (artifact path what text).Always reporter fun log result after =>
      result = some () ∧ after = reporter ∧ (path ≠ "" → Delivered path content log) := by
  refine (artifact_log_always path what htext reporter).mono ?_
  rintro log result after ⟨hresult, hafter, hlog⟩
  exact ⟨hresult, hafter, fun hpath => by rwa [if_neg hpath] at hlog⟩

/-! ## What is told -/

/-- Some messages have been followed by others, none of which is an error exactly if there is a result,
and something holds of the result. -/
def Told (good : α → Prop) (before : List Message) (result : Option α) (after : List Message) : Prop :=
  ∃ new, after = before ++ new ∧ (result.isSome = true ↔ errorCount new = 0) ∧
    ∀ answer ∈ result, good answer

/-- A part of a compilation tells how it went. -/
def Tells (work : Compilation α) (good : α → Prop) : Prop :=
  ∀ reporter : Reporter, reporter.Named → work.Always reporter fun _ result after =>
    after.Named ∧ Told good reporter.messages result after.messages

section Tells

variable {good : α → Prop} {good' : β → Prop} {before middle after : List Message}

theorem Told.fails (htold : Told good before none after) : Told good' before none after := by
  obtain ⟨new, hafter, herrors, _⟩ := htold
  exact ⟨new, hafter, herrors, by simp⟩

theorem Told.trans {answer : α} {result : Option β} (hfirst : Told good before (some answer) middle)
    (hsecond : Told good' middle result after) : Told good' before result after := by
  obtain ⟨new, rfl, herrors, _⟩ := hfirst
  obtain ⟨new', rfl, herrors', hgood⟩ := hsecond
  have hnone : errorCount new = 0 := herrors.1 rfl
  refine ⟨new ++ new', List.append_assoc _ _ _, ?_, hgood⟩
  rw [errorCount_append, hnone, Nat.zero_add, herrors']

theorem Told.holds {answer : α} (htold : Told good before (some answer) after) : good answer := by
  obtain ⟨_, _, _, hgood⟩ := htold
  exact hgood answer rfl

namespace Tells

theorem bind {work : Compilation α} {next : α → Compilation β} (hwork : work.Tells good)
    (hnext : ∀ answer, good answer → (next answer).Tells good') : (work >>= next).Tells good' := by
  intro reporter hnamed
  refine (hwork reporter hnamed).bind ?_ ?_
  · rintro front middle ⟨hnamed, htold⟩
    exact ⟨hnamed, htold.fails⟩
  · rintro front answer middle ⟨hnamed, htold⟩
    refine (hnext answer htold.holds middle hnamed).mono ?_
    rintro back result after ⟨hnamed, htold'⟩
    exact ⟨hnamed, htold.trans htold'⟩

theorem mono {good'' : α → Prop} {work : Compilation α} (hwork : work.Tells good)
    (himp : ∀ answer, good answer → good'' answer) : work.Tells good'' := by
  intro reporter hnamed
  refine (hwork reporter hnamed).mono ?_
  rintro _ _ _ ⟨hnamed, new, hafter, herrors, hgood⟩
  exact ⟨hnamed, new, hafter, herrors, fun answer hanswer => himp answer (hgood answer hanswer)⟩

/-- What only does something has nothing to tell. -/
theorem quiet {work : Compilation α} {answer : α} (hgood : good answer)
    (hwork : ∀ reporter, work.Always reporter fun _ result after =>
      result = some answer ∧ after = reporter) : work.Tells good := by
  intro reporter hnamed
  refine (hwork reporter).mono ?_
  rintro _ _ _ ⟨rfl, rfl⟩
  refine ⟨hnamed, [], by simp, by simp, ?_⟩
  rintro _ ⟨⟩
  exact hgood

theorem pure {answer : α} (hgood : good answer) : Tells (Pure.pure answer) good :=
  .quiet hgood fun _ => .pure ⟨rfl, rfl⟩

theorem ofExcept {outcome : Except Fault α} {answer : α} (houtcome : outcome = .ok answer)
    (hgood : good answer) : (ofExcept outcome).Tells good :=
  .quiet hgood fun reporter => ofExcept_always houtcome reporter

theorem print (text : String) : (print text).Tells fun _ => True :=
  .quiet trivial fun reporter => print_always text reporter

theorem artifact (path what text : String) :
    (artifact path what (.ok text)).Tells fun _ => True :=
  .quiet trivial fun reporter => (artifact_always path what (fun _ => rfl) reporter).mono
    fun _ _ _ hpost => ⟨hpost.1, hpost.2.1⟩

/-- Messages are reported, and whether to go on is decided in accordance with them. -/
theorem report {messages : List Message} (hplaced : ∀ message ∈ messages, message.Placed)
    {next : Compilation α} (hgoes : errorCount messages = 0 → next.Tells good)
    (hstops : errorCount messages ≠ 0 → next = failure) :
    (report messages >>= fun _ => next).Tells good := by
  intro reporter hnamed
  refine Always.step (report_always hplaced reporter) ?_
  by_cases herrors : errorCount messages = 0
  · refine (hgoes herrors { reporter with messages := reporter.messages ++ messages } hnamed).mono ?_
    rintro _ result after ⟨hnamed, new, hafter, hresult, hgood⟩
    refine ⟨hnamed, messages ++ new, ?_, ?_, hgood⟩
    · rw [hafter, List.append_assoc]
    · rw [errorCount_append, herrors, Nat.zero_add, hresult]
  · rw [hstops herrors]
    exact .failure ⟨hnamed, messages, rfl, by simp [herrors], by simp⟩

theorem phase {work : Compilation α} (hwork : work.Tells good) {name : String}
    (hname : name.utf8ByteSize ≤ Reporter.phaseWidth) : (phase name work).Tells good := by
  intro reporter hnamed
  refine (phase_always (hwork (reporter.beginPhase name) hname)).mono ?_
  rintro _ _ _ ⟨hnamed, _, _, _, _, _, hmessages, htold⟩
  exact ⟨hnamed, hmessages ▸ htold⟩

end Tells

end Tells

/-! ## The phases -/

theorem listTokens_tells (job : Job) :
    (listTokens job (.ofText job.text.toList)).Tells fun _ => True := by
  unfold listTokens
  by_cases hpath : job.artifacts.tokens = ""
  · rw [if_neg (not_not.2 hpath)]
    exact .pure trivial
  · rw [if_pos hpath]
    have hcount := TokenStream.errorCount_messages job.text.toList none
    cases hfailure : (TokenStream.ofText job.text.toList).failure.isSome with
    | true =>
        rw [hfailure] at hcount
        refine .report (TokenStream.placed_ofText _ _).messages ?_ fun _ => rfl
        intro hnone
        rw [hcount] at hnone
        cases hnone
    | false =>
        rw [hfailure] at hcount
        exact .report (TokenStream.placed_ofText _ _).messages (fun _ => .artifact _ _ _)
          fun hsome => absurd hcount hsome

theorem parse_tells (job : Job) :
    (parse job).Tells fun program =>
      (Tree.parse (.ofText job.text.toList)).program = some program := by
  have hplaced := Tree.parse_placed (TokenStream.placed_ofText job.text.toList none)
  have hcount := Tree.errorCount_parse job.text.toList none
  unfold parse
  refine (listTokens_tells job).bind fun _ _ => ?_
  generalize Tree.parse (.ofText job.text.toList) = result at hplaced hcount ⊢
  obtain ⟨program?, messages⟩ := result
  cases program? with
  | none =>
      refine .report hplaced.1 ?_ fun _ => rfl
      intro hnone
      rw [hcount] at hnone
      cases hnone
  | some program =>
      refine .report hplaced.1 (fun _ => ?_) fun hsome => absurd hcount hsome
      have hrest : (Compilation.artifact job.artifacts.parsed "unparse" (.ok program.render) >>=
          fun _ => Pure.pure program).Tells fun answer => some program = some answer :=
        (Tells.artifact _ _ _).bind fun _ _ => .pure rfl
      dsimp only
      split
      · exact (Tells.print _).bind fun _ _ => hrest
      · exact hrest

theorem resolve_tells {program : Tree.Program} (hprogram : ∀ decl ∈ program.decls, decl.Placed) :
    (resolve program).Tells fun tree => ∃ state resolved,
      Shanty.resolve {} program = .ok (state, resolved) ∧ resolved.ok = true ∧
        resolved.tree = tree := by
  obtain ⟨state, resolved, hresolve, _⟩ := Scoping.exists_resolve_eq {} program
  have hcandid := resolve_candid {} hprogram _ hresolve
  have hcount := hcandid.errorCount_eq_zero_iff
  unfold resolve
  refine (Tells.ofExcept hresolve rfl).bind ?_
  rintro _ rfl
  refine .report (fun message hmessage => (hcandid.blames message hmessage).2) ?_ ?_
  · intro hnone
    rw [if_pos (hcount.1 hnone)]
    exact .pure ⟨state, resolved, hresolve, hcount.1 hnone, rfl⟩
  · intro hsome
    rw [if_neg fun hok => hsome (hcount.2 hok)]

theorem check_tells {program : Tree.Program} (hprogram : ∀ decl ∈ program.decls, decl.Placed)
    {checked : Typing.Checked Tree.Program} (hcheck : Shanty.check program = .ok checked) :
    (check program).Tells fun tree => checked.messages = [] ∧ checked.tree = tree := by
  have hblames := check_blames hprogram checked hcheck
  have hcount : errorCount checked.messages = 0 ↔ checked.messages.isEmpty = true := by
    rw [hblames.errorCount_eq_zero_iff, List.isEmpty_iff]
  unfold check
  refine (Tells.ofExcept hcheck rfl).bind ?_
  rintro _ rfl
  refine .report (fun message hmessage => (hblames message hmessage).2) ?_ ?_
  · intro hnone
    rw [if_pos (hcount.1 hnone)]
    exact .pure ⟨List.isEmpty_iff.1 (hcount.1 hnone), rfl⟩
  · intro hsome
    rw [if_neg fun hok => hsome (hcount.2 hok)]

/-- The tree is that of a text that has been parsed and whose names have been resolved without a
mistake. -/
def Scoped (text : List Char) (tree : Tree.Program) : Prop :=
  ∃ program state resolved, (Tree.parse (.ofText text)).program = some program ∧
    Shanty.resolve {} program = .ok (state, resolved) ∧ resolved.ok = true ∧ resolved.tree = tree

/-- The tree is that of a text without mistakes. -/
def Accepted (text : List Char) (tree : Tree.Program) : Prop :=
  ∃ resolved checked, Scoped text resolved ∧ Shanty.check resolved = .ok checked ∧
    checked.messages = [] ∧ checked.tree = tree

/-- What has been resolved stands on lines of the text, and it can be checked. -/
theorem Scoped.exists_check_eq {text : List Char} {tree : Tree.Program} (hscoped : Scoped text tree) :
    (∀ decl ∈ tree.decls, decl.Placed) ∧ ∃ checked, Shanty.check tree = .ok checked := by
  obtain ⟨program, state, resolved, hparse, hresolve, hok, rfl⟩ := hscoped
  have hplaced := (Tree.parse_placed (TokenStream.placed_ofText text none)).2 program hparse
  refine ⟨(resolve_candid {} hplaced _ hresolve).placed, ?_⟩
  obtain ⟨hcoherent, hfits⟩ :=
    (Scoping.wellScoped_of_resolve hresolve hok).fits Registry.coherent_empty
  obtain ⟨checked, hcheck, _⟩ := TypeRules.exists_check_eq hcoherent hfits
  exact ⟨checked, hcheck⟩

/-- Accepted programs can be lowered to code that fits. -/
theorem Accepted.exists_lower_eq {text : List Char} {tree : Tree.Program}
    (haccepted : Accepted text tree) : ∃ code, Code.lower tree = .ok code ∧ code.Fitting := by
  obtain ⟨_, checked, hscoped, hcheck, hmessages, rfl⟩ := haccepted
  obtain ⟨program, state, resolved, hparse, hresolve, hok, rfl⟩ := hscoped
  exact Code.exists_lower_fitting
    (Acceptance.goodDecls_of_accepted hparse Registry.coherent_empty hresolve hok hcheck hmessages)
    (Acceptance.settled_of_accepted hparse Registry.coherent_empty hresolve hok hcheck hmessages)

/-- The phases up to the resolution of names. -/
def readIn (job : Job) : Compilation Tree.Program := do
  let program ← phase "Parsing" (parse job)
  phase "Resolving" (resolve program)

/-- What follows once the names are resolved. -/
def checkIn (job : Job) (program : Tree.Program) : Compilation Tree.Program := do
  artifact job.artifacts.names "names" (.ok program.render)
  phase "Checking" (check program)

theorem analyze_eq (job : Job) : analyze job = readIn job >>= checkIn job := by
  simp only [analyze, readIn, bind_assoc]
  rfl

theorem readIn_tells (job : Job) : (readIn job).Tells (Scoped job.text.toList) := by
  refine ((parse_tells job).phase (by decide)).bind fun program hparse => ?_
  have hplaced := (Tree.parse_placed (TokenStream.placed_ofText job.text.toList none)).2 program hparse
  refine ((resolve_tells hplaced).mono ?_).phase (by decide)
  rintro tree ⟨state, resolved, hresolved⟩
  exact ⟨program, state, resolved, hparse, hresolved⟩

theorem checking_tells {text : List Char} {program : Tree.Program} (hscoped : Scoped text program) :
    (phase "Checking" (check program)).Tells (Accepted text) := by
  obtain ⟨hplaced, checked, hcheck⟩ := hscoped.exists_check_eq
  refine ((check_tells hplaced hcheck).mono ?_).phase (by decide)
  rintro tree ⟨hmessages, htree⟩
  exact ⟨program, checked, hscoped, hcheck, hmessages, htree⟩

theorem analyze_tells (job : Job) : (analyze job).Tells (Accepted job.text.toList) := by
  rw [analyze_eq]
  exact (readIn_tells job).bind fun _ hscoped =>
    (Tells.artifact _ _ _).bind fun _ _ => checking_tells hscoped

/-! ## Generating code -/

theorem outputPath_ne (source output : String) (target : Target) :
    outputPath source output target.extension ≠ "" := by
  have hclean : ∀ path, Path.clean path ≠ "" := by
    intro path
    unfold Path.clean
    dsimp only
    split
    · simp
    · split
      · decide
      · assumption
  unfold outputPath
  split
  next hscreen => simp [hscreen, screen]
  next =>
    split
    · cases target <;> simp [Target.extension]
    · split
      · assumption
      · have hdirectory : Path.directory source ≠ "" := hclean _
        rw [Path.join, if_neg hdirectory]
        exact hclean _

/-- The code that is generated from. -/
def Job.polish (job : Job) (code : Code.Program) : Code.Program :=
  if job.profile.optimize then code.optimize else code

theorem Job.polish_fits (job : Job) {code : Code.Program} (hfitting : code.Fitting) :
    (job.polish code).Fitting := by
  unfold Job.polish
  split
  · exact hfitting.optimize
  · exact hfitting

/-- A phase in which nothing is reported. -/
theorem quietPhase_always {work : Compilation α} {answer : α}
    (hwork : ∀ reporter, work.Always reporter fun _ result after =>
      result = some answer ∧ after = reporter)
    {name : String} (hname : name.utf8ByteSize ≤ Reporter.phaseWidth) (reporter : Reporter) :
    (phase name work).Always reporter fun _ result after =>
      result = some answer ∧ after.Named ∧ after.messages = reporter.messages := by
  have hinner : work.Always (reporter.beginPhase name) fun _ result after =>
      after.Named ∧ result = some answer ∧ after = reporter.beginPhase name := by
    refine (hwork _).mono ?_
    rintro _ _ _ ⟨hresult, rfl⟩
    exact ⟨hname, hresult, rfl⟩
  refine (phase_always hinner).mono ?_
  rintro _ _ _ ⟨hnamed, _, _, _, _, _, hmessages, hresult, rfl⟩
  exact ⟨hresult, hnamed, hmessages⟩

/-- The last thing in a log is that a listing is delivered, if it was asked for, and then code. After
that the phase is only ended. -/
def DeliversLast (job : Job) (listing text : String) (log : List Exchange) : Prop :=
  ∃ before listed delivered elapsed shown,
    log = before ++ listed ++
      ⟨.startWatch, ()⟩ :: (delivered ++ [⟨.readWatch, elapsed⟩, ⟨.print shown, ()⟩]) ∧
    (if job.artifacts.listing = "" then listed = []
      else Delivered job.artifacts.listing listing listed) ∧
    Delivered (outputPath job.path job.profile.output job.profile.target.extension) text delivered

theorem DeliversLast.later {job : Job} {listing text : String} {log : List Exchange}
    (hdelivers : DeliversLast job listing text log) (before : List Exchange) :
    DeliversLast job listing text (before ++ log) := by
  obtain ⟨front, listed, delivered, elapsed, shown, rfl, hlisted, hdelivered⟩ := hdelivers
  exact ⟨before ++ front, listed, delivered, elapsed, shown, by simp, hlisted, hdelivered⟩

/-- The log holds the delivery of a text to where the code goes. -/
def DeliversText (job : Job) (text : String) (log : List Exchange) : Prop :=
  ∃ front delivery back, log = front ++ delivery ++ back ∧
    Delivered (outputPath job.path job.profile.output job.profile.target.extension) text delivery

theorem DeliversLast.deliversText {job : Job} {listing text : String} {log : List Exchange}
    (hdelivers : DeliversLast job listing text log) : DeliversText job text log := by
  obtain ⟨before, listed, delivered, elapsed, shown, rfl, _, hdelivered⟩ := hdelivers
  exact ⟨before ++ listed ++ [⟨.startWatch, ()⟩], delivered,
    [⟨.readWatch, elapsed⟩, ⟨.print shown, ()⟩], by simp, hdelivered⟩

/-- The texts of the listing and of the code that are made of a program. -/
def Generates (job : Job) (tree : Tree.Program) (listing text : String) : Prop :=
  ∃ code, Code.lower tree = .ok code ∧
    (job.polish code).render job.profile.verbose = .ok listing ∧
    (job.profile.target.emit (job.polish code) .empty).2 = .ok text

/-- Code that fits is listed if that was asked for, and then it is delivered. -/
theorem deliver_code_always (job : Job) {code : Code.Program} (hfitting : code.Fitting)
    (reporter : Reporter) :
    Always (do
      artifact job.artifacts.listing "3AC" (code.render job.profile.verbose)
      phase "Generating" (emit job code)) reporter
      fun log result after => result = some () ∧ after.Named ∧ after.messages = reporter.messages ∧
        ∃ listing text, code.render job.profile.verbose = .ok listing ∧
          (job.profile.target.emit code .empty).2 = .ok text ∧ DeliversLast job listing text log := by
  obtain ⟨listing, hlisting, _⟩ := Code.Program.render_succeeds hfitting job.profile.verbose
  obtain ⟨text, htext, _⟩ := Target.emit_succeeds hfitting job.profile.target .empty
  refine (artifact_log_always _ _ (fun _ => hlisting) reporter).bind (by simp) ?_
  rintro listed _ reporter ⟨_, rfl, hlisted⟩
  have hemit : (emit job code).Always (reporter.beginPhase "Generating") fun log result after =>
      after.Named ∧ result = some () ∧ after = reporter.beginPhase "Generating" ∧
        Delivered (outputPath job.path job.profile.output job.profile.target.extension) text log := by
    refine (artifact_always _ _ (fun _ => htext) _).mono ?_
    rintro log _ _ ⟨hresult, rfl, hdelivered⟩
    have hname : "Generating".utf8ByteSize ≤ Reporter.phaseWidth := by decide
    exact ⟨hname, hresult, rfl, hdelivered (outputPath_ne _ _ _)⟩
  refine (phase_log_always hemit).mono ?_
  rintro _ _ _ ⟨hnamed, delivered, elapsed, shown, _, rfl, hmessages, hresult, rfl, hdelivered⟩
  exact ⟨hresult, hnamed, hmessages, listing, text, hlisting, htext,
    [], listed, delivered, elapsed, shown, rfl, hlisted, hdelivered⟩

/-- The listing and the code of accepted programs are generated and delivered, and nothing is
reported. -/
theorem generate_delivers (job : Job) {text : List Char} {tree : Tree.Program}
    (haccepted : Accepted text tree) (reporter : Reporter) :
    (generate job tree).Always reporter fun log result after => result = some () ∧ after.Named ∧
      after.messages = reporter.messages ∧
        ∃ listing text, Generates job tree listing text ∧ DeliversLast job listing text log := by
  obtain ⟨code, hlower, hfitting⟩ := haccepted.exists_lower_eq
  have hdeliver : ∀ front {middle : Reporter}, middle.messages = reporter.messages →
      Always (do
        artifact job.artifacts.listing "3AC" ((job.polish code).render job.profile.verbose)
        phase "Generating" (emit job (job.polish code))) middle fun log result after =>
          result = some () ∧ after.Named ∧ after.messages = reporter.messages ∧
            ∃ listing text, Generates job tree listing text ∧
              DeliversLast job listing text (front ++ log) := by
    intro front middle hmiddle
    refine (deliver_code_always job (job.polish_fits hfitting) middle).mono ?_
    rintro log result after ⟨hresult, hnamed, hafter, listing, text, hlisting, htext, hdelivers⟩
    exact ⟨hresult, hnamed, hafter.trans hmiddle, listing, text, ⟨code, hlower, hlisting, htext⟩,
      hdelivers.later front⟩
  refine (quietPhase_always (ofExcept_always hlower) (by decide) reporter).bind (by simp) ?_
  rintro front _ middle ⟨hcode, _, hmiddle⟩
  cases hcode
  cases hoptimize : job.profile.optimize with
  | false =>
      rw [Job.polish, hoptimize] at hdeliver
      exact hdeliver front hmiddle
  | true =>
      rw [Job.polish, hoptimize] at hdeliver
      refine (quietPhase_always (fun _ => .pure ⟨rfl, rfl⟩) (by decide) middle).bind (by simp) ?_
      rintro front' _ middle' ⟨hcode, _, hmiddle'⟩
      cases hcode
      simpa only [List.append_assoc, if_true] using
        hdeliver (front ++ front') (hmiddle'.trans hmiddle)

/-- The log holds the delivery of the code of a program. -/
def DeliversCode (job : Job) (tree : Tree.Program) (log : List Exchange) : Prop :=
  ∃ code text, Code.lower tree = .ok code ∧
    (job.profile.target.emit (job.polish code) .empty).2 = .ok text ∧ DeliversText job text log

/-- Code of accepted programs is generated and delivered, and nothing is reported. -/
theorem generate_always (job : Job) {text : List Char} {tree : Tree.Program}
    (haccepted : Accepted text tree) (reporter : Reporter) :
    (generate job tree).Always reporter fun log result after => result = some () ∧ after.Named ∧
      after.messages = reporter.messages ∧ DeliversCode job tree log := by
  refine (generate_delivers job haccepted reporter).mono ?_
  rintro log result after ⟨hresult, hnamed, hafter, _, _, ⟨code, hlower, _, htext⟩, hdelivers⟩
  exact ⟨hresult, hnamed, hafter, code, _, hlower, htext, hdelivers.deliversText⟩

theorem generate_tells (job : Job) {text : List Char} {tree : Tree.Program}
    (haccepted : Accepted text tree) : (generate job tree).Tells fun _ => True := by
  intro reporter _
  refine (generate_always job haccepted reporter).mono ?_
  rintro _ _ after ⟨rfl, hnamed, hmessages, _⟩
  exact ⟨hnamed, [], by simp [hmessages], by simp, by simp⟩

/-! ## Whole runs -/

/-- The reporter with which a compilation starts. -/
def Job.start (job : Job) (level : LogLevel) : Reporter :=
  { level, path := job.path, source := job.text }

/-- A log begins with a run of a part of a compilation, and something holds of how this run ends and of
the rest of the log. -/
def BeginsWith (part : Compilation α) (start : Reporter) (log : List Exchange)
    (onward : Option α → Reporter → List Exchange → Prop) : Prop :=
  ∃ front back result reporter, log = front ++ back ∧
    Script.Runs ((OptionT.run part).run start) front (.ok (result, reporter)) ∧
      onward result reporter back

/-- A compilation that tells how it went always comes to an end. -/
theorem run_always {work : Compilation α} {good : α → Prop} (hwork : work.Tells good) (job : Job)
    (level : LogLevel) :
    (run work job level).Always fun _ answer => Told good [] answer.1 answer.2.messages := by
  refine Script.Always.bind (hwork (job.start level) (Nat.zero_le _)) ?_
  rintro front ⟨result, reporter⟩ ⟨_, htold⟩
  exact Script.Always.ask fun _ _ => Script.Always.done htold

/-- Once a part of a compilation has ended, the rest is done if the part reported no error. Otherwise
only the summary is left. -/
theorem beginsWith_of_runs {part : Compilation α} {next : α → Compilation β} {good : α → Prop}
    (hpart : part.Tells good) {onward : α → List Exchange → Prop}
    (hnext : ∀ answer, good answer → ∀ reporter : Reporter, reporter.Named →
      (next answer).Always reporter fun log _ _ => onward answer log)
    {job : Job} {level : LogLevel} {log : List Exchange} {result : Option β} {reporter : Reporter}
    (hruns : (run (part >>= next) job level).Runs log (.ok (result, reporter)))
    (hlog : ∀ exchange ∈ log, exchange.Granted) :
    BeginsWith part (job.start level) log fun answer? middle back =>
      if errorCount middle.messages = 0 then
        ∃ answer more, answer? = some answer ∧ back = more ++ [⟨.print reporter.finished, ()⟩] ∧
          onward answer more
      else back = [⟨.print reporter.finished, ()⟩] := by
  rcases hruns.exists_of_bind with ⟨_, hbroken, _⟩ | ⟨whole, last, _, rfl, hwhole, hlast⟩
  · cases hbroken
  cases hlast with
  | ask hdone =>
    cases hdone
    rcases hwhole.exists_of_bind with
      ⟨_, hbroken, _⟩ | ⟨front, more, ⟨answer?, middle⟩, rfl, hfront, hmore⟩
    · cases hbroken
    obtain ⟨hfrontLog, hmoreLog⟩ := List.forall_mem_append.1 (List.forall_mem_append.1 hlog).1
    obtain ⟨_, hended, hnamed, new, hnew, herrors, hgood⟩ :=
      hpart (job.start level) (Nat.zero_le _) front _ hfront hfrontLog
    cases hended
    have hmessages : middle.messages = new := hnew
    refine ⟨front, _, answer?, middle, List.append_assoc _ _ _, hfront, ?_⟩
    cases answer? with
    | none =>
        cases hmore
        rw [if_neg (by simpa [hmessages] using herrors)]
        rfl
    | some answer =>
        rw [if_pos (by simpa [hmessages] using herrors)]
        obtain ⟨_, _, honward⟩ := hnext answer (hgood answer rfl) middle hnamed more _ hmore hmoreLog
        exact ⟨answer, more, rfl, rfl, honward⟩

/-- Names are delivered first thing once they are resolved. -/
theorem checkIn_generate_always (job : Job) {program : Tree.Program}
    (hscoped : Scoped job.text.toList program) {reporter : Reporter} (hnamed : reporter.Named) :
    (checkIn job program >>= generate job).Always reporter fun log _ _ =>
      ∃ delivery more, log = delivery ++ more ∧
        (job.artifacts.names ≠ "" → Delivered job.artifacts.names program.render delivery) := by
  have hrest : (phase "Checking" (check program) >>= generate job).Tells fun _ => True :=
    (checking_tells hscoped).bind fun _ haccepted => generate_tells job haccepted
  rw [checkIn, bind_assoc]
  refine (artifact_always _ _ (fun _ => rfl) reporter).bind (by simp) ?_
  rintro delivery _ _ ⟨_, rfl, hdelivered⟩
  exact (hrest _ hnamed).mono fun more _ _ _ => ⟨delivery, more, rfl, hdelivered⟩

section Runs

variable {job : Job} {level : LogLevel} {log : List Exchange} {result : Option Unit}
  {reporter : Reporter}

/-- The names are delivered after the phases up to their resolution, provided that these have reported
no error. Otherwise only the summary is left. -/
theorem names_delivered (hruns : (run (build job) job level).Runs log (.ok (result, reporter)))
    (hlog : ∀ exchange ∈ log, exchange.Granted) :
    BeginsWith (readIn job) (job.start level) log fun program? middle back =>
      if errorCount middle.messages = 0 then
        ∃ program delivery more, program? = some program ∧ back = delivery ++ more ∧
          (job.artifacts.names ≠ "" → Delivered job.artifacts.names program.render delivery)
      else back = [⟨.print reporter.finished, ()⟩] := by
  have hbuild : build job = readIn job >>= fun program => checkIn job program >>= generate job := by
    rw [build, analyze_eq, bind_assoc]
  rw [hbuild] at hruns
  obtain ⟨front, back, program?, middle, hsplit, hfront, honward⟩ := beginsWith_of_runs
    (readIn_tells job) (fun _ hscoped _ hnamed => checkIn_generate_always job hscoped hnamed)
    hruns hlog
  refine ⟨front, back, program?, middle, hsplit, hfront, ?_⟩
  split at honward
  · obtain ⟨program, more, hprogram, rfl, delivery, more', rfl, hdelivered⟩ := honward
    rw [if_pos ‹_›]
    exact ⟨program, delivery, _, hprogram, List.append_assoc _ _ _, hdelivered⟩
  · rwa [if_neg ‹_›]

/-- The code is delivered after the analysis, provided that it has reported no error. Otherwise only
the summary is left. -/
theorem code_delivered (hruns : (run (build job) job level).Runs log (.ok (result, reporter)))
    (hlog : ∀ exchange ∈ log, exchange.Granted) :
    BeginsWith (analyze job) (job.start level) log fun program? middle back =>
      if errorCount middle.messages = 0 then
        ∃ program more, program? = some program ∧ back = more ++ [⟨.print reporter.finished, ()⟩] ∧
          DeliversCode job program more
      else back = [⟨.print reporter.finished, ()⟩] :=
  beginsWith_of_runs (analyze_tells job) (fun _ haccepted reporter _ =>
    (generate_always job haccepted reporter).mono fun _ _ _ hpost => hpost.2.2.2) hruns hlog

end Runs

/-- The flags of the phases agree with what they report, and so does the verdict on a compilation. For
every text, parsing yields a program exactly if it reports no error, and reports one error if it does
not; resolution fails exactly if it reports an error, and so does the check of what it resolved. In
every run of a compilation in which the host writes what it is asked to write, the compilation ends,
and it succeeds exactly if no error has been reported. Names, if they were asked for, are delivered exactly
if parsing and resolution have reported no error, and code exactly if the whole analysis has not: all
that is left to do otherwise is to print the summary. -/
theorem verdict_agrees_with_messages :
    (∀ text : List Char,
      ((Tree.parse (.ofText text)).program.isSome = true ↔
        errorCount (Tree.parse (.ofText text)).messages = 0) ∧
      ((Tree.parse (.ofText text)).program = none →
        errorCount (Tree.parse (.ofText text)).messages = 1)) ∧
    (∀ (text : List Char) (program : Tree.Program),
      (Tree.parse (.ofText text)).program = some program →
      ∃ state resolved, Shanty.resolve {} program = .ok (state, resolved) ∧
        (resolved.ok = false ↔ errorCount resolved.messages ≠ 0) ∧
        (resolved.ok = true → ∃ checked, Shanty.check resolved.tree = .ok checked ∧
          (checked.messages.isEmpty = false ↔ errorCount checked.messages ≠ 0))) ∧
    ∀ (job : Job) (level : LogLevel) (log : List Exchange)
      (outcome : Except Fault (Option Unit × Reporter)),
      (run (build job) job level).Runs log outcome → (∀ exchange ∈ log, exchange.Granted) →
      ∃ result reporter, outcome = .ok (result, reporter) ∧
        (result = some () ↔ errorCount reporter.messages = 0) ∧
        (BeginsWith (readIn job) (job.start level) log fun program? middle back =>
          if errorCount middle.messages = 0 then
            ∃ program delivery more, program? = some program ∧ back = delivery ++ more ∧
              (job.artifacts.names ≠ "" → Delivered job.artifacts.names program.render delivery)
          else back = [⟨.print reporter.finished, ()⟩]) ∧
        (BeginsWith (analyze job) (job.start level) log fun program? middle back =>
          if errorCount middle.messages = 0 then
            ∃ program more, program? = some program ∧ back = more ++ [⟨.print reporter.finished, ()⟩] ∧
              DeliversCode job program more
          else back = [⟨.print reporter.finished, ()⟩]) := by
  refine ⟨fun text => ?_, fun text program hparse => ?_, fun job level log outcome hruns hlog => ?_⟩
  · rw [Tree.errorCount_parse]
    cases (Tree.parse (.ofText text)).program <;> simp
  · have hplaced := (Tree.parse_placed (TokenStream.placed_ofText text none)).2 program hparse
    obtain ⟨state, resolved, hresolve, _⟩ := Scoping.exists_resolve_eq {} program
    have hcandid := resolve_candid {} hplaced _ hresolve
    refine ⟨state, resolved, hresolve, ?_, fun hok => ?_⟩
    · rw [Ne, hcandid.errorCount_eq_zero_iff, Bool.not_eq_true]
    have hscoped : Scoped text resolved.tree := ⟨program, state, resolved, hparse, hresolve, hok, rfl⟩
    obtain ⟨hplaced', checked, hcheck⟩ := hscoped.exists_check_eq
    refine ⟨checked, hcheck, ?_⟩
    rw [Ne, (check_blames hplaced' checked hcheck).errorCount_eq_zero_iff, ← List.isEmpty_iff,
      Bool.not_eq_true]
  · have hbuild : (build job).Tells fun _ => True :=
      (analyze_tells job).bind fun _ haccepted => generate_tells job haccepted
    obtain ⟨⟨result, reporter⟩, rfl, new, hnew, herrors, _⟩ :=
      run_always hbuild job level log outcome hruns hlog
    refine ⟨result, reporter, rfl, ?_, names_delivered hruns hlog, code_delivered hruns hlog⟩
    rw [show reporter.messages = new from hnew, ← herrors]
    cases result <;> simp

/-- A host that does all it is asked to do. -/
def obliging : (request : Request) → StateM Unit request.Reply
  | .print _ | .startWatch => pure ()
  | .read _ => pure (.ok "")
  | .readWatch => pure ""
  | .probe _ | .makeFolder _ | .write _ _ => pure (.ok ())

theorem granted_of_obliging (request : Request) (state : Unit) :
    Exchange.Granted ⟨request, (obliging request state).1⟩ := by
  cases request with
  | makeFolder | write => rfl
  | _ => trivial

/-- A program with a literal that is too large and a type error, of which the names are asked for. -/
def slipJob : Job where
  path := "/work/slip.shy"
  text := "int n; void main() \x7b n = 99999999999999999999; n = true; \x7d"
  artifacts := { names := "names.txt" }

/-- The compilation of the program with the type error fails, and there is an error. -/
theorem verdict_agrees_with_messages_slip :
    ∃ log reporter, (run (build slipJob) slipJob .warn).Runs log (.ok (none, reporter)) ∧
      (∀ exchange ∈ log, exchange.Granted) ∧ errorCount reporter.messages ≠ 0 := by
  have hfails : ((Script.run obliging (run (build slipJob) slipJob .warn) ()).1.toOption.bind
      Prod.fst).isNone = true := by decide +kernel
  obtain ⟨log, hruns, hlog⟩ :=
    Script.exists_runs_of_run granted_of_obliging (run (build slipJob) slipJob .warn) ()
  obtain ⟨result, reporter, houtcome, hverdict, _⟩ :=
    verdict_agrees_with_messages.2.2 slipJob .warn log _ hruns hlog
  rw [houtcome] at hruns hfails
  cases result with
  | none => exact ⟨log, reporter, hruns, hlog, fun hnone => by simpa using hverdict.2 hnone⟩
  | some => cases hfails

end Compilation

end Shanty
