/-
# The code of accepted programs

A program that has been parsed, resolved and checked without a mistake can be lowered. Its code fits
and is in shape, no label stands in it twice, and all this is still so once it is optimized. Whatever
is shown about emitted code starts from here.
-/

import Shanty.Proofs.Acceptance.Names
import Shanty.Proofs.Acceptance.Symbols
import Shanty.Proofs.Code.Fitting.Programs
import Shanty.Proofs.Code.Shape
import Shanty.Proofs.Text.Number

namespace Shanty.Code

/-- Each of several quads that fit fits by itself. -/
theorem Site.AllFit.exists_fits {site : Site} {labels : List Label} {before after : Pending}
    {quads : List Quad} (hall : site.AllFit labels before quads after) {quad : Quad}
    (hquad : quad ∈ quads) : ∃ before after, site.Fits labels before quad.instr after := by
  induction hall with
  | nil => cases hquad
  | cons hfits _ ih =>
      rcases List.mem_cons.1 hquad with rfl | hquad
      · exact ⟨_, _, hfits⟩
      · exact ih hquad

/-- The quads in the body of a procedure fit, and they belong there. -/
theorem Program.body_fits {program : Program} (hfitting : program.Fitting) (hshaped : program.Shaped)
    {procedure : Procedure} (hprocedure : procedure ∈ program.procedures) {quad : Quad}
    (hquad : quad ∈ procedure.body) :
    (∃ before after, (program.site procedure).Fits (labelsOf procedure.tail) before quad.instr
      after) ∧ quad.instr.Inner := by
  obtain ⟨last, hall⟩ := (hfitting.procedures procedure hprocedure).quads
  have htail : quad ∈ procedure.tail := List.mem_append_left _ hquad
  exact ⟨hall.exists_fits htail, (hshaped procedure hprocedure).inner quad hquad⟩

/-! ## Labels of programs -/

/-- Numbers are written alike only if they are the same. -/
theorem eq_of_toString_eq {number number' : Nat} (hsame : toString number = toString number') :
    number = number' := by
  have hread := congrArg Text.readInt? (show number.repr = number'.repr from hsame)
  rw [Text.readInt?_repr, Text.readInt?_repr, Option.some_inj] at hread
  exact Int.ofNat.inj hread

/-- Labels are written alike only if they are the same. -/
theorem label_eq_of_name_eq {label label' : Label} (hname : label.name = label'.name) :
    label = label' := by
  have htexts := congrArg String.toList hname
  cases label with
  | entry procedure =>
      cases label' with
      | entry procedure' =>
          by_cases hmain : procedure = "main"
          · by_cases hmain' : procedure' = "main"
            · rw [hmain, hmain']
            · simp [Label.name, entryLabel, hmain, hmain'] at htexts
          · by_cases hmain' : procedure' = "main"
            · simp [Label.name, entryLabel, hmain, hmain'] at htexts
            · simp only [Label.name, entryLabel, if_neg hmain, if_neg hmain'] at hname
              rw [(String.append_right_inj _).1 hname]
      | numbered number =>
          by_cases hmain : procedure = "main" <;>
            simp [Label.name, entryLabel, hmain] at htexts
  | numbered number =>
      cases label' with
      | entry procedure =>
          by_cases hmain : procedure = "main" <;>
            simp [Label.name, entryLabel, hmain] at htexts
      | numbered number' =>
          rw [eq_of_toString_eq ((String.append_right_inj "lbl_").1 hname)]

/-- The labels inside the procedures of a program are numbered, and each of them stands in one place
only. -/
structure Program.Labelled (program : Program) : Prop where
  distinct : (program.procedures.flatMap fun procedure => labelsOf procedure.tail).Nodup
  numbered : ∀ procedure ∈ program.procedures, ∀ label ∈ labelsOf procedure.tail,
    ∃ number, label = .numbered number

/-- A label tells the procedure that it stands in. -/
theorem Program.Labelled.same {program : Program} (hlabelled : program.Labelled)
    {first second : Procedure} (hfirst : first ∈ program.procedures)
    (hsecond : second ∈ program.procedures) {label : Label} (hlabel : label ∈ labelsOf first.tail)
    (hlabel' : label ∈ labelsOf second.tail) : first = second := by
  by_contra hne
  have hpairwise := (List.nodup_flatMap.1 hlabelled.distinct).2
  have hsymm : Std.Symm (Function.onFun List.Disjoint fun procedure : Procedure =>
      labelsOf procedure.tail) := ⟨fun _ _ hdisjoint _ hfirst hsecond => hdisjoint hsecond hfirst⟩
  have hdisjoint := hpairwise.forall hfirst hsecond hne
  exact hdisjoint hlabel hlabel'

theorem Program.Labelled.sweep {removes : Quad → Quad → Bool} {program : Program}
    (hlabelled : program.Labelled) : (program.sweep removes).Labelled where
  distinct := by
    have hperm : ∀ procedures : List Procedure,
        ((procedures.map (·.sweep removes)).flatMap fun procedure => labelsOf procedure.tail).Perm
          (procedures.flatMap fun procedure => labelsOf procedure.tail) := by
      intro procedures
      induction procedures with
      | nil => exact .nil
      | cons procedure procedures ih =>
          exact (procedure.labelsOf_tail_sweep_perm removes).append ih
    exact (hperm program.procedures).nodup_iff.2 hlabelled.distinct
  numbered := by
    intro procedure hprocedure label hlabel
    obtain ⟨origin, horigin, rfl⟩ := List.mem_map.1 hprocedure
    exact hlabelled.numbered origin horigin label
      ((origin.labelsOf_tail_sweep_perm removes).mem_iff.1 hlabel)

theorem labelled_of_codeOf {tree : Tree.Program} {code : Program} (hcode : CodeOf tree code) :
    code.Labelled where
  distinct := hcode.labels.1
  numbered := by
    intro procedure hprocedure label hlabel
    obtain ⟨number, heq, _⟩ := hcode.labels.2 label (List.mem_flatMap.2 ⟨_, hprocedure, hlabel⟩)
    exact ⟨number, heq⟩

/-! ## Accepted programs -/

/-- Accepted programs are lowered to code that fits and is in shape, also after it has been
optimized. -/
theorem exists_lower_shaped {bytes : List UInt8} {tree : Tree.Program}
    (hparse : (Tree.parse (.ofText (Text.Utf8.decode bytes))).program = some tree)
    {state : Resolution.State} {resolved : Resolution.Resolved Tree.Program}
    (hresolve : resolve {} tree = .ok (state, resolved)) (hok : resolved.ok = true)
    {checked : Typing.Checked Tree.Program} (hcheck : check resolved.tree = .ok checked)
    (hmessages : checked.messages = []) :
    ∃ code, lower checked.tree = .ok code ∧
      ∀ program ∈ [code, code.optimize],
        program.Fitting ∧ program.Shaped ∧ program.Labelled := by
  have hgood := Acceptance.goodDecls_of_accepted hparse Registry.coherent_empty hresolve hok hcheck
    hmessages
  have hsettled := Acceptance.settled_of_accepted hparse Registry.coherent_empty hresolve hok hcheck
    hmessages
  have hnamed := Acceptance.named_of_accepted hparse Registry.coherent_empty hresolve hok hcheck
  obtain ⟨code, hlower, hfitting⟩ := exists_lower_fitting hgood hsettled
  have hshaped := shaped_of_lower hgood hsettled hnamed hlower
  obtain ⟨code', hlower', hcode⟩ := exists_lower_eq hgood
  rw [hlower] at hlower'
  cases hlower'
  have hlabelled := labelled_of_codeOf hcode
  refine ⟨code, hlower, ?_⟩
  intro program hprogram
  simp only [List.mem_cons, List.not_mem_nil, or_false] at hprogram
  rcases hprogram with rfl | rfl
  · exact ⟨hfitting, hshaped, hlabelled⟩
  · exact ⟨hfitting.optimize, hshaped.optimize,
      Program.optimize_keeps (fun _ _ _ hlabelled => hlabelled.sweep) hlabelled⟩

end Shanty.Code
