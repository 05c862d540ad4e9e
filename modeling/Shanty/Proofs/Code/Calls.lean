/-
# The arguments of calls

Before a call, its arguments are set one after the other, and nothing stands between them: for each
call of a procedure there are as many quads right before it as the callee has parameters. The callee
receives them one after the other before it does anything else.
-/

import Shanty.Proofs.Code.Accepted

namespace Shanty.Code

variable {site : Site} {labels : List Label} {before middle after pending : Pending}
  {front back rest quads : List Quad} {quad : Quad}

/-- The instruction that sets the argument with an index. -/
def setArgAt (index : Nat) (arg : Operand × Ty) : Instr :=
  .setArg ((index + 1 : Nat) : Int) arg.1 arg.2

/-- The instruction that receives the argument with an index, out of some number of them, for a formal
parameter of a type. -/
def getArgAt (count index : Nat) (param : Ty × Variable) : Instr :=
  .getArg ((index + 1 : Nat) : Int) (count : Nat) (.var param.2) param.1.isRecord

/-- The name of the procedure that an instruction calls. -/
def callee? : Instr → Option String
  | .call callee => some callee
  | _ => none

theorem eq_of_callee? {instr : Instr} {name : String} (hcallee : callee? instr = some name) :
    instr = .call name := by
  cases instr with
  | call =>
      cases hcallee
      rfl
  | _ => cases hcallee

/-! ## What is pending -/

/-- What is pending before a quad determines what is pending behind it. -/
theorem Site.Fits.unique {instr : Instr} {after' : Pending}
    (hfits : site.Fits labels before instr after) (hfits' : site.Fits labels before instr after') :
    after = after' := by
  cases hfits with
  | call hsignature =>
      cases hfits' with
      | call hsignature' =>
          have heq := Option.some.inj (hsignature.symm.trans hsignature')
          rw [(Prod.mk.inj heq).2]
  | @getArg _ _ _ type =>
      generalize type.isRecord = isRecord at hfits'
      cases hfits'
      rfl
  | @getRet _ type =>
      generalize type.isRecord = isRecord at hfits'
      cases hfits'
      rfl
  | _ =>
      cases hfits'
      rfl

theorem Site.AllFit.unique {after' : Pending} (hall : site.AllFit labels before quads after)
    (hall' : site.AllFit labels before quads after') : after = after' := by
  induction hall with
  | nil =>
      cases hall'
      rfl
  | cons hfits _ ih =>
      cases hall' with
      | cons hfits' hrest =>
          obtain rfl := hfits.unique hfits'
          exact ih hrest

/-- Some quads are what is left of a procedure. No argument is pending outside of calls. -/
structure Ongoing (site : Site) (labels : List Label) (pending : Pending) (quads : List Quad) :
    Prop where
  fits : ∃ last, site.AllFit labels pending quads ⟨[], last⟩
  unbroken : ∃ phase, Unbroken phase quads ∧ (phase ≠ .passing → pending.args = [])

/-- The next quad sets an argument, makes a call or is no part of a call. -/
inductive Ongoing.Next (site : Site) (labels : List Label) (rest : List Quad) :
    Pending → Instr → Prop
  | sets {pending : Pending} {arg : Operand × Ty} (passes : site.Passes arg.2 arg.1)
      (ongoing : Ongoing site labels { pending with args := pending.args ++ [arg.2] } rest) :
      Next site labels rest pending (setArgAt pending.args.length arg)
  | calls {pending : Pending} {callee : String} {result : Ty}
      (signature : site.signature? callee = some (pending.args, result))
      (ongoing : Ongoing site labels ⟨[], some result⟩ rest) :
      Next site labels rest pending (.call callee)
  | idle {pending after : Pending} {instr : Instr} (phase : instr.phase = .idle)
      (none : pending.args = []) (fits : site.Fits labels pending instr after)
      (stays : after.args = []) (ongoing : Ongoing site labels after rest) :
      Next site labels rest pending instr

/-- Quads between the arguments of a call have no labels. -/
theorem Ongoing.labels_eq (hongoing : Ongoing site labels pending (quad :: rest))
    (hargs : pending.args ≠ []) : quad.labels = [] := by
  obtain ⟨phase, hquads, hphase⟩ := hongoing.unbroken
  exact (hquads.1.passing (by_contra fun hne => hargs (hphase hne))).1

theorem Ongoing.next (hongoing : Ongoing site labels pending (quad :: rest)) :
    Ongoing.Next site labels rest pending quad.instr := by
  obtain ⟨⟨last, hall⟩, phase, hquads, hphase⟩ := hongoing
  cases hall with
  | cons hfits hrest =>
      have hunbroken := hquads.2
      have hidle : quad.instr.phase = .idle → pending.args = [] := fun heq =>
        hphase fun hpassing => (hquads.1.passing hpassing).2 heq
      generalize quad.instr = instr at hfits hunbroken hidle
      cases hfits with
      | setArg hpasses =>
          exact @Ongoing.Next.sets site labels rest pending (_, _) hpasses
            ⟨⟨last, hrest⟩, .passing, hunbroken, fun hne => absurd rfl hne⟩
      | call hsignature => exact .calls hsignature ⟨⟨last, hrest⟩, .called, hunbroken, fun _ => rfl⟩
      | _ =>
          have hnone := hidle rfl
          exact .idle rfl hnone (by constructor <;> assumption) hnone
            ⟨⟨last, hrest⟩, .idle, hunbroken, fun _ => hnone⟩

/-! ## Setting arguments -/

/-- The arguments that are pending have been set by the last quads. -/
theorem exists_args (hall : site.AllFit labels {} front pending)
    (hquads : Unbroken .idle (front ++ rest)) :
    ∃ earlier sets args last, front = earlier ++ sets ∧
      sets.map (·.instr) = args.mapIdx setArgAt ∧ pending = ⟨args.map (·.2), last⟩ ∧
      (∀ arg ∈ args, site.Passes arg.2 arg.1) ∧ site.AllFit labels {} earlier ⟨[], last⟩ ∧
      ∃ phase, Unbroken phase rest ∧ (phase ≠ .passing → args = []) := by
  induction front using List.reverseRecOn generalizing pending rest with
  | nil =>
      cases hall
      exact ⟨[], [], [], none, rfl, rfl, rfl, by simp, .nil, .idle, hquads, fun _ => rfl⟩
  | append_singleton front quad ih =>
      obtain ⟨middle, hfront, hlast⟩ := hall.exists_of_append
      rw [List.append_assoc] at hquads
      obtain ⟨earlier, sets, args, last, rfl, hsets, rfl, hpasses, hearlier, phase, hphase, hargs⟩ :=
        ih hfront hquads
      have hadmits := hphase.1
      have hrest := hphase.2
      cases hlast with
      | cons hfits hnil =>
          cases hnil
          -- What is no part of a call is reached with no argument set.
          have hidle : quad.instr.phase = .idle → args = [] := fun heq =>
            hargs fun hpassing => (hadmits.passing hpassing).2 heq
          generalize hinstr : quad.instr = instr at hfits hrest hidle
          cases hfits with
          | @setArg source type hsource =>
              refine ⟨earlier, sets ++ [quad], args ++ [(source, type)], last,
                List.append_assoc _ _ _, ?_, by simp, ?_, hearlier, .passing, hrest,
                fun hne => absurd rfl hne⟩
              · rw [List.map_append, hsets, List.mapIdx_append, List.map_singleton, hinstr]
                simp [setArgAt]
              · rw [List.forall_mem_append, List.forall_mem_singleton]
                exact ⟨hpasses, hsource⟩
          | call hsignature =>
              exact ⟨_, [], [], _, (List.append_nil _).symm, rfl, rfl, by simp, hall, .called, hrest,
                fun _ => rfl⟩
          | _ =>
              obtain rfl := hidle rfl
              exact ⟨_, [], [], last, (List.append_nil _).symm, rfl, rfl, by simp, hall, .idle, hrest,
                fun _ => rfl⟩

/-! ## Receiving arguments -/

/-- An argument is received for the parameter at its position. -/
theorem Site.Fits.exists_param {position : Nat} {count : Int} {var : Variable} {isRecord : Bool}
    (hfits : site.Fits labels before
      (.getArg ((position + 1 : Nat) : Int) count (.var var) isRecord) after) :
    ∃ type, site.params[position]? = some type ∧ type.isRecord = isRecord ∧
      type.isStorable = true ∧ var.width = type.size := by
  generalize hinstr : Instr.getArg _ _ _ _ = instr at hfits
  cases hfits with
  | @getArg index _ _ type htype hstorable _ hwidth =>
      rw [Instr.getArg.injEq, Operand.var.injEq] at hinstr
      obtain ⟨hposition, _, rfl, hrecord⟩ := hinstr
      obtain rfl : position = index := by omega
      exact ⟨type, htype, hrecord.symm, hstorable, hwidth⟩
  | _ => cases hinstr

/-- Quads that receive arguments from a position on receive one for each parameter that is left. -/
theorem receiveArgs_fit {count position : Nat} {symbols : List Symbol}
    (hall : site.AllFit labels before (Lowering.receiveArgs count (position + 1) symbols) after)
    (hlength : position + symbols.length = site.params.length) :
    (Lowering.receiveArgs count (position + 1) symbols).map (·.instr) =
        ((site.params.drop position).zip (symbols.map .ofSymbol)).mapIdx
          (fun index => getArgAt count (position + index)) ∧
      List.Forall₂ (fun type formal => Ty.isStorable type = true ∧
        Variable.width formal = Ty.size type) (site.params.drop position)
          (symbols.map .ofSymbol) := by
  induction symbols generalizing position before with
  | nil =>
      have hdrop : site.params.drop position = [] := List.drop_eq_nil_of_le (by simp at hlength; omega)
      rw [hdrop]
      exact ⟨rfl, .nil⟩
  | cons symbol symbols ih =>
      rw [List.length_cons] at hlength
      cases hall with
      | cons hfits hrest =>
          obtain ⟨type, htype, hrecord, hstorable, hwidth⟩ := hfits.exists_param
          have hdrop : site.params.drop position = type :: site.params.drop (position + 1) := by
            obtain ⟨hlt, rfl⟩ := List.getElem?_eq_some_iff.1 htype
            exact List.drop_eq_getElem_cons hlt
          obtain ⟨hinstrs, hformals⟩ := ih hrest (by omega)
          rw [hdrop]
          refine ⟨?_, .cons ⟨hstorable, hwidth⟩ hformals⟩
          rw [Lowering.receiveArgs, List.map_cons, hinstrs, List.map_cons, List.zip_cons_cons,
            List.mapIdx_cons, getArgAt, hrecord]
          simp only [Nat.add_right_comm position 1, Nat.add_assoc position]
          rfl

/-- The code of a procedure begins with receiving one argument for each parameter. -/
theorem Procedure.Shaped.exists_receiving {program : Program} {procedure : Procedure}
    (hshaped : procedure.Shaped program) (hfitting : procedure.Fitting program) :
    ∃ gets rest, procedure.body = gets ++ rest ∧
      gets.map (·.instr) = (procedure.params.zip procedure.formals).mapIdx
        (getArgAt procedure.params.length) ∧
      List.Forall₂ (fun type formal => Ty.isStorable type = true ∧ 8 ∣ (Ty.size type).toInt ∧
        Variable.width formal = Ty.size type) procedure.params procedure.formals := by
  obtain ⟨symbols, _, hformals, rest, htail⟩ := hshaped.formals
  obtain ⟨last, hall⟩ := hfitting.quads
  have hlength : symbols.length = procedure.params.length := by
    rw [hfitting.params, hformals, List.length_map]
  rw [← htail] at hall
  obtain ⟨_, hreceive, _⟩ := hall.exists_of_append
  obtain ⟨hinstrs, hforall⟩ := receiveArgs_fit hreceive
    (by rw [Nat.zero_add]; exact hlength)
  rw [List.drop_zero, ← hformals] at hinstrs hforall
  -- The last quad receives nothing.
  obtain ⟨others, hbody⟩ : ∃ others, procedure.body =
      Lowering.receiveArgs symbols.length 1 symbols ++ others := by
    rcases List.eq_nil_or_concat rest with rfl | ⟨others, last, rfl⟩
    · have hmem : procedure.leaveQuad ∈ Lowering.receiveArgs symbols.length 1 symbols := by
        rw [← List.append_nil (Lowering.receiveArgs _ _ _), htail]
        exact List.mem_append_right _ (List.mem_singleton_self _)
      obtain ⟨_, _, _, hinstr⟩ := instr_of_mem_receiveArgs hmem
      cases hinstr
    · rw [List.concat_eq_append, ← List.append_assoc] at htail
      exact ⟨others, (List.append_inj' htail rfl).1.symm⟩
  refine ⟨_, others, hbody, ?_, ?_⟩
  · rw [hinstrs, hlength]
    simp only [Nat.zero_add]
    rfl
  · rw [List.forall₂_iff_zip] at hforall ⊢
    refine ⟨hforall.1, fun hmem => ?_⟩
    obtain ⟨hstorable, hwidth⟩ := hforall.2 hmem
    have hdvd := hshaped.widths _ (List.of_mem_zip hmem).2
    rw [hwidth] at hdvd
    exact ⟨hstorable, hdvd, hwidth⟩

end Shanty.Code
