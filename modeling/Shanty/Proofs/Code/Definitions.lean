/-
# Definitions before uses

A temporary has a value once a quad has written it, and an address temporary once a quad has put an
address into it. Code that reads a temporary, or reads or writes through an address, needs the quad
that defines it to have run before, whichever way the run has come.

This can be seen from the code alone. Nothing is known where a label stands, because a run may come
to it from elsewhere; from there to the next label every quad has to find what it needs among what
the quads in front of it define. That is enough for every path through a procedure: a path gets to a
quad without a label only from the quad before.
-/

import Shanty.Proofs.Code.Arrival

namespace Shanty.Code

/-! ## What instructions read and define -/

/-- The operands that an instruction reads. An index quad reads where its base is. -/
def Instr.sources : Instr → List Operand
  | .binary _ _ left right => [left, right]
  | .unary _ _ source | .assign _ source | .setArg _ source _ | .setRet source _
  | .output source _ => [source]
  | .index _ base _ => [base]
  | .ifZero condition _ => [condition]
  | .goto _ | .nop | .call _ | .enter _ | .leave _ | .getArg _ _ _ _ | .getRet _ _
  | .input _ _ => []

/-- The operand that an instruction puts something into. An index quad fills an address
temporary. -/
def Instr.destination? : Instr → Option Operand
  | .index target _ _ => some (.address target)
  | instr => instr.target?

/-- All operands of an instruction. -/
def Instr.operands (instr : Instr) : List Operand := instr.destination?.toList ++ instr.sources

/-- The temporary that an operand is or leads through. -/
def Operand.temporary? : Operand → Option Operand
  | .temp t => some (.temp t)
  | .address t => some (.address t)
  | _ => none

/-- The temporaries among some operands. -/
def temporaries (operands : List Operand) : List Operand := operands.filterMap (·.temporary?)

theorem temporaries_subset {operands others : List Operand} (hsubset : operands ⊆ others) :
    temporaries operands ⊆ temporaries others :=
  List.filterMap_subset _ hsubset

/-- Whether an operand stands for what lies at the address that a temporary holds. -/
def Operand.isAddress : Operand → Bool
  | .address _ => true
  | _ => false

/-- The temporaries that must have been defined before an instruction: those that it reads, and an
address temporary that it writes through. -/
def Instr.needs (instr : Instr) : List Operand :=
  temporaries (instr.sources ++ instr.target?.toList.filter (·.isAddress))

theorem Instr.needs_subset {instr : Instr} {operands : List Operand}
    (hsources : instr.sources ⊆ operands)
    (htarget : ∀ target ∈ instr.target?, target.isAddress = true → target ∈ operands) :
    instr.needs ⊆ temporaries operands := by
  refine temporaries_subset (List.append_subset.2 ⟨hsources, fun target hmem => ?_⟩)
  obtain ⟨hmem, haddress⟩ := List.mem_filter.1 hmem
  exact htarget target (Option.mem_toList.1 hmem) haddress

/-- The temporary that an instruction defines. -/
def Instr.defines? : Instr → Option Operand
  | .index target _ _ => some (.address target)
  | .binary _ (.temp temp) _ _ | .unary _ (.temp temp) _ | .assign (.temp temp) _
  | .getArg _ _ (.temp temp) _ | .getRet (.temp temp) _ | .input (.temp temp) _ =>
    some (.temp temp)
  | _ => none

/-- The temporaries that some quads define, in the order of the code. -/
def definitions (quads : List Quad) : List Operand := quads.filterMap (·.instr.defines?)

@[simp]
theorem definitions_nil : definitions [] = [] := rfl

@[simp]
theorem definitions_append (front back : List Quad) :
    definitions (front ++ back) = definitions front ++ definitions back :=
  List.filterMap_append

theorem definitions_cons (quad : Quad) (rest : List Quad) :
    definitions (quad :: rest) = quad.instr.defines?.toList ++ definitions rest := by
  rw [← List.singleton_append, definitions_append]
  simp only [definitions, List.filterMap_cons, List.filterMap_nil]
  cases quad.instr.defines? <;> rfl

theorem mem_definitions {quads : List Quad} {operand : Operand} :
    operand ∈ definitions quads ↔ ∃ quad ∈ quads, quad.instr.defines? = some operand :=
  List.mem_filterMap

/-! ## Code with all definitions that it needs -/

/-- What is known to be defined at a quad. Jumps come to a label from elsewhere. -/
def Quad.known (made : List Operand) (quad : Quad) : List Operand :=
  if quad.labels = [] then made else []

theorem Quad.known_subset (made : List Operand) (quad : Quad) : quad.known made ⊆ made := by
  rw [known]
  split
  · exact List.Subset.refl made
  · exact List.nil_subset made

/-- Every quad finds what it needs among what has been defined before, or since the last label. -/
def Supplied (made : List Operand) : List Quad → Prop
  | [] => True
  | quad :: rest =>
    quad.instr.needs ⊆ quad.known made ∧
      Supplied (quad.known made ++ quad.instr.defines?.toList) rest

variable {made more : List Operand} {front back quads rest : List Quad}

theorem Supplied.mono (hsupplied : Supplied made quads) (hsubset : made ⊆ more) :
    Supplied more quads := by
  induction quads generalizing made more with
  | nil => trivial
  | cons quad rest ih =>
      have hknown : quad.known made ⊆ quad.known more := by
        rw [Quad.known, Quad.known]
        split
        · exact hsubset
        · exact List.Subset.refl []
      refine ⟨List.Subset.trans hsupplied.1 hknown, ih hsupplied.2 ?_⟩
      exact List.append_subset.2 ⟨List.Subset.trans hknown (List.subset_append_left _ _),
        List.subset_append_right _ _⟩

/-- Straight code defines things for the code behind it. -/
theorem Supplied.append (hfront : Supplied made front) (hlabels : labelsOf front = [])
    (hback : Supplied (made ++ definitions front) back) : Supplied made (front ++ back) := by
  induction front generalizing made with
  | nil => simpa using hback
  | cons quad front ih =>
      rw [labelsOf_cons, List.append_eq_nil_iff] at hlabels
      have hknown : quad.known made = made := if_pos hlabels.1
      refine ⟨hfront.1, ih hfront.2 hlabels.2 ?_⟩
      rwa [hknown, List.append_assoc, ← definitions_cons]

/-- Code that needs nothing from outside can stand anywhere. -/
theorem Supplied.append_closed (hfront : Supplied made front) (hback : Supplied [] back) :
    Supplied made (front ++ back) := by
  induction front generalizing made with
  | nil => exact hback.mono (List.nil_subset _)
  | cons quad front ih => exact ⟨hfront.1, ih hfront.2⟩

/-- Quads that need nothing. -/
theorem Supplied.of_needs_nil (hneeds : ∀ quad ∈ quads, quad.instr.needs = []) :
    Supplied made quads := by
  induction quads generalizing made with
  | nil => trivial
  | cons quad rest ih =>
      rw [List.forall_mem_cons] at hneeds
      exact ⟨hneeds.1 ▸ List.nil_subset _, ih hneeds.2⟩

/-- Quads that define nothing and need what is there. -/
theorem Supplied.of_needs_subset (hlabels : labelsOf quads = [])
    (hneeds : ∀ quad ∈ quads, quad.instr.needs ⊆ made) : Supplied made quads := by
  induction quads generalizing made with
  | nil => trivial
  | cons quad rest ih =>
      rw [labelsOf_cons, List.append_eq_nil_iff] at hlabels
      rw [List.forall_mem_cons] at hneeds
      have hknown : quad.known made = made := if_pos hlabels.1
      rw [Supplied, hknown]
      exact ⟨hneeds.1, ih hlabels.2 fun later hlater =>
        List.Subset.trans (hneeds.2 later hlater) (List.subset_append_left _ _)⟩

theorem Supplied.of_suffix (hsupplied : Supplied made quads) (hsuffix : rest <:+ quads) :
    ∃ made', Supplied made' rest := by
  obtain ⟨front, rfl⟩ := hsuffix
  induction front generalizing made with
  | nil => exact ⟨made, hsupplied⟩
  | cons quad front ih => exact ih hsupplied.2

/-- Nothing has to be known where a jump leads to. -/
theorem Supplied.seek (hsupplied : Supplied made quads) (label : Label) :
    Supplied [] (seek label quads) := by
  obtain ⟨made', hthere⟩ := hsupplied.of_suffix (seek_suffix label quads)
  cases hseek : Code.seek label quads with
  | nil => trivial
  | cons quad rest =>
      rw [hseek] at hthere
      have hknown : ∀ made : List Operand, quad.known made = [] :=
        fun _ => if_neg (labels_ne_nil_of_seek hseek)
      rw [Supplied, hknown] at hthere ⊢
      exact hthere

/-! ## Paths -/

/-- The ways through a procedure: the quads that have been passed, and those in front. A path goes
on to the next quad or jumps to a label, whatever the values of conditions are. -/
inductive Procedure.Path (procedure : Procedure) : List Quad → List Quad → Prop
  | enter : Path procedure [] procedure.quads
  | next {trail rest : List Quad} {quad : Quad} :
      Path procedure trail (quad :: rest) → (∀ label, quad.instr ≠ .goto label) →
      Path procedure (trail ++ [quad]) rest
  | jump {trail rest : List Quad} {quad : Quad} {label : Label} :
      Path procedure trail (quad :: rest) → quad.instr.jumpTarget? = some label →
      Path procedure (trail ++ [quad]) (seek label procedure.quads)

variable {procedure : Procedure} {trail : List Quad}

/-- What is in front of a path is supplied with what was defined on the way. -/
theorem Procedure.Path.supplied (hsupplied : Supplied [] procedure.quads)
    (hpath : procedure.Path trail rest) :
    ∃ made, made ⊆ definitions trail ∧ Supplied made rest := by
  induction hpath with
  | enter => exact ⟨[], List.nil_subset _, hsupplied⟩
  | @next trail _ quad _ _ ih =>
      obtain ⟨made, hmade, _, hrest⟩ := ih
      refine ⟨_, ?_, hrest⟩
      rw [definitions_append, definitions_cons, definitions_nil, List.append_nil]
      exact List.append_subset.2
        ⟨List.Subset.trans (List.Subset.trans (quad.known_subset made) hmade)
          (List.subset_append_left _ _), List.subset_append_right _ _⟩
  | jump => exact ⟨[], List.nil_subset _, hsupplied.seek _⟩

/-- On every path, a quad comes after the quads that define what it needs. -/
theorem Procedure.Path.exists_definition {quad : Quad} (hsupplied : Supplied [] procedure.quads)
    (hpath : procedure.Path trail (quad :: rest)) {operand : Operand}
    (hneeds : operand ∈ quad.instr.needs) :
    ∃ earlier ∈ trail, earlier.instr.defines? = some operand := by
  obtain ⟨made, hmade, hquad, _⟩ := hpath.supplied hsupplied
  exact mem_definitions.1 (hmade (quad.known_subset made (hquad hneeds)))

/-! ## Runs -/

variable {program : Program} {inputs : List Int64} {config config' : Config}

/-- All activations under way are on paths through their procedures. -/
def OnPaths (frames : List Frame) : Prop :=
  ∀ frame ∈ frames, ∃ trail, frame.procedure.Path trail frame.rest

theorem OnPaths.step (hpaths : OnPaths config.frames)
    (hstep : Code.step program config = some config') :
    OnPaths config'.frames := by
  obtain ⟨store, frames⟩ := config
  cases frames with
  | nil => cases hstep
  | cons frame callers =>
      obtain ⟨procedure, self, quads⟩ := frame
      rw [OnPaths, List.forall_mem_cons] at hpaths
      obtain ⟨⟨trail, hpath⟩, hcallers⟩ := hpaths
      cases quads with
      | nil => cases hstep
      | cons quad rest =>
          simp only [Code.step, Option.bind_eq_bind, Option.bind_eq_some_iff] at hstep
          obtain ⟨⟨store₁, self'⟩, _, hproceed⟩ := hstep
          have hgoto : ∀ label, quad.instr = .goto label →
              quad.instr.course program store self = .jump label := by
            intro label hinstr
            rw [hinstr]
            rfl
          cases hcourse : quad.instr.course program store self with
          | next =>
              rw [hcourse] at hproceed
              cases hproceed
              refine List.forall_mem_cons.2 ⟨⟨_, hpath.next fun label hinstr => ?_⟩, hcallers⟩
              rw [hgoto label hinstr] at hcourse
              cases hcourse
          | jump label =>
              simp only [hcourse, proceed] at hproceed
              have hjump : quad.instr.jumpTarget? = some label := by
                cases hinstr : quad.instr <;> simp only [hinstr, Instr.course] at hcourse <;>
                  first
                    | cases hcourse; rfl
                    | (split at hcourse <;> cases hcourse; rfl)
                    | cases hcourse
              cases hseek : seek label procedure.quads with
              | nil =>
                  rw [hseek] at hproceed
                  cases hproceed
              | cons target rest' =>
                  rw [hseek] at hproceed
                  cases hproceed
                  exact List.forall_mem_cons.2 ⟨⟨_, hseek ▸ hpath.jump hjump⟩, hcallers⟩
          | call callee =>
              simp only [hcourse, proceed, Option.bind_eq_bind, Option.bind_eq_some_iff] at hproceed
              obtain ⟨called, _, hproceed⟩ := hproceed
              cases hproceed
              refine List.forall_mem_cons.2 ⟨⟨[], .enter⟩, List.forall_mem_cons.2
                ⟨⟨_, hpath.next fun label hinstr => ?_⟩, hcallers⟩⟩
              rw [hgoto label hinstr] at hcourse
              cases hcourse
          | leave =>
              rw [hcourse] at hproceed
              cases hproceed
              exact hcallers

/-- Whatever a run does, its activations follow the paths through their procedures. -/
theorem Visits.onPaths (hvisits : Visits program inputs config) : OnPaths config.frames := by
  obtain ⟨main, _, count, hcount⟩ := hvisits
  have hstart : OnPaths [main.begin { inputs }] :=
    List.forall_mem_singleton.2 ⟨[], .enter⟩
  revert hcount
  generalize Store.handOver { inputs } = store
  generalize [main.begin { inputs }] = frames at hstart
  intro hcount
  induction count generalizing store frames with
  | zero =>
      cases hcount
      exact hstart
  | succ count ih =>
      rw [Code.steps, Option.bind_eq_bind, Option.bind_eq_some_iff] at hcount
      obtain ⟨next, hstep, hcount⟩ := hcount
      exact ih _ _ (OnPaths.step hstart hstep) hcount

end Shanty.Code
