/-
# Code that is run through

An activation runs through some quads on a straight line if it comes from the first of them to what
stands behind the last. On the way it calls procedures, whose activations begin and end before it
goes on. They write to global variables and to their own storage, so what belongs to an activation
that had begun before a call is the same when the call is over. Therefore the quads change only what
they have a right to.

One invariant is enough for all activations that have begun since some time: they have different
numbers, and each of them stands at code that keeps to its rights.
-/

import Shanty.Proofs.Code.Simulation
import Shanty.Proofs.Code.Writes

namespace Shanty

/-- Storage that there was before some number of activations had begun. -/
def Block.Older (begun : Nat) : Block → Prop
  | .inside owner _ => owner < begun
  | .global _ | .nowhere => True

theorem Block.Older.mono {begun begun' : Nat} (hle : begun ≤ begun') {block : Block}
    (holder : block.Older begun) : block.Older begun' := by
  cases block with
  | inside owner slot => exact Nat.lt_of_lt_of_le holder hle
  | _ => trivial

/-- Storage that belongs to no activation but those that had begun before some time is kept. -/
def Memory.KeepsOlder (begun : Nat) (memory memory' : Memory) : Prop :=
  ∀ place : Address, place.block.Older begun → (∀ symbol, place.block ≠ .global symbol) →
    memory' place = memory place

theorem Memory.KeepsOlder.trans {begun : Nat} {memory memory' memory'' : Memory}
    (hfirst : KeepsOlder begun memory memory') (hsecond : KeepsOlder begun memory' memory'') :
    KeepsOlder begun memory memory'' :=
  fun place holder hlocal => (hsecond place holder hlocal).trans (hfirst place holder hlocal)

namespace Code

variable {program : Program}

/-! ## Activations that have begun since some time -/

/-- The procedures of a program keep to their rights. -/
def Program.Permitted (program : Program) : Prop :=
  ∀ procedure ∈ program.procedures, Rights.all.PermitAll .unknown procedure.quads

/-- An activation stands at code that keeps to its rights. -/
structure Frame.Permitted (program : Program) (memory : Memory) (frame : Frame) : Prop where
  procedure : Rights.all.PermitAll .unknown frame.procedure.quads
  rest : ∃ pointers : Pointers, pointers.Hold program memory frame.activation.number ∧
    Rights.all.PermitAll pointers frame.rest

/-- What is known about the addresses of an activation depends on its own storage. -/
theorem Frame.Permitted.keep {memory memory' : Memory} {frame : Frame}
    (hpermitted : frame.Permitted program memory)
    (hkeeps : ∀ temp : Temp, memory' (temp.home frame.activation.number) =
      memory (temp.home frame.activation.number)) : frame.Permitted program memory' := by
  obtain ⟨pointers, hhold, hrest⟩ := hpermitted.rest
  refine ⟨hpermitted.procedure, pointers, ?_, hrest⟩
  intro temp var hvar
  rw [hkeeps]
  exact hhold temp var hvar

/-- Code that is jumped to begins with a label. -/
theorem labels_ne_nil_of_seek {label : Label} {quads rest : List Quad} {quad : Quad}
    (hseek : seek label quads = quad :: rest) : quad.labels ≠ [] := by
  intro hnil
  have hhead := List.head?_dropWhile_not (fun quad : Quad => !quad.hasLabel label) quads
  rw [← seek, hseek] at hhead
  simp [Quad.hasLabel, hnil] at hhead

/-- A label stands at the beginning of code that keeps to its rights, whatever is known there. -/
theorem Rights.PermitAll.seek {rights : Rights} {pointers : Pointers} {quads rest : List Quad}
    {label : Label} {quad : Quad} (hpermit : rights.PermitAll pointers quads)
    (hseek : seek label quads = quad :: rest) : rights.PermitAll .unknown (quad :: rest) := by
  obtain ⟨pointers', hfirst, hrest⟩ := hpermit.exists_of_suffix (hseek ▸ seek_suffix label quads)
  have hlabelled := labels_ne_nil_of_seek hseek
  have harrive : ∀ pointers : Pointers, quad.arrive pointers = .unknown := fun _ => if_neg hlabelled
  rw [harrive] at hfirst hrest
  exact ⟨by rwa [harrive], by rwa [harrive]⟩

/-- Activations that have begun since some number of activations had, the innermost first. -/
structure Since (program : Program) (begun : Nat) (store : Store) (frames : List Frame) : Prop where
  begun : ∀ frame ∈ frames, begun ≤ frame.activation.number
  number : ∀ frame ∈ frames, frame.activation.number < store.activations
  permitted : ∀ frame ∈ frames, frame.Permitted program store.memory
  nested : frames.Pairwise fun inner outer => outer.activation.number < inner.activation.number

/-- A new activation of a procedure. -/
theorem Frame.permitted_begin (hprogram : program.Permitted) {callee : String}
    {procedure : Procedure} (hprocedure : program.procedure? callee = some procedure)
    (store : Store) (memory : Memory) : (procedure.begin store).Permitted program memory := by
  have hpermit := hprogram procedure (List.mem_of_find?_eq_some hprocedure)
  exact ⟨hpermit, .unknown, Pointers.hold_unknown _ _ _, hpermit⟩

/-- A single activation that begins. -/
theorem Since.single (hprogram : program.Permitted) {callee : String} {procedure : Procedure}
    (hprocedure : program.procedure? callee = some procedure) (store : Store) :
    Since program store.activations store.handOver [procedure.begin store] where
  begun := List.forall_mem_singleton.2 (Nat.le_refl _)
  number := List.forall_mem_singleton.2 (Nat.lt_succ_self _)
  permitted := List.forall_mem_singleton.2 (Frame.permitted_begin hprogram hprocedure _ _)
  nested := List.pairwise_singleton _ _

variable {begun : Nat} {store : Store} {frame : Frame} {frames base : List Frame}

/-- What the innermost activation does leaves the storage of all others as it is. -/
theorem Since.step_innermost {quad : Quad} {rest : List Quad} {store' : Store}
    {activation : Activation} (hsince : Since program begun store (frame :: frames))
    (hrest : frame.rest = quad :: rest)
    (heffect : quad.instr.effect program store frame.activation = some (store', activation)) :
    Since program begun store' ({ frame with activation, rest } :: frames) ∧
      store'.activations = store.activations ∧
      store.memory.KeepsOlder begun store'.memory := by
  obtain ⟨hbegun, hnumber, hpermitted, hnested⟩ := hsince
  rw [List.forall_mem_cons] at hbegun hnumber hpermitted
  rw [List.pairwise_cons] at hnested
  obtain ⟨pointers, hhold, hpermit⟩ := hpermitted.1.rest
  rw [hrest] at hpermit
  have harrive : (quad.arrive pointers).Hold program store.memory frame.activation.number := by
    unfold Quad.arrive
    split
    · exact hhold
    · exact Pointers.hold_unknown _ _ _
  obtain ⟨hactivations, hself, _, houtside⟩ := Instr.effect_changes heffect
  have hkeeps : ∀ place : Address, ¬ Rights.all.Admit frame.activation.number place.block →
      store'.memory place = store.memory place :=
    fun place hnot => houtside place fun htouches => hnot (hpermit.1.admits harrive htouches)
  refine ⟨⟨?_, ?_, ?_, ?_⟩, hactivations, ?_⟩
  · rw [List.forall_mem_cons, hself]
    exact hbegun
  · rw [List.forall_mem_cons, hself, hactivations]
    exact hnumber
  · rw [List.forall_mem_cons]
    refine ⟨⟨hpermitted.1.procedure, _, ?_, hpermit.2⟩, ?_⟩
    · simp only [hself]
      exact harrive.track hpermit.1 heffect
    · intro other hother
      refine (hpermitted.2 other hother).keep fun temp => hkeeps _ ?_
      rintro ⟨heq, _⟩
      exact absurd heq (Nat.ne_of_lt (hnested.1 other hother))
  · rw [List.pairwise_cons]
    simp only [hself]
    exact hnested
  · intro place holder hlocal
    apply hkeeps
    intro hallowed
    generalize place.block = block at holder hlocal hallowed
    match block with
    | .global symbol => exact hlocal symbol rfl
    | .inside owner (.var _) =>
        exact absurd (hallowed.1 ▸ holder) (Nat.not_lt.2 hbegun.1)
    | .inside owner (.temp _ _) =>
        exact absurd (hallowed.1 ▸ holder) (Nat.not_lt.2 hbegun.1)
    | .nowhere => exact hallowed

/-- The innermost activation may go on at any code that keeps to its rights. -/
theorem Since.goto (hsince : Since program begun store (frame :: frames)) {rest : List Quad}
    (hpermit : Rights.all.PermitAll .unknown rest) :
    Since program begun store ({ frame with rest } :: frames) := by
  obtain ⟨hbegun, hnumber, hpermitted, hnested⟩ := hsince
  rw [List.forall_mem_cons] at hbegun hnumber hpermitted
  rw [List.pairwise_cons] at hnested
  refine ⟨List.forall_mem_cons.2 hbegun, List.forall_mem_cons.2 hnumber,
    List.forall_mem_cons.2 ⟨?_, hpermitted.2⟩, List.pairwise_cons.2 hnested⟩
  exact ⟨hpermitted.1.procedure, .unknown, Pointers.hold_unknown _ _ _, hpermit⟩

/-- One more activation may begin. -/
theorem Since.call (hprogram : program.Permitted) {callee : String} {procedure : Procedure}
    (hprocedure : program.procedure? callee = some procedure)
    (hsince : Since program begun store frames) (hle : begun ≤ store.activations) :
    Since program begun store.handOver (procedure.begin store :: frames) where
  begun := List.forall_mem_cons.2 ⟨hle, hsince.begun⟩
  number := List.forall_mem_cons.2 ⟨Nat.lt_succ_self _,
    fun frame hframe => Nat.lt_succ_of_lt (hsince.number frame hframe)⟩
  permitted := List.forall_mem_cons.2 ⟨Frame.permitted_begin hprogram hprocedure _ _,
    hsince.permitted⟩
  nested := List.pairwise_cons.2 ⟨hsince.number, hsince.nested⟩

/-- The innermost activation may end. -/
theorem Since.leave (hsince : Since program begun store (frame :: frames))
    (returned : Option Value) : Since program begun { store with returned } frames where
  begun := (List.forall_mem_cons.1 hsince.begun).2
  number := (List.forall_mem_cons.1 hsince.number).2
  permitted := (List.forall_mem_cons.1 hsince.permitted).2
  nested := (List.pairwise_cons.1 hsince.nested).2

/-- A step of activations that have begun since some time leads to such activations again, and
leaves those below them and the storage that was there before as they are. -/
theorem Since.step (hprogram : program.Permitted) {config : Config}
    (hsince : Since program begun store (frame :: frames))
    (hstep : step program ⟨store, frame :: (frames ++ base)⟩ = some config) :
    ∃ store' frames', config = ⟨store', frames' ++ base⟩ ∧ Since program begun store' frames' ∧
      store.activations ≤ store'.activations ∧ store.memory.KeepsOlder begun store'.memory := by
  obtain ⟨procedure, self, quads⟩ := frame
  cases quads with
  | nil => cases hstep
  | cons quad rest =>
      simp only [Code.step, Option.bind_eq_bind, Option.bind_eq_some_iff] at hstep
      obtain ⟨⟨store₁, activation⟩, heffect, hproceed⟩ := hstep
      obtain ⟨hsince₁, hactivations, hkeeps⟩ := hsince.step_innermost rfl heffect
      have hmore : store.activations ≤ store₁.activations := Nat.le_of_eq hactivations.symm
      cases hcourse : quad.instr.course program store self with
      | next =>
          rw [hcourse] at hproceed
          cases hproceed
          exact ⟨store₁, _ :: frames, rfl, hsince₁, hmore, hkeeps⟩
      | jump label =>
          simp only [hcourse, proceed] at hproceed
          cases hseek : seek label procedure.quads with
          | nil =>
              rw [hseek] at hproceed
              cases hproceed
          | cons target rest' =>
              rw [hseek] at hproceed
              cases hproceed
              have hpermit := (hsince.permitted _ List.mem_cons_self).procedure.seek hseek
              exact ⟨store₁, _ :: frames, rfl, hsince₁.goto hpermit, hmore, hkeeps⟩
      | call callee =>
          simp only [hcourse, proceed, Option.bind_eq_bind, Option.bind_eq_some_iff] at hproceed
          obtain ⟨called, hcalled, hproceed⟩ := hproceed
          cases hproceed
          have hle : begun ≤ store₁.activations := Nat.le_trans
            (hsince₁.begun _ List.mem_cons_self)
            (Nat.le_of_lt (hsince₁.number _ List.mem_cons_self))
          exact ⟨store₁.handOver, _ :: _ :: frames, rfl, hsince₁.call hprogram hcalled hle,
            Nat.le_succ_of_le hmore, hkeeps⟩
      | leave =>
          rw [hcourse] at hproceed
          cases hproceed
          exact ⟨_, frames, rfl, hsince₁.leave _, hmore, hkeeps⟩

/-- A run that gets to a configuration with as many activations as there are below some others has
got back to those below before. -/
theorem Since.returns (hprogram : program.Permitted) {count : Nat} {config : Config}
    (hsince : Since program begun store frames)
    (hcount : steps program count ⟨store, frames ++ base⟩ = some config)
    (hlength : config.frames.length ≤ base.length) :
    ∃ first second store', count = first + second ∧
      steps program first ⟨store, frames ++ base⟩ = some ⟨store', base⟩ ∧
      steps program second ⟨store', base⟩ = some config ∧
      store.activations ≤ store'.activations ∧ store.memory.KeepsOlder begun store'.memory := by
  induction count generalizing store frames with
  | zero =>
      cases hcount
      obtain rfl : frames = [] := by
        rw [List.length_append] at hlength
        exact List.eq_nil_of_length_eq_zero (by omega)
      exact ⟨0, 0, store, rfl, rfl, rfl, Nat.le_refl _, fun _ _ _ => rfl⟩
  | succ count ih =>
      cases frames with
      | nil => exact ⟨0, count + 1, store, (Nat.zero_add _).symm, rfl, hcount, Nat.le_refl _,
          fun _ _ _ => rfl⟩
      | cons frame frames =>
          rw [steps, Option.bind_eq_bind, Option.bind_eq_some_iff] at hcount
          obtain ⟨next, hstep, hcount⟩ := hcount
          obtain ⟨store₁, frames₁, rfl, hsince₁, hmore, hkeeps⟩ := hsince.step hprogram hstep
          obtain ⟨first, second, store', rfl, hfirst, hsecond, hmore', hkeeps'⟩ :=
            ih hsince₁ hcount
          refine ⟨first + 1, second, store', by omega, ?_, hsecond, Nat.le_trans hmore hmore',
            hkeeps.trans hkeeps'⟩
          rw [steps, hstep]
          exact hfirst

/-- In a run of activations that have begun since some time there are only such activations. -/
theorem Since.reaches (hprogram : program.Permitted) {config : Config}
    (hsince : Since program begun store frames)
    (hreaches : Reaches program ⟨store, frames⟩ config) :
    Since program begun config.store config.frames := by
  obtain ⟨count, hcount⟩ := hreaches
  induction count generalizing store frames with
  | zero =>
      cases hcount
      exact hsince
  | succ count ih =>
      cases frames with
      | nil => cases hcount
      | cons frame frames =>
          rw [steps, Option.bind_eq_bind, Option.bind_eq_some_iff] at hcount
          obtain ⟨next, hstep, hcount⟩ := hcount
          rw [← List.append_nil frames] at hstep
          obtain ⟨store₁, frames₁, rfl, hsince₁, _, _⟩ := hsince.step hprogram hstep
          rw [List.append_nil] at hcount
          exact ih hsince₁ hcount

/-! ## Straight lines -/

/-- A run that is in front of a quad comes to a configuration, and the activation has not been
behind the quad before. -/
def Stage.Tries (program : Program) (stage : Stage) (quad : Quad) (rest : List Quad)
    (store : Store) (config : Config) : Prop :=
  ∃ count, steps program count (stage.config store (quad :: rest)) = some config ∧
    ∀ earlier < count, ∀ store'',
      steps program earlier (stage.config store (quad :: rest)) ≠ some (stage.config store'' rest)

/-- An activation runs a quad. If this is a call, another activation begins and ends meanwhile. -/
def Stage.Runs (program : Program) (stage : Stage) (quad : Quad) (rest : List Quad)
    (store store' : Store) : Prop :=
  stage.Tries program quad rest store (stage.config store' rest)

/-- An activation runs some quads, one after the other. -/
def Stage.Crosses (program : Program) (stage : Stage) :
    List Quad → List Quad → Store → Store → Prop
  | [], _, store, store' => store' = store
  | quad :: body, rest, store, store' => ∃ store₁,
    stage.Runs program quad (body ++ rest) store store₁ ∧
      stage.Crosses program body rest store₁ store'

/-- A configuration with a quad in front is not one with what stands behind the quad in front. -/
theorem Stage.config_cons_ne (stage : Stage) (store store' : Store) (quad : Quad)
    (rest : List Quad) : stage.config store (quad :: rest) ≠ stage.config store' rest := by
  intro hsame
  have hlength := congrArg (fun config : Config => config.frames.map (·.rest.length)) hsame
  simp [Stage.config] at hlength

/-- A step is a try. -/
theorem Stage.tries_single {stage : Stage} {quad : Quad} {rest : List Quad} {store : Store}
    {config : Config} (hstep : step program (stage.config store (quad :: rest)) = some config) :
    stage.Tries program quad rest store config := by
  refine ⟨1, ?_, ?_⟩
  · simp only [steps, hstep, Option.bind_eq_bind, Option.bind_some]
  · intro earlier hearlier store'' hthere
    obtain rfl : earlier = 0 := by omega
    exact stage.config_cons_ne store store'' quad rest (Option.some.inj hthere)

/-- What some rights say nothing about is kept, as far as it was there before some number of
activations had begun. -/
def Rights.Keeps (rights : Rights) (activation begun : Nat) (memory memory' : Memory) : Prop :=
  ∀ place : Address, ¬ rights.Admit activation place.block → place.block.Older begun →
    memory' place = memory place

variable {rights : Rights} {pointers : Pointers} {stage : Stage} {store' : Store}
  {body rest : List Quad}

/-- An instruction that is a call or goes on behind itself, and sets no result. -/
structure Instr.Straight (program : Program) (instr : Instr) : Prop where
  unset : ∀ source isRecord, instr ≠ .setRet source isRecord
  course : (∃ callee, instr = .call callee) ∨
    ∀ store self, instr.course program store self = .next

theorem Rights.Permit.straight {instr : Instr} (hcontrol : ¬ rights.control)
    (hpermit : rights.Permit pointers instr) : instr.Straight program := by
  cases instr with
  | goto | ifZero | leave | setRet => exact absurd hpermit hcontrol
  | enter =>
      obtain rfl : rights = .all := hpermit
      exact absurd trivial hcontrol
  | call callee => exact ⟨nofun, .inl ⟨callee, rfl⟩⟩
  | _ => exact ⟨nofun, .inr fun _ _ => rfl⟩

theorem Rights.PermitAll.straight {quads : List Quad} (hcontrol : ¬ rights.control)
    (hpermit : rights.PermitAll pointers quads) :
    ∀ quad ∈ quads, quad.instr.Straight program := by
  induction quads generalizing pointers with
  | nil => exact List.forall_mem_nil _
  | cons quad quads ih =>
      exact List.forall_mem_cons.2 ⟨Rights.Permit.straight hcontrol hpermit.1, ih hpermit.2⟩

/-- An activation is behind a quad as soon as it gets there. -/
theorem Stage.Runs.eq_of_steps {stage : Stage} {quad : Quad} {rest : List Quad}
    {store store₁ store' : Store} {first second : Nat}
    (hnot : ∀ earlier < first + second, ∀ store'',
      steps program earlier (stage.config store (quad :: rest)) ≠ some (stage.config store'' rest))
    (hfirst : steps program first (stage.config store (quad :: rest)) =
      some (stage.config store₁ rest))
    (hsecond : steps program second (stage.config store₁ rest) = some (stage.config store' rest)) :
    store' = store₁ := by
  cases second with
  | zero =>
      cases hsecond
      rfl
  | succ second => exact absurd hfirst (hnot first (by omega) store₁)

/-- Whoever runs a quad has the effect of its instruction, and that of a procedure if the quad is a
call. -/
theorem Stage.Runs.effect {quad : Quad} (hprogram : program.Permitted)
    (hcontrol : ¬ rights.control) (hpermit : rights.Permit pointers quad.instr)
    (hruns : stage.Runs program quad rest store store') :
    ∃ store₁, quad.instr.effect program store stage.activation = some (store₁, stage.activation) ∧
      store₁.activations ≤ store'.activations ∧
      (store' = store₁ ∨ (∃ callee, quad.instr = .call callee) ∧
        store₁.memory.KeepsOlder store₁.activations store'.memory) := by
  obtain ⟨count, hcount, hnot⟩ := hruns
  cases count with
  | zero => exact absurd (Option.some.inj hcount) (stage.config_cons_ne store store' quad rest)
  | succ count =>
      rw [steps, Option.bind_eq_bind, Option.bind_eq_some_iff] at hcount
      obtain ⟨next, hstep, hcount⟩ := hcount
      have hnext := hstep
      simp only [Code.step, Stage.config, Option.bind_eq_bind, Option.bind_eq_some_iff] at hnext
      obtain ⟨⟨store₁, self⟩, heffect, hproceed⟩ := hnext
      obtain ⟨hunset, hcourse⟩ := Rights.Permit.straight hcontrol hpermit
      obtain rfl := (Instr.effect_changes heffect).same hunset
      rcases hcourse with ⟨callee, hcall⟩ | hcourse
      · simp only [hcall, Instr.course, proceed, Option.bind_eq_bind,
          Option.bind_eq_some_iff] at hproceed
        obtain ⟨procedure, hprocedure, hproceed⟩ := hproceed
        cases hproceed
        -- The callee is the only activation above the one that waits for it.
        obtain ⟨first, second, store₂, rfl, hfirst, hsecond, hmore, hkeeps⟩ :=
          (Since.single hprogram hprocedure store₁).returns hprogram hcount (Nat.le_refl _)
        have hthere : steps program (first + 1) (stage.config store (quad :: rest)) =
            some (stage.config store₂ rest) := by
          rw [steps, hstep]
          exact hfirst
        rw [Nat.add_right_comm] at hnot
        obtain rfl := Stage.Runs.eq_of_steps hnot hthere hsecond
        exact ⟨store₁, heffect, Nat.le_of_succ_le hmore, .inr ⟨⟨callee, hcall⟩, hkeeps⟩⟩
      · rw [hcourse] at hproceed
        cases hproceed
        have hthere : steps program 1 (stage.config store (quad :: rest)) =
            some (stage.config store₁ rest) := by
          rw [steps, hstep]
          rfl
        rw [Nat.add_comm] at hnot
        obtain rfl := Stage.Runs.eq_of_steps hnot hthere hcount
        exact ⟨_, heffect, Nat.le_refl _, .inl rfl⟩

/-- Code that is crossed changes only what it has a right to, and what is known about addresses
behind it holds. -/
theorem Stage.Crosses.keeps (hprogram : program.Permitted) (hcontrol : ¬ rights.control)
    (hlabels : labelsOf body = []) (hpermit : rights.PermitAll pointers body)
    (hhold : pointers.Hold program store.memory stage.activation.number)
    (hbegun : stage.activation.number < begun) (hle : begun ≤ store.activations)
    (hcrosses : stage.Crosses program body rest store store') :
    (pointers.after body).Hold program store'.memory stage.activation.number ∧
      begun ≤ store'.activations ∧
      rights.Keeps stage.activation.number begun store.memory store'.memory := by
  induction body generalizing pointers store with
  | nil =>
      obtain rfl : store' = store := hcrosses
      exact ⟨hhold, hle, fun _ _ _ => rfl⟩
  | cons quad body ih =>
      simp only [labelsOf, List.flatMap_cons, List.append_eq_nil_iff] at hlabels
      have harrive : quad.arrive pointers = pointers := quad.arrive_of_labels hlabels.1 pointers
      rw [Rights.PermitAll, harrive] at hpermit
      rw [Pointers.after, harrive]
      obtain ⟨store₂, hruns, hrest⟩ := hcrosses
      obtain ⟨store₁, heffect, hmore, hcall⟩ := hruns.effect hprogram hcontrol hpermit.1
      have hchanges := Instr.effect_changes heffect
      have hle₁ : begun ≤ store₁.activations := hchanges.activations ▸ hle
      have hhold₁ := hhold.track hpermit.1 heffect
      have hkeeps₁ : rights.Keeps stage.activation.number begun store.memory store₁.memory :=
        fun place hnot _ => hchanges.memory place fun htouches =>
          hnot (hpermit.1.admits hhold htouches)
      -- A call keeps what is local, and what is global is admitted where calls are.
      have hkeeps₂ : rights.Keeps stage.activation.number begun store₁.memory store₂.memory ∧
          (Instr.track pointers quad.instr).Hold program store₂.memory stage.activation.number := by
        rcases hcall with rfl | ⟨⟨callee, hcallee⟩, holder⟩
        · exact ⟨fun _ _ _ => rfl, hhold₁⟩
        · have hcalls : rights.calls := by
            have hpermit₁ := hpermit.1
            rwa [hcallee] at hpermit₁
          refine ⟨?_, ?_⟩
          · intro place hnot hplace
            refine holder place (hplace.mono hle₁) ?_
            intro symbol hglobal
            rw [hglobal] at hnot
            exact hnot (.inr hcalls)
          · intro temp var hvar
            have hhome := holder (temp.home stage.activation.number)
              (Nat.lt_of_lt_of_le hbegun hle₁) fun symbol hglobal => by cases hglobal
            rw [hhome]
            exact hhold₁ temp var hvar
      obtain ⟨hhold', hle', hkeeps'⟩ := ih hlabels.2 hpermit.2 hkeeps₂.2
        (Nat.le_trans hle₁ hmore) hrest
      refine ⟨hhold', hle', ?_⟩
      intro place hnot hplace
      rw [hkeeps' place hnot hplace, hkeeps₂.1 place hnot hplace, hkeeps₁ place hnot hplace]

end Code

end Shanty
