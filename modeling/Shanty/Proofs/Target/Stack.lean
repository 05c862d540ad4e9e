/-
# The height of the stack

Emitted code moves the stack pointer by fixed amounts, and it jumps only when the stack is as high as
right after the procedure was entered. So how high the stack is can be read off the code: each line of
a text is reached with one height only, on whatever way, and when a procedure goes back, the stack
pointer is where it was before the call.

A run follows a text from line to line. A call in it takes a whole run of the text that is called, or
whatever code outside of the program does, which is only known to put the stack pointer back. A
procedure goes back to where it was called from.
-/

import Shanty.Proofs.Target.Convention

namespace Shanty.Target

variable {Instr State : Type} {width : Nat}

/-! ## Runs -/

/-- A run through the lines of a text, which begin behind its label. It leads from some lines that are
left and a state to others. -/
inductive Run (abi : Abi Instr State width) (labels : String → BitVec width)
    (texts : List (List (Line Instr))) :
    List (Line Instr) → List (Line Instr) → State → List (Line Instr) → State → Prop
  | refl {body lines : List (Line Instr)} {state : State} :
      Run abi labels texts body lines state lines state
  | directive {body lines rest : List (Line Instr)} {start state : State} {text : String} :
      Run abi labels texts body lines start (.directive text :: rest) state →
      Run abi labels texts body lines start rest state
  | label {body lines rest : List (Line Instr)} {start state : State} {name : String} :
      Run abi labels texts body lines start (.label name :: rest) state →
      Run abi labels texts body lines start rest state
  | next {body lines rest : List (Line Instr)} {start state state' : State} {instr : Instr} :
      Run abi labels texts body lines start (.instr instr :: rest) state →
      abi.exec labels instr state = some (state', .next) →
      Run abi labels texts body lines start rest state'
  | jump {body lines rest before target : List (Line Instr)} {start state state' : State}
      {instr : Instr} {name : String} :
      Run abi labels texts body lines start (.instr instr :: rest) state →
      abi.exec labels instr state = some (state', .jump name) →
      body = before ++ .label name :: target →
      Run abi labels texts body lines start target state'
  /-- The text that is called runs from its first line to an instruction that goes back. -/
  | call {body lines rest callee others : List (Line Instr)} {start state linked last back : State}
      {instr instr' : Instr} {name : String} {address : BitVec width} :
      Run abi labels texts body lines start (.instr instr :: rest) state →
      abi.exec labels instr state = some (linked, .call name) →
      .label name :: callee ∈ texts →
      Run abi labels texts callee callee (abi.link address linked) (.instr instr' :: others) last →
      abi.exec labels instr' last = some (back, .ret) →
      Run abi labels texts body lines start rest back
  /-- What is called is not part of the program. -/
  | outside {body lines rest : List (Line Instr)} {start state asked back : State} {instr : Instr}
      {route : Route} :
      Run abi labels texts body lines start (.instr instr :: rest) state →
      abi.exec labels instr state = some (asked, route) →
      (route = .service ∨ ∃ name, route = .call name ∧ ∀ callee, .label name :: callee ∉ texts) →
      (abi.view back).stack = (abi.view asked).stack →
      Run abi labels texts body lines start rest back

/-- A text is being run, and was entered in a state. It is the one that everything has begun with, or
it was called by one that is being run. -/
inductive Active (abi : Abi Instr State width) (labels : String → BitVec width)
    (texts : List (List (Line Instr))) (main : List (Line Instr)) (origin : State) :
    List (Line Instr) → State → Prop
  | start : Active abi labels texts main origin main origin
  | call {body rest callee : List (Line Instr)} {start state linked : State} {instr : Instr}
      {name : String} {address : BitVec width} :
      Active abi labels texts main origin body start →
      Run abi labels texts body body start (.instr instr :: rest) state →
      abi.exec labels instr state = some (linked, .call name) →
      .label name :: callee ∈ texts →
      Active abi labels texts main origin callee (abi.link address linked)

/-! ## Moving the stack pointer -/

/-- What an instruction does to the stack pointer, and where it leads. -/
inductive Conduct (width : Nat)
  /-- The stack pointer goes down by a number of bytes, and the next instruction follows. -/
  | moves (size : BitVec width)
  /-- It stays, and a jump may follow. -/
  | branches
  /-- It stays, and something is called. -/
  | calls
  /-- It goes down by a number of bytes, and a procedure goes back. -/
  | returns (size : BitVec width)

/-- What a conduct promises about a step of a machine, given the stack pointer before and after it. -/
def Conduct.Allows (before after : BitVec width) (route : Route) : Conduct width → Prop
  | .moves size => route = .next ∧ after = before - size
  | .branches => (route = .next ∨ ∃ name, route = .jump name) ∧ after = before
  | .calls => (route = .service ∨ ∃ name, route = .call name) ∧ after = before
  | .returns size => route = .ret ∧ after = before - size

/-- How the instructions of a machine move its stack pointer. -/
structure Discipline (abi : Abi Instr State width) where
  conduct? : Instr → Option (Conduct width)
  /-- The number of bytes by which a call moves the stack pointer down. -/
  linkage : BitVec width
  exec_allowed : ∀ {labels : String → BitVec width} {instr : Instr} {state state' : State}
    {route : Route} {conduct : Conduct width}, conduct? instr = some conduct →
    abi.exec labels instr state = some (state', route) →
    conduct.Allows (abi.view state).stack (abi.view state').stack route
  link_eq : ∀ address state, (abi.view (abi.link address state)).stack =
    (abi.view state).stack - linkage

namespace Discipline

variable {abi : Abi Instr State width} (discipline : Discipline abi)

/-- Some lines keep the stack in order if they are reached with a height, which is counted from the
stack pointer before the call: labels and jumps are at one height, calls only at heights that are
allowed, and the height is zero in the end. -/
def Level (allowed : BitVec width → Prop) (base : BitVec width) :
    BitVec width → List (Line Instr) → Prop
  | height, [] => height = 0
  | height, .directive _ :: rest => Level allowed base height rest
  | height, .label _ :: rest => height = base ∧ Level allowed base height rest
  | height, .instr instr :: rest =>
    match discipline.conduct? instr with
    | some (.moves size) => Level allowed base (height + size) rest
    | some .branches => height = base ∧ Level allowed base height rest
    | some .calls => allowed height ∧ Level allowed base height rest
    | some (.returns size) => height + size = 0 ∧ Level allowed base 0 rest
    | none => False

/-- The height with which some lines are reached is determined by them. -/
theorem Level.unique {discipline : Discipline abi} {allowed : BitVec width → Prop}
    {base height height' : BitVec width} {lines : List (Line Instr)}
    (hlevel : discipline.Level allowed base height lines)
    (hlevel' : discipline.Level allowed base height' lines) : height = height' := by
  induction lines generalizing height height' with
  | nil => exact hlevel.trans hlevel'.symm
  | cons line rest ih =>
      cases line with
      | directive => exact ih hlevel hlevel'
      | label => exact hlevel.1.trans hlevel'.1.symm
      | instr instr =>
          rw [Level] at hlevel hlevel'
          cases hconduct : discipline.conduct? instr with
          | none =>
              rw [hconduct] at hlevel
              exact hlevel.elim
          | some conduct =>
              rw [hconduct] at hlevel hlevel'
              cases conduct with
              | moves size =>
                  have hsum : height + size = height' + size := ih hlevel hlevel'
                  exact (BitVec.add_left_inj _).1 hsum
              | branches => exact hlevel.1.trans hlevel'.1.symm
              | calls => exact ih hlevel.2 hlevel'.2
              | returns size =>
                  have hsum : height + size = height' + size := hlevel.1.trans hlevel'.1.symm
                  exact (BitVec.add_left_inj _).1 hsum

/-- What is left behind some lines is reached with a height, too. -/
theorem Level.exists_suffix {discipline : Discipline abi} {allowed : BitVec width → Prop}
    {base height : BitVec width} {front back : List (Line Instr)}
    (hlevel : discipline.Level allowed base height (front ++ back)) :
    ∃ height', discipline.Level allowed base height' back := by
  induction front generalizing height with
  | nil => exact ⟨height, hlevel⟩
  | cons line rest ih =>
      cases line with
      | directive => exact ih hlevel
      | label => exact ih hlevel.2
      | instr instr =>
          rw [List.cons_append, Level] at hlevel
          cases hconduct : discipline.conduct? instr with
          | none =>
              rw [hconduct] at hlevel
              exact hlevel.elim
          | some conduct =>
              rw [hconduct] at hlevel
              cases conduct with
              | moves => exact ih hlevel
              | branches => exact ih hlevel.2
              | calls => exact ih hlevel.2
              | returns => exact ih hlevel.2

/-- Some lines lead from a height to another one, whatever follows. -/
def Leads (allowed : BitVec width → Prop) (base height : BitVec width) (lines : List (Line Instr))
    (height' : BitVec width) : Prop :=
  ∀ rest, discipline.Level allowed base height' rest →
    discipline.Level allowed base height (lines ++ rest)

/-- An instruction leaves the stack pointer alone and leads to the next one. -/
def Quiet (instr : Instr) : Prop := discipline.conduct? instr = some (.moves 0)

/-- An instruction leaves the stack pointer alone, and may jump or call something. -/
def Steady (instr : Instr) : Prop :=
  discipline.conduct? instr ∈ [some (.moves 0), some .branches, some .calls]

/-- Code in which no instruction moves the stack pointer or leads elsewhere than to the next one. -/
def QuietCode (code : List Instr) : Prop := ∀ instr ∈ code, discipline.Quiet instr

/-- Code in which no instruction moves the stack pointer. -/
def SteadyCode (code : List Instr) : Prop := ∀ instr ∈ code, discipline.Steady instr

section Leads

variable {discipline : Discipline abi} {allowed : BitVec width → Prop}
  {base height height' height'' : BitVec width} {front back : List (Line Instr)}
  {code : List Instr}

theorem QuietCode.append {front back : List Instr} (hfront : discipline.QuietCode front)
    (hback : discipline.QuietCode back) : discipline.QuietCode (front ++ back) :=
  List.forall_mem_append.2 ⟨hfront, hback⟩

theorem SteadyCode.append {front back : List Instr} (hfront : discipline.SteadyCode front)
    (hback : discipline.SteadyCode back) : discipline.SteadyCode (front ++ back) :=
  List.forall_mem_append.2 ⟨hfront, hback⟩

theorem QuietCode.steady (hquiet : discipline.QuietCode code) : discipline.SteadyCode code := by
  intro instr hinstr
  rw [Steady, hquiet instr hinstr]
  exact List.mem_cons_self

theorem Leads.refl : discipline.Leads allowed base height [] height := fun _ hlevel => hlevel

theorem Leads.append (hfront : discipline.Leads allowed base height front height')
    (hback : discipline.Leads allowed base height' back height'') :
    discipline.Leads allowed base height (front ++ back) height'' := by
  intro rest hlevel
  rw [List.append_assoc]
  exact hfront _ (hback rest hlevel)

/-- Labels are at one height. -/
theorem leads_labelLines (quad : Code.Quad) :
    discipline.Leads allowed base base (labelLines quad) base := by
  rw [labelLines]
  induction quad.labels with
  | nil => exact .refl
  | cons label labels ih => exact fun rest hlevel => ⟨rfl, ih rest hlevel⟩

theorem leads_instr {instr : Instr} {size : BitVec width}
    (hconduct : discipline.conduct? instr = some (.moves size)) :
    discipline.Leads allowed base height [.instr instr] (height + size) := by
  intro rest hlevel
  rw [List.singleton_append, Level, hconduct]
  exact hlevel

theorem leads_of_quiet (hquiet : discipline.QuietCode code) :
    discipline.Leads allowed base height (code.map .instr) height := by
  induction code with
  | nil => exact .refl
  | cons instr code ih =>
      rw [QuietCode, List.forall_mem_cons] at hquiet
      have hfirst : discipline.Leads allowed base height [.instr instr] (height + 0) :=
        leads_instr hquiet.1
      rw [show height + 0 = height from BitVec.add_zero _] at hfirst
      exact hfirst.append (ih hquiet.2)

/-- At the height of jumps, which has to be allowed for calls, nothing changes the height. -/
theorem leads_of_steady (hallowed : allowed base)
    (hsteady : discipline.SteadyCode code) :
    discipline.Leads allowed base base (code.map .instr) base := by
  induction code with
  | nil => exact .refl
  | cons instr code ih =>
      rw [SteadyCode, List.forall_mem_cons] at hsteady
      intro rest hlevel
      have hrest := ih hsteady.2 rest hlevel
      have hmem := hsteady.1
      simp only [Steady, List.mem_cons, List.not_mem_nil, or_false] at hmem
      rw [List.map_cons, List.cons_append, Level]
      rcases hmem with hmoves | hbranches | hcalls
      · rw [hmoves]
        show discipline.Level allowed base (base + 0) _
        rw [show base + 0 = base from BitVec.add_zero _]
        exact hrest
      · rw [hbranches]
        exact ⟨rfl, hrest⟩
      · rw [hcalls]
        exact ⟨hallowed, hrest⟩

end Leads

/-- All texts keep the stack in order from their first lines on. -/
def Orderly (allowed : BitVec width → Prop) (texts : List (List (Line Instr))) : Prop :=
  ∀ name body, .label name :: body ∈ texts →
    ∃ base, discipline.Level allowed base discipline.linkage body

end Discipline

section Runs

variable {abi : Abi Instr State width} {discipline : Discipline abi} {allowed : BitVec width → Prop}
  {labels : String → BitVec width} {texts : List (List (Line Instr))}
  {body lines rest : List (Line Instr)} {start state : State} {base height : BitVec width}

namespace Discipline.Level

variable {instr : Instr} {state' : State} {route : Route} {name : String}

theorem exists_conduct (hlevel : discipline.Level allowed base height (.instr instr :: rest))
    (hexec : abi.exec labels instr state = some (state', route)) :
    ∃ conduct, discipline.conduct? instr = some conduct ∧
      conduct.Allows (abi.view state).stack (abi.view state').stack route := by
  cases hconduct : discipline.conduct? instr with
  | none =>
      rw [Level, hconduct] at hlevel
      exact hlevel.elim
  | some conduct => exact ⟨conduct, rfl, discipline.exec_allowed hconduct hexec⟩

/-- An instruction that leads to the next one moves the stack pointer as far as the height changes. -/
theorem of_next (hlevel : discipline.Level allowed base height (.instr instr :: rest))
    (hexec : abi.exec labels instr state = some (state', .next)) :
    ∃ height', discipline.Level allowed base height' rest ∧
      (abi.view state').stack + height' =
        (abi.view state).stack + height := by
  obtain ⟨conduct, hconduct, hallows⟩ := hlevel.exists_conduct hexec
  rw [Level, hconduct] at hlevel
  cases conduct with
  | moves size =>
      refine ⟨height + size, hlevel, ?_⟩
      rw [hallows.2]
      grind
  | branches => exact ⟨height, hlevel.2, by rw [hallows.2]⟩
  | calls => simp [Conduct.Allows] at hallows
  | returns => simp [Conduct.Allows] at hallows

/-- Jumps are at one height only. -/
theorem of_jump (hlevel : discipline.Level allowed base height (.instr instr :: rest))
    (hexec : abi.exec labels instr state = some (state', .jump name)) :
    height = base ∧ (abi.view state').stack = (abi.view state).stack := by
  obtain ⟨conduct, hconduct, hallows⟩ := hlevel.exists_conduct hexec
  rw [Level, hconduct] at hlevel
  cases conduct with
  | branches => exact ⟨hlevel.1, hallows.2⟩
  | moves => simp [Conduct.Allows] at hallows
  | calls => simp [Conduct.Allows] at hallows
  | returns => simp [Conduct.Allows] at hallows

/-- Calls are at heights that are allowed. -/
theorem of_call (hlevel : discipline.Level allowed base height (.instr instr :: rest))
    (hexec : abi.exec labels instr state = some (state', route))
    (hroute : route = .service ∨ ∃ name, route = .call name) :
    allowed height ∧ discipline.Level allowed base height rest ∧
      (abi.view state').stack = (abi.view state).stack := by
  obtain ⟨conduct, hconduct, hallows⟩ := hlevel.exists_conduct hexec
  rw [Level, hconduct] at hlevel
  cases conduct with
  | calls => exact ⟨hlevel.1, hlevel.2, hallows.2⟩
  | moves => rcases hroute with rfl | ⟨_, rfl⟩ <;> simp [Conduct.Allows] at hallows
  | branches => rcases hroute with rfl | ⟨_, rfl⟩ <;> simp [Conduct.Allows] at hallows
  | returns => rcases hroute with rfl | ⟨_, rfl⟩ <;> simp [Conduct.Allows] at hallows

/-- Going back takes off all that is left on the stack. -/
theorem of_ret (hlevel : discipline.Level allowed base height (.instr instr :: rest))
    (hexec : abi.exec labels instr state = some (state', .ret)) :
    (abi.view state').stack = (abi.view state).stack + height := by
  obtain ⟨conduct, hconduct, hallows⟩ := hlevel.exists_conduct hexec
  rw [Level, hconduct] at hlevel
  cases conduct with
  | returns size =>
      have hzero : height + size = 0 := hlevel.1
      rw [hallows.2]
      grind
  | moves => simp [Conduct.Allows] at hallows
  | branches => simp [Conduct.Allows] at hallows
  | calls => simp [Conduct.Allows] at hallows

end Discipline.Level

/-- Wherever a run of an orderly text gets, the height of the stack tells where the stack pointer is. -/
theorem Run.exists_level (horderly : discipline.Orderly allowed texts)
    (hrun : Run abi labels texts body lines start rest state)
    (hbody : discipline.Level allowed base discipline.linkage body)
    (hlines : discipline.Level allowed base height lines) :
    ∃ height', discipline.Level allowed base height' rest ∧
      (abi.view state).stack + height' =
        (abi.view start).stack + height := by
  induction hrun generalizing base height with
  | refl => exact ⟨height, hlines, rfl⟩
  | directive _ ih => exact ih hbody hlines
  | label _ ih =>
      obtain ⟨height', hlevel, hstack⟩ := ih hbody hlines
      exact ⟨height', hlevel.2, hstack⟩
  | next _ hexec ih =>
      obtain ⟨height', hlevel, hstack⟩ := ih hbody hlines
      obtain ⟨height'', hrest, hmoved⟩ := hlevel.of_next hexec
      exact ⟨height'', hrest, hmoved.trans hstack⟩
  | jump _ hexec htarget ih =>
      obtain ⟨height', hlevel, hstack⟩ := ih hbody hlines
      obtain ⟨hheight, hsame⟩ := hlevel.of_jump hexec
      rw [htarget] at hbody
      obtain ⟨height'', hbase, hrest⟩ := hbody.exists_suffix
      refine ⟨height'', hrest, ?_⟩
      rw [hsame, hbase, ← hheight, hstack]
  | call _ hexec hmem _ hexec' ih ihCallee =>
      -- The callee takes off its stack what the call and its own code have put there.
      obtain ⟨height', hlevel, hstack⟩ := ih hbody hlines
      obtain ⟨_, hrest, hsame⟩ := hlevel.of_call hexec (.inr ⟨_, rfl⟩)
      obtain ⟨base', hcallee⟩ := horderly _ _ hmem
      obtain ⟨height'', hlast, hdone⟩ := ihCallee hcallee hcallee
      refine ⟨height', hrest, ?_⟩
      rw [hlast.of_ret hexec', hdone, discipline.link_eq, BitVec.sub_add_cancel, hsame, hstack]
  | outside _ hexec hroute hback ih =>
      obtain ⟨height', hlevel, hstack⟩ := ih hbody hlines
      obtain ⟨_, hrest, hsame⟩ := hlevel.of_call hexec
        (hroute.imp_right fun ⟨name, hname, _⟩ => ⟨name, hname⟩)
      refine ⟨height', hrest, ?_⟩
      rw [hback, hsame, hstack]

/-- Between lines that are reached with the same height, a run puts the stack pointer back. -/
theorem Run.stack_eq (horderly : discipline.Orderly allowed texts)
    (hrun : Run abi labels texts body lines start rest state)
    (hbody : discipline.Level allowed base discipline.linkage body)
    (hlines : discipline.Level allowed base height lines)
    (hrest : discipline.Level allowed base height rest) :
    (abi.view state).stack = (abi.view start).stack := by
  obtain ⟨height', hrest', hstack⟩ := hrun.exists_level horderly hbody hlines
  rw [hrest'.unique hrest] at hstack
  exact (BitVec.add_left_inj _).1 hstack

variable {main callee : List (Line Instr)} {origin state' : State} {instr : Instr}
  {entry name : String} {good : BitVec width → Prop}

/-- If the stack pointer before a call is good, it is so at all calls that the callee makes, as long as
heights that are allowed keep it so. -/
theorem Run.good_of_call (horderly : discipline.Orderly allowed texts)
    (hgood : ∀ top height, good top → allowed height → good (top - height))
    (hmem : .label entry :: body ∈ texts)
    (hstart : good ((abi.view start).stack + discipline.linkage))
    (hrun : Run abi labels texts body body start (.instr instr :: rest) state)
    (hexec : abi.exec labels instr state = some (state', .call name)) :
    good (abi.view state).stack ∧ (abi.view state').stack = (abi.view state).stack := by
  obtain ⟨base, hbody⟩ := horderly _ _ hmem
  obtain ⟨height, hlevel, hstack⟩ := hrun.exists_level horderly hbody hbody
  obtain ⟨hallowed, _, hsame⟩ := hlevel.of_call hexec (.inr ⟨name, rfl⟩)
  rw [← hstack] at hstart
  have hdone := hgood _ _ hstart hallowed
  rw [BitVec.add_sub_cancel] at hdone
  exact ⟨hdone, hsame⟩

/-- The stack pointer is good before every call that leads to a text that is being run. -/
theorem Active.good_of_entry (horderly : discipline.Orderly allowed texts)
    (hgood : ∀ top height, good top → allowed height → good (top - height))
    (hmain : .label entry :: main ∈ texts)
    (horigin : good ((abi.view origin).stack + discipline.linkage))
    (hactive : Active abi labels texts main origin body start) :
    (∃ entry, .label entry :: body ∈ texts) ∧
      good ((abi.view start).stack + discipline.linkage) := by
  induction hactive with
  | start => exact ⟨⟨entry, hmain⟩, horigin⟩
  | call _ hrun hexec hmem ih =>
      obtain ⟨⟨entry', hmem'⟩, hstart⟩ := ih
      obtain ⟨hdone, hsame⟩ := hrun.good_of_call horderly hgood hmem' hstart hexec
      refine ⟨⟨_, hmem⟩, ?_⟩
      rw [discipline.link_eq, BitVec.sub_add_cancel, hsame]
      exact hdone

/-- If the stack pointer is good where everything begins, it is so at all calls. -/
theorem Active.good_of_call (horderly : discipline.Orderly allowed texts)
    (hgood : ∀ top height, good top → allowed height → good (top - height))
    (hmain : .label entry :: main ∈ texts)
    (horigin : good ((abi.view origin).stack + discipline.linkage))
    (hactive : Active abi labels texts main origin body start)
    (hrun : Run abi labels texts body body start (.instr instr :: rest) state)
    (hexec : abi.exec labels instr state = some (state', .call name)) :
    good (abi.view state).stack := by
  obtain ⟨⟨entry', hmem⟩, hstart⟩ := hactive.good_of_entry horderly hgood hmain horigin
  exact (hrun.good_of_call horderly hgood hmem hstart hexec).1

end Runs

end Shanty.Target
