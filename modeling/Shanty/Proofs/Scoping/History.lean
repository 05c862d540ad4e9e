/-
# What a chain of scopes remembers

Any calls may be made of a chain that starts without an open scope, in any order, and what the
chain answers can be told from the history of the calls alone. Scopes are told apart by their
levels: a scope that is opened while `n` others are open is at level `n + 1`, and it is closed when
fewer scopes are open. A name stands for the first symbol that a call asked to insert under it into
the innermost open scope for which there is such a call.

`Asks` reads these calls off the history, and `Recalls` compares the scopes of a chain with them.
Every call keeps `Recalls`, so it holds behind every history. A stretch of calls that closes no
scopes but its own leaves the scopes around them as they were.
-/

import Mathlib.Data.List.Induction
import Mathlib.Data.Nat.Find
import Mathlib.Order.Basic
import Shanty.Scope

namespace Shanty.ScopeChain

/-- A call of one of the operations of a chain. -/
inductive Call
  | enter
  | leave
  | insert (symbol : Symbol)
  | lookup (name : String)
  | lookupLocal (name : String)

/-- The chain after a call. A call that is at fault leaves the chain as it was. -/
def after (chain : ScopeChain) : Call → ScopeChain
  | .enter => chain.enter
  | .leave =>
    match chain.leave with
    | .ok next => next
    | .error _ => chain
  | .insert symbol =>
    match chain.insert symbol with
    | .ok (_, next) => next
    | .error _ => chain
  | .lookup _ | .lookupLocal _ => chain

/-- The chain after a history of calls, which begins without an open scope. -/
def run (calls : List Call) : ScopeChain := calls.foldl after {}

/-! ## Histories -/

/-- The number of open scopes after a call. -/
def Call.level (before : Nat) : Call → Nat
  | .enter => before + 1
  | .leave => before - 1
  | .insert _ | .lookup _ | .lookupLocal _ => before

/-- The number of open scopes after a history of calls. -/
def level (calls : List Call) : Nat := calls.foldl Call.level 0

/-- The call at a place in a history asks to insert a symbol into the scope at a level, and this
scope has not been closed since. -/
structure Asks (calls : List Call) (depth place : Nat) (symbol : Symbol) : Prop where
  call_eq : calls[place]? = some (.insert symbol)
  level_eq : level (calls.take place) = depth
  pos : 0 < depth
  stays : ∀ later, place ≤ later → depth ≤ level (calls.take later)

/-- No call asks to insert a symbol of a name into the open scope at a level. -/
def Lacks (calls : List Call) (depth : Nat) (name : String) : Prop :=
  ∀ place symbol, Asks calls depth place symbol → symbol.name ≠ name

/-- The first symbol of a name that a call asks to insert into the open scope at a level. -/
def IsFirst (calls : List Call) (depth : Nat) (name : String) (symbol : Symbol) : Prop :=
  ∃ place, Asks calls depth place symbol ∧ symbol.name = name ∧
    ∀ earlier other, earlier < place → Asks calls depth earlier other → other.name ≠ name

/-- The first symbol of a name in the innermost open scope that has one. -/
def IsInnermost (calls : List Call) (name : String) (symbol : Symbol) : Prop :=
  ∃ depth, IsFirst calls depth name symbol ∧ ∀ inner, depth < inner → Lacks calls inner name

section Histories

variable {calls : List Call} {call : Call} {depth place : Nat} {name : String} {symbol : Symbol}

theorem level_concat (calls : List Call) (call : Call) :
    level (calls ++ [call]) = call.level (level calls) := by
  rw [level, List.foldl_append]
  rfl

theorem Asks.lt_length (hasks : Asks calls depth place symbol) : place < calls.length :=
  (List.getElem?_eq_some_iff.1 hasks.call_eq).1

theorem Asks.le_level (hasks : Asks calls depth place symbol) : depth ≤ level calls := by
  simpa using hasks.stays calls.length hasks.lt_length.le

theorem IsFirst.le_level (hfirst : IsFirst calls depth name symbol) : depth ≤ level calls :=
  let ⟨_, hasks, _⟩ := hfirst
  hasks.le_level

theorem IsFirst.pos (hfirst : IsFirst calls depth name symbol) : 0 < depth :=
  let ⟨_, hasks, _⟩ := hfirst
  hasks.pos

/-- No scope is open above the innermost one. -/
theorem lacks_of_level_lt (hdepth : level calls < depth) (name : String) : Lacks calls depth name :=
  fun _ _ hasks => absurd hasks.le_level hdepth.not_ge

/-- Of all calls that ask for a name, one is the first. -/
theorem lacks_iff : Lacks calls depth name ↔ ∀ symbol, ¬ IsFirst calls depth name symbol := by
  constructor
  · rintro hlacks symbol ⟨place, hasks, hname, -⟩
    exact hlacks place symbol hasks hname
  · intro hnone place symbol hasks hname
    classical
    have hplace : ∃ place symbol, Asks calls depth place symbol ∧ symbol.name = name :=
      ⟨place, symbol, hasks, hname⟩
    obtain ⟨first, hfirst, hname⟩ := Nat.find_spec hplace
    refine hnone first ⟨_, hfirst, hname, fun earlier other hearlier hother hsame => ?_⟩
    exact Nat.find_min hplace hearlier ⟨other, hother, hsame⟩

/-- What stands in front of one more call is kept, as long as its scope is not closed. -/
theorem asks_concat_of_lt (hplace : place < calls.length) :
    Asks (calls ++ [call]) depth place symbol ↔
      Asks calls depth place symbol ∧ depth ≤ level (calls ++ [call]) := by
  constructor
  · intro hasks
    refine ⟨⟨?_, ?_, hasks.pos, fun later hlater => ?_⟩, hasks.le_level⟩
    · rw [← List.getElem?_append_left hplace, hasks.call_eq]
    · rw [← List.take_append_of_le_length hplace.le, hasks.level_eq]
    · rcases Nat.le_total later calls.length with hshort | hlong
      · simpa only [List.take_append_of_le_length hshort] using hasks.stays later hlater
      · rw [List.take_of_length_le hlong]
        simpa using hasks.stays calls.length hplace.le
  · rintro ⟨hasks, hle⟩
    refine ⟨?_, ?_, hasks.pos, fun later hlater => ?_⟩
    · rw [List.getElem?_append_left hplace, hasks.call_eq]
    · rw [List.take_append_of_le_length hplace.le, hasks.level_eq]
    · rcases Nat.lt_or_ge calls.length later with hlong | hshort
      · rwa [List.take_of_length_le (by simpa using Nat.succ_le_of_lt hlong)]
      · rw [List.take_append_of_le_length hshort]
        exact hasks.stays later hlater

/-- One more call may ask for something itself. -/
theorem asks_concat_length :
    Asks (calls ++ [call]) depth calls.length symbol ↔
      call = .insert symbol ∧ level calls = depth ∧ 0 < depth := by
  constructor
  · intro hasks
    have hcall := hasks.call_eq
    have hlevel := hasks.level_eq
    rw [List.getElem?_concat_length] at hcall
    rw [List.take_left] at hlevel
    exact ⟨Option.some.inj hcall, hlevel, hasks.pos⟩
  · rintro ⟨rfl, rfl, hpos⟩
    refine ⟨List.getElem?_concat_length, by rw [List.take_left], hpos, fun later hlater => ?_⟩
    rcases hlater.eq_or_lt with rfl | hlong
    · rw [List.take_left]
    · rw [List.take_of_length_le (by simpa using Nat.succ_le_of_lt hlong), level_concat, Call.level]

/-- A call that asks for nothing in a scope and does not close it. -/
theorem asks_concat (hopen : depth ≤ level (calls ++ [call]))
    (hother : ∀ symbol, call = .insert symbol → level calls ≠ depth) :
    Asks (calls ++ [call]) depth place symbol ↔ Asks calls depth place symbol := by
  rcases Nat.lt_trichotomy place calls.length with hplace | rfl | hplace
  · simp only [asks_concat_of_lt hplace, hopen, and_true]
  · rw [asks_concat_length]
    refine ⟨fun ⟨hcall, hlevel, _⟩ => absurd hlevel (hother symbol hcall), fun hasks => ?_⟩
    exact absurd hasks.lt_length (Nat.lt_irrefl _)
  · refine ⟨fun hasks => absurd hasks.lt_length ?_, fun hasks => absurd hasks.lt_length ?_⟩
    · simpa using Nat.succ_le_of_lt hplace
    · exact hplace.not_gt

theorem isFirst_concat (hopen : depth ≤ level (calls ++ [call]))
    (hother : ∀ symbol, call = .insert symbol → level calls ≠ depth) :
    IsFirst (calls ++ [call]) depth name symbol ↔ IsFirst calls depth name symbol := by
  simp only [IsFirst, asks_concat hopen hother]

/-- A symbol that is inserted into the innermost scope is the first of its name unless there was
one before. -/
theorem isFirst_insert (hpos : 0 < level calls) (new : Symbol) :
    IsFirst (calls ++ [.insert new]) (level calls) name symbol ↔
      IsFirst calls (level calls) name symbol ∨
        Lacks calls (level calls) name ∧ new = symbol ∧ new.name = name := by
  have hopen : level calls ≤ level (calls ++ [.insert new]) := by
    rw [level_concat, Call.level]
  have hkept : ∀ {place other}, place < calls.length →
      (Asks (calls ++ [.insert new]) (level calls) place other ↔
        Asks calls (level calls) place other) := fun hplace => by
    simp only [asks_concat_of_lt hplace, hopen, and_true]
  constructor
  · rintro ⟨place, hasks, hname, hfirst⟩
    have hplace := hasks.lt_length
    rw [List.length_append, List.length_singleton] at hplace
    rcases Nat.lt_succ_iff_lt_or_eq.1 hplace with hplace | rfl
    · refine .inl ⟨place, (hkept hplace).1 hasks, hname, fun earlier other hearlier hother => ?_⟩
      exact hfirst earlier other hearlier ((hkept (hearlier.trans hplace)).2 hother)
    · obtain ⟨hnew, -⟩ := asks_concat_length.1 hasks
      cases hnew
      refine .inr ⟨fun earlier other hother => ?_, rfl, hname⟩
      exact hfirst earlier other hother.lt_length ((hkept hother.lt_length).2 hother)
  · rintro (⟨place, hasks, hname, hfirst⟩ | ⟨hlacks, rfl, hname⟩)
    · have hplace := hasks.lt_length
      refine ⟨place, (hkept hplace).2 hasks, hname, fun earlier other hearlier hother => ?_⟩
      exact hfirst earlier other hearlier ((hkept (hearlier.trans hplace)).1 hother)
    · refine ⟨calls.length, asks_concat_length.2 ⟨rfl, rfl, hpos⟩, hname, ?_⟩
      exact fun earlier other hearlier hother => hlacks earlier other ((hkept hearlier).1 hother)

end Histories

/-! ## Stacks of scopes -/

/-- An insertion finds no open scope, or the name in the innermost one, or a place for the symbol. -/
theorem insert_cases (chain : ScopeChain) (symbol : Symbol) :
    (chain.scopes = [] ∧ ∃ fault, chain.insert symbol = .error fault) ∨
    ∃ scope outer, chain.scopes = scope :: outer ∧
      ((scope.lookup symbol.name).isSome = true ∧ chain.insert symbol = .ok (false, chain) ∨
        (scope.lookup symbol.name).isSome = false ∧ chain.insert symbol =
          .ok (true, { chain with scopes := ((symbol.name, symbol) :: scope) :: outer })) := by
  unfold ScopeChain.insert
  cases hscopes : chain.scopes with
  | nil => exact .inl ⟨rfl, _, rfl⟩
  | cons scope outer =>
      refine .inr ⟨scope, outer, rfl, ?_⟩
      cases hknown : (scope.lookup symbol.name).isSome with
      | true => exact .inl ⟨rfl, by simp only [hknown, if_true]⟩
      | false => exact .inr ⟨rfl, by simp [hknown]⟩

/-- What a call makes of a stack of scopes. -/
def Call.stack : Call → List Scope → List Scope
  | .enter, scopes => [] :: scopes
  | .leave, scopes => scopes.tail
  | .insert _, [] => []
  | .insert symbol, scope :: outer =>
    (if (scope.lookup symbol.name).isSome then scope else (symbol.name, symbol) :: scope) :: outer
  | .lookup _, scopes | .lookupLocal _, scopes => scopes

theorem length_stack (call : Call) (scopes : List Scope) :
    (call.stack scopes).length = call.level scopes.length := by
  cases call with
  | enter | lookup | lookupLocal => rfl
  | leave => exact List.length_tail
  | insert symbol => cases scopes <;> rfl

/-- The scopes after a call depend on the scopes before it alone. -/
theorem scopes_after (chain : ScopeChain) (call : Call) :
    (chain.after call).scopes = call.stack chain.scopes := by
  cases call with
  | enter | lookup | lookupLocal => rfl
  | leave =>
      obtain ⟨scopes, entered, left⟩ := chain
      cases scopes <;> rfl
  | insert symbol =>
      rcases chain.insert_cases symbol with ⟨hscopes, fault, hinsert⟩ |
        ⟨scope, outer, hscopes, ⟨hknown, hinsert⟩ | ⟨hknown, hinsert⟩⟩
      all_goals simp [after, Call.stack, *]

theorem run_concat (calls : List Call) (call : Call) :
    run (calls ++ [call]) = (run calls).after call := by
  rw [run, List.foldl_append]
  rfl

theorem scopes_run_append (before later : List Call) :
    (run (before ++ later)).scopes =
      later.foldl (fun scopes call => call.stack scopes) (run before).scopes := by
  rw [run, List.foldl_append]
  exact (List.foldl_hom ScopeChain.scopes fun chain call => (scopes_after chain call).symm).symm

/-- Each scope of a stack, the innermost first, knows the first symbol of every name that was
inserted at its level. -/
def Recalls (calls : List Call) : List Scope → Prop
  | [] => True
  | scope :: outer =>
    (∀ name symbol, scope.lookup name = some symbol ↔
      IsFirst calls (outer.length + 1) name symbol) ∧ Recalls calls outer

namespace Recalls

variable {calls : List Call} {scopes : List Scope}

/-- Scopes that a call does not concern are still right after it. -/
theorem concat (hrecalls : Recalls calls scopes) (call : Call)
    (hopen : scopes.length ≤ level (calls ++ [call]))
    (hother : ∀ symbol, call = .insert symbol → scopes.length < level calls) :
    Recalls (calls ++ [call]) scopes := by
  induction scopes with
  | nil => trivial
  | cons scope outer ih =>
      obtain ⟨hscope, houter⟩ := hrecalls
      rw [List.length_cons] at hopen hother
      refine ⟨fun name symbol => ?_, ih houter (by omega) fun symbol hcall => ?_⟩
      · rw [isFirst_concat hopen fun symbol hcall => (hother symbol hcall).ne']
        exact hscope name symbol
      · have := hother symbol hcall
        omega

/-- The innermost scope after an insertion. -/
theorem insert {scope : Scope} {outer : List Scope} (hrecalls : Recalls calls (scope :: outer))
    (hlevel : (scope :: outer).length = level calls) (new : Symbol) :
    Recalls (calls ++ [.insert new]) ((Call.insert new).stack (scope :: outer)) := by
  obtain ⟨hscope, houter⟩ := hrecalls
  rw [List.length_cons] at hlevel
  have hrest : Recalls (calls ++ [.insert new]) outer := by
    refine houter.concat _ ?_ fun symbol _ => by omega
    rw [level_concat, Call.level]
    omega
  have hfirst : ∀ name symbol, IsFirst (calls ++ [.insert new]) (outer.length + 1) name symbol ↔
      scope.lookup name = some symbol ∨
        scope.lookup name = none ∧ new = symbol ∧ new.name = name := by
    intro name symbol
    have hlacks : Lacks calls (level calls) name ↔ scope.lookup name = none := by
      rw [lacks_iff, Option.eq_none_iff_forall_ne_some, ← hlevel]
      exact forall_congr' fun symbol => not_congr (hscope name symbol).symm
    rw [hscope, hlevel, isFirst_insert (by omega), hlacks]
  refine ⟨fun name symbol => ?_, hrest⟩
  rw [hfirst]
  cases hknown : scope.lookup new.name with
  | some known =>
      refine ⟨.inl, fun hcases => hcases.elim id ?_⟩
      rintro ⟨hnone, -, rfl⟩
      rw [hknown] at hnone
      cases hnone
  | none =>
      simp only [Option.isSome_none, Bool.false_eq_true, if_false, List.lookup_cons]
      by_cases hname : name = new.name
      · subst hname
        simp [hknown]
      · have hother : ¬ new.name = name := fun hsame => hname hsame.symm
        simp [beq_false_of_ne hname, hother]

/-- A call keeps the scopes right, and makes right what it changes. -/
theorem step (hrecalls : Recalls calls scopes) (hlevel : scopes.length = level calls) (call : Call) :
    Recalls (calls ++ [call]) (call.stack scopes) := by
  have hconcat := level_concat calls call
  cases call with
  | enter =>
      -- The new scope is empty, and no call has asked for anything at its level since it is open.
      rw [Call.level] at hconcat
      refine ⟨fun name symbol => ?_, hrecalls.concat .enter (by omega) nofun⟩
      have hnone : ¬ IsFirst (calls ++ [.enter]) (scopes.length + 1) name symbol := fun hfirst => by
        rw [isFirst_concat hfirst.le_level nofun] at hfirst
        have := hfirst.le_level
        omega
      simpa using hnone
  | leave =>
      rw [Call.level] at hconcat
      cases scopes with
      | nil => trivial
      | cons scope outer =>
          rw [List.length_cons] at hlevel
          exact hrecalls.2.concat .leave (by omega) nofun
  | insert symbol =>
      cases scopes with
      | nil => trivial
      | cons scope outer => exact hrecalls.insert hlevel symbol
  | lookup name => exact hrecalls.concat _ (hlevel.trans hconcat.symm).le nofun
  | lookupLocal name => exact hrecalls.concat _ (hlevel.trans hconcat.symm).le nofun

/-- A name is found in the innermost scope that has it. -/
theorem findSome?_iff (hrecalls : Recalls calls scopes) (name : String) (symbol : Symbol) :
    scopes.findSome? (·.lookup name) = some symbol ↔
      ∃ depth ≤ scopes.length, IsFirst calls depth name symbol ∧
        ∀ inner, depth < inner → inner ≤ scopes.length → Lacks calls inner name := by
  induction scopes with
  | nil =>
      simp only [List.findSome?_nil, List.length_nil, reduceCtorEq, false_iff]
      rintro ⟨depth, hdepth, hfirst, -⟩
      exact absurd hfirst.pos hdepth.not_gt
  | cons scope outer ih =>
      obtain ⟨hscope, houter⟩ := hrecalls
      rw [List.findSome?_cons, List.length_cons]
      cases hfound : scope.lookup name with
      | some found =>
          have hfirst := (hscope name found).1 hfound
          constructor
          · rintro ⟨⟩
            exact ⟨_, le_rfl, hfirst, fun inner hinner hle => absurd hle hinner.not_ge⟩
          · rintro ⟨depth, hdepth, hother, hinner⟩
            rcases hdepth.eq_or_lt with rfl | hdepth
            · exact hfound.symm.trans ((hscope name symbol).2 hother)
            · exact absurd hfirst (lacks_iff.1 (hinner _ hdepth le_rfl) found)
      | none =>
          have hlacks : Lacks calls (outer.length + 1) name := by
            rw [lacks_iff]
            intro other hother
            rw [← hscope, hfound] at hother
            cases hother
          rw [ih houter]
          constructor
          · rintro ⟨depth, hdepth, hfirst, hinner⟩
            refine ⟨depth, Nat.le_succ_of_le hdepth, hfirst, fun inner hdeeper hle => ?_⟩
            rcases hle.eq_or_lt with rfl | hle
            · exact hlacks
            · exact hinner inner hdeeper (Nat.le_of_lt_succ hle)
          · rintro ⟨depth, hdepth, hfirst, hinner⟩
            rcases hdepth.eq_or_lt with rfl | hdepth
            · exact absurd hfirst (lacks_iff.1 hlacks symbol)
            · exact ⟨depth, Nat.le_of_lt_succ hdepth, hfirst, fun inner hdeeper hle =>
                hinner inner hdeeper (Nat.le_succ_of_le hle)⟩

end Recalls

/-- After every history, as many scopes are open as the history says, and each is right. -/
theorem recalls_run (calls : List Call) :
    (run calls).scopes.length = level calls ∧ Recalls calls (run calls).scopes := by
  induction calls using List.reverseRecOn with
  | nil => exact ⟨rfl, trivial⟩
  | append_singleton calls call ih =>
      obtain ⟨hlevel, hrecalls⟩ := ih
      rw [run_concat, scopes_after, length_stack, level_concat, hlevel]
      exact ⟨rfl, hrecalls.step hlevel call⟩

/-! ## Answers -/

section Answers

variable {chain next : ScopeChain} {symbol : Symbol}

/-- An insertion is refused if the innermost scope has the name, and then nothing changes. -/
theorem insert_refused_iff :
    chain.insert symbol = .ok (false, next) ↔
      (chain.lookupLocal symbol.name).isSome = true ∧ next = chain := by
  unfold lookupLocal
  rcases chain.insert_cases symbol with ⟨hscopes, fault, hinsert⟩ |
    ⟨scope, outer, hscopes, ⟨hknown, hinsert⟩ | ⟨hknown, hinsert⟩⟩
  all_goals simp [*, eq_comm]

theorem insert_fault_iff : (∃ fault, chain.insert symbol = .error fault) ↔ chain.scopes = [] := by
  rcases chain.insert_cases symbol with ⟨hscopes, fault, hinsert⟩ |
    ⟨scope, outer, hscopes, ⟨hknown, hinsert⟩ | ⟨hknown, hinsert⟩⟩
  all_goals simp [hinsert, hscopes]

theorem leave_fault_iff : (∃ fault, chain.leave = .error fault) ↔ chain.scopes = [] := by
  unfold ScopeChain.leave
  cases chain.scopes <;> simp

/-- An insertion that does not succeed leaves the scopes alone. -/
theorem stack_of_not_inserted (hnot : ∀ next, chain.insert symbol ≠ .ok (true, next)) :
    (Call.insert symbol).stack chain.scopes = chain.scopes := by
  rcases chain.insert_cases symbol with ⟨hscopes, -⟩ |
    ⟨scope, outer, hscopes, ⟨hknown, -⟩ | ⟨-, hinsert⟩⟩
  · rw [hscopes, Call.stack]
  · rw [hscopes, Call.stack, if_pos hknown]
  · exact absurd hinsert (hnot _)

/-- A call keeps count of the open scopes. -/
theorem depth_add_left_after (hcounts : chain.depth + chain.left = chain.entered) (call : Call) :
    (chain.after call).depth + (chain.after call).left = (chain.after call).entered := by
  unfold depth at hcounts ⊢
  rw [scopes_after, length_stack]
  cases call with
  | enter => simp only [after, enter, Call.level]; omega
  | lookup | lookupLocal => exact hcounts
  | leave =>
      obtain ⟨scopes, entered, left⟩ := chain
      cases scopes with
      | nil => exact hcounts
      | cons scope outer =>
          simp only [after, leave, Call.level, List.length_cons] at hcounts ⊢
          omega
  | insert symbol =>
      rcases chain.insert_cases symbol with ⟨-, fault, hinsert⟩ |
        ⟨scope, outer, -, ⟨-, hinsert⟩ | ⟨-, hinsert⟩⟩
      all_goals simpa only [after, hinsert, Call.level] using hcounts

theorem depth_add_left_run (calls : List Call) :
    (run calls).depth + (run calls).left = (run calls).entered := by
  induction calls using List.reverseRecOn with
  | nil => rfl
  | append_singleton calls call ih =>
      rw [run_concat]
      exact depth_add_left_after ih call

end Answers

/-- A chain answers as its history of calls tells. -/
structure Reflects (chain : ScopeChain) (calls : List Call) : Prop where
  depth_eq : chain.depth = level calls
  depth_counts : (chain.depth : Int) = chain.entered - chain.left
  leave_faults : (∃ fault, chain.leave = .error fault) ↔ level calls = 0
  insert_faults : ∀ symbol, (∃ fault, chain.insert symbol = .error fault) ↔ level calls = 0
  insert_refused : ∀ symbol next, chain.insert symbol = .ok (false, next) ↔
    ¬ Lacks calls (level calls) symbol.name ∧ next = chain
  lookup_iff : ∀ name symbol, chain.lookup name = some symbol ↔ IsInnermost calls name symbol
  lookupLocal_iff : ∀ name symbol, chain.lookupLocal name = some symbol ↔
    IsFirst calls (level calls) name symbol

theorem lookupLocal_run_iff (calls : List Call) (name : String) (symbol : Symbol) :
    (run calls).lookupLocal name = some symbol ↔ IsFirst calls (level calls) name symbol := by
  obtain ⟨hlevel, hrecalls⟩ := recalls_run calls
  unfold lookupLocal
  cases hscopes : (run calls).scopes with
  | nil =>
      rw [hscopes] at hlevel
      simp only [reduceCtorEq, false_iff]
      exact fun hfirst => absurd hfirst.pos hlevel.ge.not_gt
  | cons scope outer =>
      rw [hscopes] at hlevel hrecalls
      rw [← hlevel]
      exact hrecalls.1 name symbol

theorem lookup_run_iff (calls : List Call) (name : String) (symbol : Symbol) :
    (run calls).lookup name = some symbol ↔ IsInnermost calls name symbol := by
  obtain ⟨hlevel, hrecalls⟩ := recalls_run calls
  rw [lookup, hrecalls.findSome?_iff, hlevel]
  constructor
  · rintro ⟨depth, -, hfirst, hinner⟩
    refine ⟨depth, hfirst, fun inner hdeeper => ?_⟩
    rcases Nat.lt_or_ge (level calls) inner with habove | hle
    · exact lacks_of_level_lt habove name
    · exact hinner inner hdeeper hle
  · rintro ⟨depth, hfirst, hinner⟩
    exact ⟨depth, hfirst.le_level, hfirst, fun inner hdeeper _ => hinner inner hdeeper⟩

theorem reflects_run (calls : List Call) : Reflects (run calls) calls where
  depth_eq := (recalls_run calls).1
  depth_counts := by
    have := depth_add_left_run calls
    omega
  leave_faults := by
    rw [leave_fault_iff, ← List.length_eq_zero_iff, (recalls_run calls).1]
  insert_faults symbol := by
    rw [insert_fault_iff, ← List.length_eq_zero_iff, (recalls_run calls).1]
  insert_refused symbol next := by
    rw [insert_refused_iff, Option.isSome_iff_exists, lacks_iff, not_forall_not]
    simp only [lookupLocal_run_iff]
  lookup_iff := lookup_run_iff calls
  lookupLocal_iff := lookupLocal_run_iff calls

/-! ## Interludes -/

/-- A stretch of calls behind others that never goes below the level at which it starts, ends there,
and inserts nothing there: any insertion at that level is refused or at fault. -/
structure Interlude (before stretch : List Call) : Prop where
  never_below : ∀ n, level before ≤ level (before ++ stretch.take n)
  balanced : level (before ++ stretch) = level before
  inserts_nothing : ∀ n symbol, stretch[n]? = some (.insert symbol) →
    level (before ++ stretch.take n) = level before →
      ∀ next, (run (before ++ stretch.take n)).insert symbol ≠ .ok (true, next)

/-- A call leaves the scopes below others alone. Where there are none above them, this is up to the
call. -/
theorem exists_stack_append (call : Call) (inner base : List Scope)
    (hleave : inner = [] → call = .leave → base = [])
    (hinsert : inner = [] → ∀ symbol, call = .insert symbol → call.stack base = base) :
    ∃ inner', call.stack (inner ++ base) = inner' ++ base := by
  cases call with
  | enter => exact ⟨[] :: inner, rfl⟩
  | lookup | lookupLocal => exact ⟨inner, rfl⟩
  | leave =>
      cases inner with
      | nil => exact ⟨[], by rw [hleave rfl rfl]; rfl⟩
      | cons scope inner => exact ⟨inner, rfl⟩
  | insert symbol =>
      cases inner with
      | nil => exact ⟨[], hinsert rfl symbol rfl⟩
      | cons scope inner => exact ⟨_ :: inner, rfl⟩

namespace Interlude

variable {before stretch : List Call}

/-- All along an interlude, the scopes from before it lie below those of its own. -/
theorem exists_inner (hinterlude : Interlude before stretch) (n : Nat) :
    ∃ inner, (run (before ++ stretch.take n)).scopes = inner ++ (run before).scopes := by
  induction n with
  | zero => exact ⟨[], by simp⟩
  | succ n ih =>
      obtain ⟨inner, hinner⟩ := ih
      have hbelow := hinterlude.never_below (n + 1)
      rw [List.take_add_one] at hbelow ⊢
      cases hcall : stretch[n]? with
      | none => exact ⟨inner, by simpa using hinner⟩
      | some call =>
          rw [hcall, Option.toList_some, ← List.append_assoc, level_concat,
            ← (recalls_run _).1, ← (recalls_run _).1, hinner] at hbelow
          rw [Option.toList_some, ← List.append_assoc, run_concat, scopes_after, hinner]
          refine exists_stack_append call inner _ ?_ ?_
          · -- Nothing is left to close, or the interlude would go below its start.
            rintro rfl rfl
            rw [List.nil_append, Call.level] at hbelow
            exact List.length_eq_zero_iff.1 (by omega)
          · rintro rfl symbol rfl
            rw [List.nil_append] at hinner
            have hlevel : level (before ++ stretch.take n) = level before := by
              rw [← (recalls_run _).1, ← (recalls_run _).1, hinner]
            rw [← hinner]
            exact stack_of_not_inserted (hinterlude.inserts_nothing n symbol hcall hlevel)

/-- After an interlude, the scopes are those from before it. -/
theorem scopes_run (hinterlude : Interlude before stretch) :
    (run (before ++ stretch)).scopes = (run before).scopes := by
  obtain ⟨inner, hinner⟩ := hinterlude.exists_inner stretch.length
  rw [List.take_length] at hinner
  have hlength := congrArg List.length hinner
  rw [List.length_append, (recalls_run _).1, (recalls_run _).1, hinterlude.balanced] at hlength
  have hempty : inner = [] := List.length_eq_zero_iff.1 (by omega)
  rw [hinner, hempty, List.nil_append]

end Interlude

/-- A chain of scopes is a stack of maps from names to symbols. After every history of calls it
answers as the history tells: as many scopes are open as were entered and not left; a scope cannot
be left, nor a symbol inserted, exactly if no scope is open; an insertion is refused exactly if the
innermost scope has the name, and then changes nothing; a name stands for the first symbol that was
inserted under it into the innermost open scope that has one, or into the innermost scope alone. And
an interlude makes no difference to what is looked up at any later time. -/
theorem run_remembers (calls : List Call) :
    Reflects (run calls) calls ∧
    ∀ stretch later, Interlude calls stretch → ∀ name,
      (run (calls ++ stretch ++ later)).lookup name = (run (calls ++ later)).lookup name ∧
      (run (calls ++ stretch ++ later)).lookupLocal name =
        (run (calls ++ later)).lookupLocal name := by
  refine ⟨reflects_run calls, fun stretch later hinterlude name => ?_⟩
  have hscopes : (run (calls ++ stretch ++ later)).scopes = (run (calls ++ later)).scopes := by
    rw [scopes_run_append, hinterlude.scopes_run, scopes_run_append]
  unfold lookup lookupLocal
  rw [hscopes]
  exact ⟨rfl, rfl⟩

/-- A symbol that is shadowed for a while. -/
def shadowed : Symbol := ⟨0, "x", .var, .int, none⟩

/-- The symbol that shadows it. -/
def shadowing : Symbol := ⟨1, "x", .var, .bool, none⟩

/-- The outer symbol is declared. -/
def opening : List Call := [.enter, .insert shadowed]

/-- The other symbol is refused in the outer scope, and is declared in an inner one. -/
def shadow : List Call := [.insert shadowing, .enter, .insert shadowing, .leave]

theorem interlude_shadow : Interlude opening shadow where
  never_below := by
    rintro (_ | _ | _ | _ | n)
    case succ.succ.succ.succ => rw [List.take_of_length_le (Nat.le_add_left 4 n)]; decide
    all_goals decide
  balanced := rfl
  inserts_nothing := by
    rintro (_ | _ | _ | _ | n) symbol hcall hlevel next hinsert
    · cases hcall
      cases hinsert
    · cases hcall
    · cases hlevel
    · cases hcall
    · cases hcall

theorem run_remembers_shadowing :
    (Interlude opening shadow ∧ (run (opening ++ shadow ++ [.enter])).lookup "x" = some shadowed) ∧
    IsInnermost (opening ++ shadow.take 3) "x" shadowing ∧
    ∃ next, (run opening).insert shadowing = .ok (false, next) ∧ next = run opening := by
  have hinterlude := interlude_shadow
  have hlater := ((run_remembers opening).2 shadow [.enter] hinterlude "x").1
  have hinner := (run_remembers (opening ++ shadow.take 3)).1.lookup_iff "x" shadowing
  have hrefused := (run_remembers opening).1.insert_refused shadowing
  refine ⟨⟨hinterlude, hlater.trans rfl⟩, hinner.1 rfl, run opening, rfl, ?_⟩
  exact ((hrefused (run opening)).1 rfl).2

end Shanty.ScopeChain
