/-
# Scopes

While names are resolved, the scopes that are open form a chain. A name is looked
up from the innermost scope outwards, and declared in the innermost one, where it
must be new. The chain also counts how often a scope was opened and closed.

Closing a scope, or declaring a name, when none is open is a fault of the caller.
-/

import Shanty.Fault
import Shanty.Symbol

namespace Shanty

/-- The names declared in one scope. -/
abbrev Scope := List (String × Symbol)

/-- The open scopes, innermost first. -/
structure ScopeChain where
  scopes : List Scope := []
  entered : Nat := 0
  left : Nat := 0

namespace ScopeChain

/-- The number of open scopes. -/
def depth (chain : ScopeChain) : Nat := chain.scopes.length

/-- Opens a scope. -/
def enter (chain : ScopeChain) : ScopeChain :=
  { chain with scopes := [] :: chain.scopes, entered := chain.entered + 1 }

/-- Closes the innermost scope. -/
def leave (chain : ScopeChain) : Except Fault ScopeChain :=
  match chain.scopes with
  | [] => .error (.internal "Attempt to pop empty symbol table")
  | _ :: outer => .ok { chain with scopes := outer, left := chain.left + 1 }

/-- Declares a symbol in the innermost scope. Answers whether its name was new
there; if not, nothing changes. -/
def insert (chain : ScopeChain) (symbol : Symbol) : Except Fault (Bool × ScopeChain) :=
  match chain.scopes with
  | [] => .error (.internal s!"attempt to insert `{symbol.name}` with no active scope")
  | scope :: outer =>
    if (scope.lookup symbol.name).isSome then .ok (false, chain)
    else .ok (true, { chain with scopes := ((symbol.name, symbol) :: scope) :: outer })

/-- The symbol that a name stands for: the one of the innermost scope that has the
name. -/
def lookup (chain : ScopeChain) (name : String) : Option Symbol :=
  chain.scopes.findSome? (·.lookup name)

/-- The symbol that a name stands for in the innermost scope alone. -/
def lookupLocal (chain : ScopeChain) (name : String) : Option Symbol :=
  match chain.scopes with
  | [] => none
  | scope :: _ => scope.lookup name

end ScopeChain

end Shanty
