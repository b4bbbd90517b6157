import Lockbox.Agent.Frame
import Std.Data.ExtTreeMap.Lemmas

namespace Lockbox

/-!
# Keeping passwords

A `PasswordStore` keeps passwords under names, in some state.  The cache of an agent is one; a
client that asks an agent over a connection is another.

* `Cache`, `PasswordStore.cache` — passwords in memory.
* `PasswordStore.dead` — a store that nobody answers for.
-/

/-- Something that keeps passwords under names. -/
structure PasswordStore (σ : Type) where
  /-- The password under a name. -/
  get : (name : String) → ExceptT AgentError (StateM σ) String
  /-- Keeps a password under a name, in place of the one that was there. -/
  set : (name password : String) → ExceptT AgentError (StateM σ) Unit
  /-- Forgets the password under a name, if there is one. -/
  reset : (name : String) → ExceptT AgentError (StateM σ) Unit

/-- Passwords in memory. -/
abbrev Cache := Std.ExtTreeMap String String

namespace PasswordStore

/-- The store of a cache. -/
def cache : PasswordStore Cache where
  get name := do
    match (← getThe Cache)[name]? with
    | some password => return password
    | none => throw (.missing name)
  set name password := modify (·.insert name password)
  reset name := modify (·.erase name)

/-- A store that nobody answers for. -/
def dead (σ : Type) : PasswordStore σ where
  get _ := throw (.transport .connectionRefused)
  set _ _ := throw (.transport .connectionRefused)
  reset _ := throw (.transport .connectionRefused)

end PasswordStore

end Lockbox
