import Lockbox.Session.World

namespace Lockbox

/-!
# Where passwords come from

The agent is asked first.  Whatever goes wrong there, the user is asked instead, and what is typed
is not given to the agent.

* `Action.password` — the password of the container at a location.
* `Action.newPassword` — a password that is typed twice.
-/

/-- The question for a password. -/
def Question.password : String := "Please enter password: "

/-- The question for a new password. -/
def Question.newPassword : String := "Please enter new password: "

/-- The question for a new password once more. -/
def Question.again : String := "Please reenter password: "

namespace Action

variable {σ : Type}

/-- The password that the agent has for a location, if it has one that is not empty. -/
def remembered (agent : PasswordStore σ) (location : String) : Action σ (Option String) := do
  match Location.fingerprint (← files).workingDirectory location with
  | .error _ => return none
  | .ok name =>
    match ← askAgent (agent.get name) with
    | .ok password => return if password = "" then none else some password
    | .error _ => return none

/-- The password of the container at a location. -/
def password (agent : PasswordStore σ) (location : String) : Action σ String := do
  match ← remembered agent location with
  | some password => return password
  | none => ask Question.password

/-- A new password, typed twice. -/
def newPassword : Action σ String := do
  let first ← ask Question.newPassword
  let second ← ask Question.again
  if first = second then return first else fail .passwordsDiffer

end Action

end Lockbox
