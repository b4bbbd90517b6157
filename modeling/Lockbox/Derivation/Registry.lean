import Lockbox.Cipher.Suite
import Lockbox.Derivation.Argon2
import Lockbox.Derivation.Scrypt

namespace Lockbox

/-!
# Key derivations

A password becomes a key by one of three derivations, which go by their identifiers in an envelope.
Two identifiers from earlier versions are still understood and never written.

* `Derivation.ofId?`, `Derivation.id` — reading and writing identifiers.
* `Registry` — which strategy stands for which derivation.
* `Registry.standard` — the strategies that containers are made with.
-/

/-- A key of 32 bytes. -/
abbrev Key := Vector UInt8 keySize

/-- A way to derive a key from a password. -/
inductive Derivation
  | sha256Double
  | argon2id
  | scrypt
  deriving DecidableEq, Repr

/-- Why no key can be derived. -/
inductive DerivationError
  /-- Nothing is known under this identifier. -/
  | unknown (id : String)
  /-- The salt has fewer bytes than the derivation asks for. -/
  | saltTooShort
  deriving DecidableEq, Repr

/-- The wording of a failure. -/
def DerivationError.message : DerivationError → String
  | unknown id => s!"Key derivation function '{id}' unknown"
  | saltTooShort => "Key derivation failed: Argon2id failed: salt is too short"

namespace Derivation

/-- The derivation that is used when none is asked for. -/
def standard : Derivation := argon2id

/-- The identifier that an envelope carries. -/
def id : Derivation → String
  | sha256Double => "sha256-double"
  | argon2id => "argon2id"
  | scrypt => "scrypt"

/-- The derivation that an identifier, today's or a former one, stands for. -/
def ofId? (id : String) : Except DerivationError Derivation :=
  if id = "sha256-double" ∨ id = "sha256" then .ok sha256Double
  else if id = "argon2id" ∨ id = "argon2" then .ok argon2id
  else if id = "scrypt" then .ok scrypt
  else .error (.unknown id)

/-- An identifier reads back as its derivation. -/
@[simp] theorem ofId?_id (d : Derivation) : ofId? d.id = .ok d := by
  cases d <;> rfl

end Derivation

/-- How a key is derived from a password and a salt. -/
abbrev Strategy := (password salt : Bytes) → Except DerivationError Key

namespace Strategy

/-- The hash of the password, the salt and the password again. -/
def sha256Double : Strategy := fun password salt =>
  .ok (Sha256.digest (password ++ salt ++ password))

/-- Two passes over fifteen mebibytes.  The salt needs at least eight bytes. -/
def argon2id : Strategy := fun password salt =>
  if salt.length < 8 then .error .saltTooShort
  else .ok (Argon2.derive ⟨2, 15360⟩ password salt)

/-- A table of 2¹⁵ chunks of sixteen blocks, stirred in two lanes. -/
def scrypt : Strategy := fun password salt => .ok (Scrypt.derive ⟨32768, 8, 2⟩ password salt)

end Strategy

/-- Which strategy stands for which derivation. -/
structure Registry where
  /-- The strategy registered for a derivation, if there is one. -/
  strategy? : Derivation → Option Strategy

namespace Registry

/-- The registry without entries. -/
def empty : Registry := ⟨fun _ => none⟩

/-- The registry with a strategy added or replaced. -/
def insert (registry : Registry) (d : Derivation) (strategy : Strategy) : Registry :=
  ⟨fun e => if e = d then some strategy else registry.strategy? e⟩

/-- All three derivations with their own strategies. -/
def standard : Registry :=
  ((empty.insert .sha256Double .sha256Double).insert .argon2id .argon2id).insert .scrypt .scrypt

/-- The strategy for a derivation.  One that is missing is as unknown as a wrong identifier. -/
def resolve (registry : Registry) (d : Derivation) : Except DerivationError Strategy :=
  match registry.strategy? d with
  | some strategy => .ok strategy
  | none => .error (.unknown d.id)

end Registry

end Lockbox
