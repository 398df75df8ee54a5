/-
Resolving a list of specifiers. What is needed is asked for once, and only if
it is needed: the compat range for the alias `min`, the manifest for the alias
`manifest`, then the catalogue; after that the specifiers follow in order.
-/
import VersionPick.Resolve
import VersionPick.Specifier.Input

namespace VersionPick

/-- Where the answers come from that a list of specifiers may need. -/
structure Sources (m : Type → Type) where
  /-- The range of the versions the project is compatible with. -/
  compat : ExceptT Failure m Range
  /-- The version of Julia in the project's manifest. -/
  pin : ExceptT Failure m (Option String)
  available : ExceptT Failure m (List String)
  /-- Whether there is a nightly build of a release branch. -/
  hasNightly : String → ExceptT Failure m Bool

/-- What becomes of a specifier once it is known what it picks. -/
def Policy.settle (policy : Policy) (s : Specifier) : Option String → Except Failure (Option String)
  | some version => .ok (some version)
  | none =>
    match policy with
    | .warn => .ok none
    | .error => .error (.noMatch s.text)

namespace Sources

variable {m : Type → Type} [Monad m] (sources : Sources m)

/-- The version that a specifier picks. A nightly build without release branch
is always there. -/
def pick (known : Known) : Specifier → ExceptT Failure m (Option String)
  | .nightly none => return some (Specifier.nightly none).text
  | .nightly (some branch) => do
    let found ← sources.hasNightly branch
    return if found then some (Specifier.nightly (some branch)).text else none
  | s => known.resolve s

/-- The versions of specifiers, up to the first that cannot be resolved. -/
def pickEach (known : Known) (policy : Policy) :
    List Specifier → ExceptT Failure m (List (Option String))
  | [] => return []
  | s :: specifiers => do
    let version ← policy.settle s (← sources.pick known s)
    let versions ← pickEach known policy specifiers
    return version :: versions

/-- What the specifiers are resolved against. -/
def learn (lts : Range) (specifiers : List Specifier) : ExceptT Failure m Known := do
  let compat ← if specifiers.contains (.alias .min) then some <$> sources.compat else pure none
  let pin ← if specifiers.contains (.alias .manifest) then sources.pin else pure none
  let available ← sources.available
  return ⟨lts, available, compat, pin⟩

def resolve (lts : Range) (policy : Policy) (specifiers : List Specifier) :
    ExceptT Failure m (List (Option String)) := do
  let known ← sources.learn lts specifiers
  sources.pickEach known policy specifiers

end Sources

end VersionPick
