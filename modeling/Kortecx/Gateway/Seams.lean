import Kortecx.Mote.Definition

/-!
What passes between the parts of the gateway that prepare a run and the ones that submit
it: the bound run, and the ways in which binding one can fail.
-/

namespace Kortecx.Gateway

open Lib Mote Warrant

/-- A run ready to be submitted, each Mote with the warrant it is to run under. -/
structure BoundRecipe where
  recipeFingerprint : ByteVec 32
  motes : List (Kortecx.Mote.Mote × WarrantSpec)
  reactSeed : Bool

inductive BinderError where
  | notAuthorized
  | invalidArgs (detail : String)
  | internal (detail : String)
deriving DecidableEq, Repr

inductive AppRunError where
  | notAuthorized
  | invalidArgs (detail : String)
  | missingIntegration (name : String)
  | uncomposableApp (handle reason : String)
  | unservedModelRoute (route : String)
  | internal (detail : String)
deriving DecidableEq, Repr

/-- The seam behind `RunApp` and `RunWorkflow`: party, handle, arguments, and whether
irreversible actions wait for an approval. -/
abbrev AppAuthor := String → String → List UInt8 → Bool → Except AppRunError BoundRecipe

end Kortecx.Gateway
