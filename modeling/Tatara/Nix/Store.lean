import Mathlib.Logic.Equiv.List
import Mathlib.Tactic.DeriveEncodable
import Tatara.Nix.OverlayCompose
import Tatara.Rust.Text

/-! Derivations as they are hashed, and the store paths that they have. -/

namespace Tatara.Nix

open Tatara.Rust

instance encodableChar : Encodable Char :=
  Encodable.ofLeftInverse Char.toNat Char.ofNat Char.ofNat_toNat

instance encodableString : Encodable String :=
  Encodable.ofLeftInverse String.toList String.ofList fun _ => String.ofList_toList

/-- A content-addressed path. -/
structure StorePath where
  hash : String
  name : String
  version : Option String
  deriving DecidableEq, Encodable

/-- A reference to another derivation. -/
structure InputRef where
  name : String
  version : Option String := none
  pinned : Option StorePath := none
  deriving DecidableEq, Encodable

/-- Where a source comes from. -/
inductive Source where
  | inline (content : String)
  | path (path : String)
  | git (url rev : String) (submodules : Bool)
  | tarball (url hash : String)
  | derivation (input : InputRef)
  deriving DecidableEq, Encodable

/-- A phase of a build. -/
inductive BuilderPhase where
  | unpack
  | patch
  | configure
  | build
  | check
  | install
  | fixup
  | installCheck
  | dist
  deriving DecidableEq, Encodable

/-- `BuilderPhases`, with the commands in the order of their keys. -/
structure BuilderPhases where
  phases : List BuilderPhase := []
  commands : List (String × List String) := []
  deriving DecidableEq, Encodable

/-- `Outputs`. -/
structure Outputs where
  primary : String := "out"
  extra : List String := []
  deriving DecidableEq, Encodable

/-- `EnvVar`. -/
structure EnvVar where
  name : String
  value : String
  deriving DecidableEq, Encodable

/-- `BridgeTarget`. -/
structure BridgeTarget where
  attrPath : String
  pkgSet : Option String := none
  deriving DecidableEq, Encodable

/-- `Sandbox`. -/
structure Sandbox where
  allowNetwork : Bool := false
  extraPaths : List String := []
  impureEnv : List String := []
  deriving DecidableEq, Encodable

/-- What a derivation says besides its name. -/
structure Recipe where
  version : Option String := none
  inputs : List InputRef := []
  source : Source := .inline ""
  builder : BuilderPhases := {}
  outputs : Outputs := {}
  env : List EnvVar := []
  sandbox : Sandbox := {}
  bridge : Option BridgeTarget := none
  nixExpr : Option String := none
  deriving DecidableEq, Encodable

/-- `store_path`, with the hash of the canonical form of a derivation. -/
def Derivation.storePath (hash : Derivation Recipe → String) (d : Derivation Recipe) : StorePath :=
  ⟨hash d, d.name, d.recipe.version⟩

/-- Derivations whose hashes do not collide are told apart by their store paths. -/
theorem Derivation.storePath_inj {hash : Derivation Recipe → String}
    (collisionFree : Function.Injective hash) {d d' : Derivation Recipe} :
    d.storePath hash = d'.storePath hash ↔ d = d' :=
  ⟨fun same => collisionFree (StorePath.mk.inj same).1, congrArg _⟩

/-- A hash without collisions: the number of a derivation, in decimal. -/
def numberedHash (d : Derivation Recipe) : String :=
  String.ofList (renderNat (Encodable.encode (d.name, d.recipe)))

/-- No two derivations have one number. -/
theorem numberedHash_injective : Function.Injective numberedHash := by
  intro d d' same
  -- The decimal form is read back, and then the number.
  have digits := String.ofList_injective same
  have numbers := congrArg parseNat digits
  rw [parseNat_renderNat, parseNat_renderNat, Option.some.injEq] at numbers
  obtain ⟨names, recipes⟩ := Prod.mk.inj (Encodable.encode_injective numbers)
  cases d
  cases d'
  dsimp only at names recipes
  rw [names, recipes]

end Tatara.Nix
