import CryptoSuite.Registry.Event
import CryptoSuite.Registry.Registration

/-! The registry: records in order of registration, at most one for an interface and an
identifier, and what has been reported about them. -/
namespace CryptoSuite

structure Registry where
  records : List Registration
  /-- What has been reported so far, oldest first. -/
  log : List Event

/-- A step that resolves identifiers and may fail to. -/
abbrev Resolution := ExceptT CryptoError (StateM Registry)

namespace Registry

def empty : Registry := ⟨[], []⟩

def report (t : Registry) (e : Event) : Registry := { t with log := t.log ++ [e] }

def find? (t : Registry) (i : Interface) (id : UInt32) : Option Registration :=
  t.records.find? fun r => r.serves i id

/-- Adds a record unless its place is taken; the first record keeps a place, and only another
one than itself is a conflict. -/
def register (t : Registry) (r : Registration) : Registry :=
  match t.find? r.interface r.implementation with
  | none =>
      { t with records := t.records ++ [r] }.report (.registered r.interface r.implementation)
  | some holder =>
      if holder = r then t else t.report (.conflict r.interface r.implementation)

def registerAll (t : Registry) (rs : List Registration) : Registry := rs.foldl register t

def lookup (t : Registry) (i : Interface) (id : UInt32) : Option Registration × Registry :=
  let found := t.find? i id
  (found, t.report (.lookedUp i id found.isSome))

/-- The first record that claims every feature of a mask. -/
def lookupByFeatures (t : Registry) (i : Interface) (mask : UInt32) : Option Registration :=
  t.records.find? fun r => r.offers i mask

def registeredImplementations (t : Registry) (i : Interface) : List UInt32 :=
  (t.records.filter fun r => r.interface == i).map Registration.implementation

/-- What the record that serves an interface under an identifier brings. -/
def require (i : Interface) (id : UInt32) : Resolution Factory := do
  match (← modifyGet fun t => t.lookup i id) with
  | some r => pure r.factory
  | none => throw (.notRegistered i id)

/-- The part of what a record brings that `pick` selects. A record serves the interface of what it
brings, so that nothing else is met. -/
def resolve {α : Type} (i : Interface) (pick : Factory → Option α) (id : UInt32) :
    Resolution α := do
  match pick (← require i id) with
  | some a => pure a
  | none => throw (.notRegistered i id)

def resolveHash : UInt32 → Resolution Hash.Provider :=
  resolve .hash fun | .hash p => some p | _ => none

def resolveMac : UInt32 → Resolution Mac.Provider :=
  resolve .mac fun | .mac p => some p | _ => none

def resolveBlockCipher : UInt32 → Resolution BlockCipher.Provider :=
  resolve .blockCipher fun | .blockCipher p => some p | _ => none

def resolveStreamCipher : UInt32 → Resolution StreamCipher.Provider :=
  resolve .streamCipher fun | .streamCipher p => some p | _ => none

def resolveSignature : UInt32 → Resolution Signature.Provider :=
  resolve .digitalSignature fun | .digitalSignature p => some p | _ => none

def resolveKeyAgreement : UInt32 → Resolution KeyAgreement.Provider :=
  resolve .keyAgreement fun | .keyAgreement p => some p | _ => none

def resolveRandom : UInt32 → Resolution Random.Provider :=
  resolve .prng fun | .prng p => some p | _ => none

/-- The derivation is resolved before the keyed algorithm that it is to work with. -/
def resolveKeyDerivation (id macId : UInt32) :
    Resolution (KeyDerivation.Provider × Mac.Provider) := do
  let derivation ← resolve .keyDerivation (fun | .keyDerivation p => some p | _ => none) id
  let prf ← resolveMac macId
  pure (derivation, prf)

end Registry

end CryptoSuite
