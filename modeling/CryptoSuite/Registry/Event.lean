import CryptoSuite.Interface

/-! What a registry and the building of suites report while they work. -/
namespace CryptoSuite

inductive Event
  | registered (interface : Interface) (implementation : UInt32)
  /-- Another record holds the identifier already and keeps it. -/
  | conflict (interface : Interface) (implementation : UInt32)
  | lookedUp (interface : Interface) (implementation : UInt32) (found : Bool)
  | roundsSelected (block stream : Nat)
  | suiteReady (suite block stream : String)
  deriving DecidableEq, Repr

inductive Level
  | warning
  | debug
  | trace
  deriving DecidableEq, Repr

def Level.label : Level → String
  | warning => "WARN"
  | debug => "DEBUG"
  | trace => "TRACE"

namespace Event

def level : Event → Level
  | registered _ _ => .debug
  | conflict _ _ => .warning
  | lookedUp _ _ _ => .trace
  | roundsSelected _ _ => .debug
  | suiteReady _ _ _ => .debug

def message : Event → String
  | registered _ _ => "algorithm registered"
  | conflict _ _ => "conflicting registration ignored"
  | lookedUp _ _ _ => "registry lookup"
  | roundsSelected _ _ => "non-FIPS AES round multiplier selected"
  | suiteReady _ _ _ => "crypto suite initialized"

/-- The pair that most events are about. -/
def subject (interface : Interface) (implementation : UInt32) : List (String × String) :=
  [("interface", interface.title), ("implementation", toString implementation.toNat)]

def fields : Event → List (String × String)
  | registered i id => subject i id
  | conflict i id => subject i id
  | lookedUp i id found => subject i id ++ [("found", if found then "true" else "false")]
  | roundsSelected block stream =>
      [("block_rounds", toString block), ("stream_rounds", toString stream)]
  | suiteReady suite block stream => [("suite", suite), ("block", block), ("stream", stream)]

end Event

end CryptoSuite
