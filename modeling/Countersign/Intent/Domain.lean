import Countersign.Intent.Calldata
import Countersign.Intent.Digest

/-! The domain that a digest is bound to: a chain, a contract on it, and a version of the contract.
It stands in front of the arguments where they are hashed. -/

namespace Countersign

structure Domain where
  chain : Amount
  contract : Address
  version : UInt32 := 1
  selector : Selector := Selector.execute
  /-- Whether the selector is hashed as well. -/
  bindsSelector : Bool := true
  deriving DecidableEq

namespace Domain

def encode (d : Domain) : Bytes :=
  (if d.bindsSelector then d.selector.bytes ++ zeros 28 else []) ++
    word d.chain.toNat ++ zeros 12 ++ d.contract.bytes ++ word d.version.toNat

end Domain

namespace Intent

/-- What is hashed for an intent, with or without a domain. -/
def preimage (intent : Intent) (domain : Option Domain) : Bytes :=
  match domain with
  | none => intent.arguments
  | some d => d.encode ++ intent.arguments

def digest (intent : Intent) (domain : Option Domain) : Digest :=
  Digest.ofMessage (intent.preimage domain)

/-- The digest without a domain, which the contract computes itself. -/
def onChainDigest (intent : Intent) : Digest := intent.digest none

end Intent
end Countersign
