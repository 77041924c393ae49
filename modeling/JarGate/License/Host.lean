import JarGate.Digest.Sha256
import JarGate.Text.Hex
import JarGate.Text.Utf8

/-!
# Hosts

The facts about a machine that a license can be bound to.
-/

namespace JarGate

/-- Facts about a machine and its user. -/
structure HostFacts where
  /-- Addresses of network cards, as upper-case hexadecimal digits. -/
  cards : List String
  system : String
  architecture : String
  user : String
  deriving DecidableEq, Repr

/-- The facts one after another, with nothing between them. -/
def HostFacts.text (h : HostFacts) : String :=
  String.join h.cards ++ h.system ++ h.architecture ++ h.user

/-- The digest of the facts, in lower-case hexadecimal. -/
def HostFacts.hardwareId (h : HostFacts) : String :=
  Text.Hex.ofBytes (Sha256.ofBytes (Text.Utf8.encode h.text))

/-- How a client names the machine it runs on. -/
structure Identity where
  hwid : String
  ip : String
  deriving DecidableEq, Repr

end JarGate
