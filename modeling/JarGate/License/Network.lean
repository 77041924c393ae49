import JarGate.License.Authority
import JarGate.License.Client

/-!
# A network in memory

Surroundings in which clients share an authority and a clock. A client can also be sent through a
route whose answers are written down beforehand, or one that leads nowhere.
-/

namespace JarGate

/-- Where requests go. -/
inductive Route where
  /-- To the authority. -/
  | authority
  /-- To a list whose `n`-th entry answers the `n`-th request; the last one is repeated. -/
  | script (answers : List (Except TransportError ValidationResponse))
  /-- Nowhere. -/
  | nowhere

/-- A route with a number of its own. -/
structure Line where
  number : Nat
  route : Route

/-- An authority, a clock, and the lines to the authority and elsewhere. -/
structure Network where
  authority : Authority
  /-- The time at which the clock was started. -/
  start : Int
  /-- Milliseconds since then. -/
  elapsed : Nat
  /-- How many requests each line carried. -/
  carried : List Nat

namespace Network

/-- A network in which nothing has happened yet. -/
def new (start : Int) : Network := ⟨.empty, start, 0, []⟩

/-- The time of day. -/
def now (n : Network) : Int := n.start + n.elapsed

/-- Lets time pass. -/
def wait (n : Network) (milliseconds : Nat) : Network :=
  { n with elapsed := n.elapsed + milliseconds }

/-- A new line. -/
def connect (n : Network) (route : Route) : Line × Network :=
  (⟨n.carried.length, route⟩, { n with carried := n.carried ++ [0] })

/-- How many requests a line carried. -/
def requests (n : Network) (line : Line) : Nat :=
  n.carried.getD line.number 0

/-- What comes of a request that leads nowhere. -/
def lost : Except TransportError ValidationResponse :=
  LicenseServer.outcome (.failed "no route")

/-- What a script answers to the request of a number, counted from zero. -/
def scripted (answers : List (Except TransportError ValidationResponse)) (number : Nat) :
    Except TransportError ValidationResponse :=
  (answers[min number (answers.length - 1)]?).getD lost

/-- Carries a request. -/
def send (line : Line) (r : ValidationRequest) (n : Network) :
    Except TransportError ValidationResponse × Network :=
  let carried := { n with carried := n.carried.modify line.number (· + 1) }
  match line.route with
  | .authority =>
    let (response, a) := n.authority.validate r n.now
    (.ok response, { carried with authority := a })
  | .script answers => (scripted answers (n.requests line), carried)
  | .nowhere => (lost, carried)

/-- The network as the surroundings of its clients. -/
def surroundings : Surroundings Line Network where
  wallClock := now
  steadyClock n := .ofMilliseconds n.elapsed
  send := send

end Network

end JarGate
