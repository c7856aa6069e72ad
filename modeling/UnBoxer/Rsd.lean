import UnBoxer.Threads

namespace UnBoxer.Rsd

open UnBoxer.Threads

variable {P : Type}

/-- A connection, known by the call that has created it (`none` for one that was
there before all calls), and the pairing file it was created with. -/
structure CachedRsdConnection (P : Type) where
  creator : Option Nat
  pairing : P
  deriving DecidableEq

/-- The two set-once globals, and the call that holds the mutex of the second. -/
structure Globals (P : Type) where
  pairingFile : Option P
  connection : Option (CachedRsdConnection P)
  owner : Option Nat

inductive Procedure where
  | connectToRsdServices
  | getOrCreate
  deriving DecidableEq

/-- Where a call stands. It waits for the mutex in `waiting`, `replacing` and
`entering`; it holds it in `probing`, `serving` and `holding`, the last of which
is the guard that `get_or_create` hands to its caller. -/
inductive Place (P : Type) where
  | called
  | waiting
  | probing (c : CachedRsdConnection P)
  | creating
  | connecting (p : P)
  | created (c : CachedRsdConnection P)
  | replacing (c : CachedRsdConnection P)
  | setting (c : CachedRsdConnection P)
  | entering
  | serving (c : CachedRsdConnection P)
  | holding (c : CachedRsdConnection P)
  | returned

/-- What is worth noting of a step: that a call has found the cache empty or its
connection failing, that it could not connect, what it did to the cache, and that
it returns a service opened on a connection. -/
inductive Event (P : Type) where
  | missed (i : Nat) (c : Option (CachedRsdConnection P))
  | uncreated (i : Nat)
  | installed (i : Nat) (c : CachedRsdConnection P)
  | replaced (i : Nat) (old c : CachedRsdConnection P)
  | served (i : Nat) (c : CachedRsdConnection P)
  | silent (i : Nat)
  | configured (p : P)
  deriving DecidableEq

/-- `OnceLock::set`, whose failure is not reported. -/
def setOnce (g : Globals P) (p : P) : Globals P :=
  { g with pairingFile := some (g.pairingFile.getD p) }

/-- With the mutex on its connection, one procedure opens a service and the other
returns the guard. -/
def entered : Procedure → CachedRsdConnection P → Place P
  | .connectToRsdServices, c => .serving c
  | .getOrCreate, c => .holding c

/-- A step of the call `i` of a procedure, from one lock or await point to the next. -/
inductive CallStep (proc : Nat → Procedure) (i : Nat) :
    Globals P → Place P → Event P → Globals P → Place P → Prop
  | getNone {g : Globals P} : g.connection = none →
      CallStep proc i g .called (.missed i none) g .creating
  | getSome {g : Globals P} {c : CachedRsdConnection P} : g.connection = some c →
      CallStep proc i g .called (.silent i) g .waiting
  | lock {g : Globals P} {c : CachedRsdConnection P} : g.owner = none → g.connection = some c →
      CallStep proc i g .waiting (.silent i) { g with owner := some i } (.probing c)
  | reuse {g : Globals P} {c : CachedRsdConnection P} : proc i = .connectToRsdServices →
      CallStep proc i g (.probing c) (.served i c) { g with owner := none } .returned
  | refused {g : Globals P} {c : CachedRsdConnection P} : proc i = .connectToRsdServices →
      CallStep proc i g (.probing c) (.silent i) { g with owner := none } .returned
  | alive {g : Globals P} {c : CachedRsdConnection P} : proc i = .getOrCreate →
      CallStep proc i g (.probing c) (.silent i) g (.holding c)
  | broken {g : Globals P} {c : CachedRsdConnection P} :
      CallStep proc i g (.probing c) (.missed i (some c)) { g with owner := none } .creating
  | noPairing {g : Globals P} : g.pairingFile = none →
      CallStep proc i g .creating (.uncreated i) g .returned
  | pairing {g : Globals P} {p : P} : g.pairingFile = some p →
      CallStep proc i g .creating (.silent i) g (.connecting p)
  | unreachable {g : Globals P} {p : P} :
      CallStep proc i g (.connecting p) (.uncreated i) g .returned
  | connect {g : Globals P} {p : P} :
      CallStep proc i g (.connecting p) (.silent i) g (.created ⟨some i, p⟩)
  | getOld {g : Globals P} {c old : CachedRsdConnection P} : g.connection = some old →
      CallStep proc i g (.created c) (.silent i) g (.replacing c)
  | getEmpty {g : Globals P} {c : CachedRsdConnection P} : g.connection = none →
      CallStep proc i g (.created c) (.silent i) g (.setting c)
  | replace {g : Globals P} {c old : CachedRsdConnection P} : g.owner = none →
      g.connection = some old → CallStep proc i g (.replacing c) (.replaced i old c)
        { g with owner := some i, connection := some c } (entered (proc i) c)
  | set {g : Globals P} {c : CachedRsdConnection P} : g.connection = none →
      CallStep proc i g (.setting c) (.installed i c) { g with connection := some c } .entering
  | setLate {g : Globals P} {c old : CachedRsdConnection P} : g.connection = some old →
      CallStep proc i g (.setting c) (.silent i) g .entering
  | enter {g : Globals P} {c : CachedRsdConnection P} : g.owner = none → g.connection = some c →
      CallStep proc i g .entering (.silent i) { g with owner := some i } (entered (proc i) c)
  | serve {g : Globals P} {c : CachedRsdConnection P} :
      CallStep proc i g (.serving c) (.served i c) { g with owner := none } .returned
  | unserved {g : Globals P} {c : CachedRsdConnection P} :
      CallStep proc i g (.serving c) (.silent i) { g with owner := none } .returned
  | dropGuard {g : Globals P} {c : CachedRsdConnection P} :
      CallStep proc i g (.holding c) (.silent i) { g with owner := none } .returned

inductive Configure : Globals P → Event P → Globals P → Prop
  | set {g : Globals P} {p : P} : Configure g (.configured p) (setOnce g p)

abbrev State (P : Type) := Pool Nat (Globals P) (Place P)

abbrev Step (proc : Nat → Procedure) : State P → Event P → State P → Prop :=
  Threads.Step (CallStep proc) Configure

end UnBoxer.Rsd
