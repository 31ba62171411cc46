import Arbor.Error

/-!
# Notices

What engines report while they work, each report with its level and its words.
-/
set_option autoImplicit false

namespace Arbor

inductive Level where
  | debug
  | info
  | warn
  | error
deriving DecidableEq, Repr

def Level.name : Level → String
  | .debug => "DEBUG"
  | .info => "INFO"
  | .warn => "WARN"
  | .error => "ERROR"

inductive EngineKind where
  | tree
  | plant
deriving DecidableEq, Repr

def EngineKind.name : EngineKind → String
  | .tree => "tree"
  | .plant => "plant"

inductive Notice where
  | noGrowth (growthFactor : Float32)
  | strayClose (index : Nat)
  | halted (kind : EngineKind) (generation : Nat) (cause : Fault)
  | treeAdvanced (generation symbols segments discovered branches : Nat)
  | plantRedrawn (generation symbols lines : Nat)
  /-- An engine reached its last generation and has `count` branches or lines. -/
  | fullyGrown (kind : EngineKind) (count : Nat)
deriving DecidableEq, Repr

namespace Notice

def level : Notice → Level
  | noGrowth _ => .warn
  | strayClose _ => .warn
  | halted .. => .error
  | treeAdvanced .. => .debug
  | plantRedrawn .. => .debug
  | fullyGrown .. => .info

def message : Notice → String
  | noGrowth _ => "growth factor does not enlarge branches"
  | strayClose _ => "ignoring unbalanced branch close"
  | halted kind _ _ => kind.name ++ " halted"
  | treeAdvanced .. => "tree advanced"
  | plantRedrawn .. => "plant redrawn"
  | fullyGrown kind _ => kind.name ++ " fully grown"

end Notice

end Arbor
