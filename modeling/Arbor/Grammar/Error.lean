/-!
# What can be wrong with a grammar

`GrammarError` says why a rule or an axiom was refused, or why a generation could not be derived.
`GrammarError.message` gives each cause its words.
-/
set_option autoImplicit false

namespace Arbor

inductive EvaluationError where
  | notANumber
  | stackOverflow
deriving DecidableEq, Repr

def EvaluationError.message : EvaluationError → String
  | .notANumber => "Mathematical error (NaN/Inf)"
  | .stackOverflow => "Stack overflow"

inductive BindingSite where
  | predecessor
  | leftContext
  | rightContext
deriving DecidableEq, Repr

def BindingSite.name : BindingSite → String
  | .predecessor => "predecessor"
  | .leftContext => "left context"
  | .rightContext => "right context"

inductive CompileError where
  /-- The name of a module's age is bound as a parameter. -/
  | reservedName (site : BindingSite)
  | repeatedName (site : BindingSite) (name : String)
  | unknownName (name : String)
  | unknownFunction (name : String)
  | argumentCount (function : String) (arity : Nat)
deriving DecidableEq, Repr

def CompileError.message : CompileError → String
  | .reservedName site =>
    "Parameter name `age` is reserved (predecessor age). Cannot bind in " ++ site.name ++ "."
  | .repeatedName .predecessor name => "Shadowing: " ++ name
  | .repeatedName site name =>
    "Shadowing or ambiguous parameter in " ++ site.name ++ ": " ++ name
  | .unknownName name => "Unknown parameter or constant: " ++ name
  | .unknownFunction name => "Unknown function: " ++ name
  | .argumentCount function arity =>
    function ++ " takes " ++ toString arity ++ (if arity = 1 then " argument" else " arguments")

inductive BracketError where
  | unmatched (index : Nat)
  | tooDeep
deriving DecidableEq, Repr

def BracketError.message : BracketError → String
  | .unmatched index => "Unmatched bracket at index " ++ toString index
  | .tooDeep => "Max nesting depth exceeded"

inductive GrammarError where
  | unreadable (text : String)
  | predecessorParameter
  | meaningless (cause : CompileError)
  | condition (cause : EvaluationError)
  | parameter (cause : EvaluationError)
  | brackets (cause : BracketError)
deriving DecidableEq, Repr

def GrammarError.message : GrammarError → String
  | .unreadable _ => "Parse error"
  | .predecessorParameter => "Invalid predecessor parameter"
  | .meaningless cause => "Compilation error: " ++ cause.message
  | .condition cause => "Compilation error: " ++ cause.message
  | .parameter cause => "VM error: " ++ cause.message
  | .brackets cause => "State error: " ++ cause.message

end Arbor
