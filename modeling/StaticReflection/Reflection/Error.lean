import StaticReflection.Source.Cache
import StaticReflection.Value.Basic

namespace StaticReflection

/-! Why a query has no answer. -/

/-- What is bounded in depth. -/
inductive Bound where
  | ancestors (ofClass : String)
  | expression
  | constantChain
  deriving DecidableEq, Repr

def Bound.subject : Bound → String
  | .ancestors ofClass => "ancestor chain of " ++ ofClass
  | .expression => "constant expression"
  | .constantChain => "constant chain"

/-- What may have a default value. -/
inductive Defaulted where
  | parameter (name function : String)
  | property (owner name : String)
  deriving DecidableEq, Repr

def Defaulted.subject : Defaulted → String
  | .parameter name function => "parameter $" ++ name ++ " of " ++ function
  | .property owner name => "property " ++ owner ++ "::$" ++ name

inductive ReflectionError where
  | source (cause : SourceError)
  | namespaceNotFound (path name : String)
  | classNotFound (name : String)
  | functionNotFound (name : String)
  | constantNotFound (name : String)
  /-- A class is its own ancestor. The chain starts and ends with it. -/
  | inheritanceCycle (chain : List String)
  /-- A constant depends on itself. The cycle starts and ends with it. -/
  | circularConstant (cycle : List String)
  /-- Only running code could evaluate the expression. -/
  | unresolvable (kind file : String) (line : Nat) (node : Option NodeId)
  | evaluation (fault : Fault) (file : String) (line : Nat)
  | depthLimit (bound : Bound) (limit : Nat)
  | noDefault (subject : Defaulted)
  deriving DecidableEq, Repr

/-- A place in a file, as messages name it. -/
def placeText (file : String) (line : Nat) : String :=
  " in " ++ file ++ " on line " ++ intText line

def ReflectionError.message : ReflectionError → String
  | .source cause => cause.message
  | .namespaceNotFound path name => "namespace '" ++ name ++ "' not found in " ++ path
  | .classNotFound name => "class '" ++ name ++ "' not found"
  | .functionNotFound name => "function '" ++ name ++ "' not found"
  | .constantNotFound name => "undefined constant " ++ name
  | .inheritanceCycle chain => "inheritance cycle: " ++ " -> ".intercalate chain
  | .circularConstant cycle => "circular constant reference: " ++ " -> ".intercalate cycle
  | .unresolvable kind file line _ =>
      "cannot statically evaluate " ++ kind ++ " expression" ++ placeText file line
  | .evaluation fault file line => fault.message ++ placeText file line
  | .depthLimit bound limit =>
      bound.subject ++ " exceeds the maximum depth of " ++ intText limit
  | .noDefault subject => subject.subject ++ " has no default value"

end StaticReflection
