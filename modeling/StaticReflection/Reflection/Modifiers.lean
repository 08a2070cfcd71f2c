import StaticReflection.Tree.Node

namespace StaticReflection

/-! Modifiers of declared members, with the numbers under which they are reported. -/

inductive Visibility where
  | visiblePublic
  | visibleProtected
  | visiblePrivate
  deriving DecidableEq, Repr

/-- The visibility that the written words give; public where there is none, and the
narrowest where there are several. -/
def Visibility.ofWritten (written : WrittenModifiers) : Visibility :=
  if written.isPrivate then .visiblePrivate
  else if written.isProtected then .visibleProtected
  else .visiblePublic

def Visibility.bits : Visibility → Nat
  | .visiblePublic => 1
  | .visibleProtected => 2
  | .visiblePrivate => 4

def Visibility.keyword : Visibility → String
  | .visiblePublic => "public"
  | .visibleProtected => "protected"
  | .visiblePrivate => "private"

structure MethodModifiers where
  visibility : Visibility
  isStatic : Bool
  isFinal : Bool
  isAbstract : Bool
  deriving DecidableEq, Repr

/-- The modifiers of a method, which may be abstract without saying so. -/
def MethodModifiers.ofWritten (written : WrittenModifiers) (forceAbstract : Bool) :
    MethodModifiers where
  visibility := .ofWritten written
  isStatic := written.isStatic
  isFinal := written.isFinal
  isAbstract := forceAbstract || written.isAbstract

def MethodModifiers.bits (m : MethodModifiers) : Nat :=
  m.visibility.bits + 16 * m.isStatic.toNat + 32 * m.isFinal.toNat + 64 * m.isAbstract.toNat

structure PropertyModifiers where
  visibility : Visibility
  isStatic : Bool
  isReadonly : Bool
  deriving DecidableEq, Repr

/-- The modifiers of a property. In a read-only class every property is read-only,
but a static property never is. -/
def PropertyModifiers.ofWritten (written : WrittenModifiers) (readonlyClass : Bool) :
    PropertyModifiers where
  visibility := .ofWritten written
  isStatic := written.isStatic
  isReadonly := !written.isStatic && (readonlyClass || written.isReadonly)

def PropertyModifiers.bits (m : PropertyModifiers) : Nat :=
  m.visibility.bits + 16 * m.isStatic.toNat + 128 * m.isReadonly.toNat

structure ConstantModifiers where
  visibility : Visibility
  isFinal : Bool
  deriving DecidableEq, Repr

def ConstantModifiers.ofWritten (written : WrittenModifiers) : ConstantModifiers where
  visibility := .ofWritten written
  isFinal := written.isFinal

def ConstantModifiers.bits (m : ConstantModifiers) : Nat :=
  m.visibility.bits + 32 * m.isFinal.toNat

structure ClassModifiers where
  /-- An interface or trait, or a class that leaves methods abstract. -/
  implicitAbstract : Bool
  explicitAbstract : Bool
  isFinal : Bool
  isReadonly : Bool
  deriving DecidableEq, Repr

def ClassModifiers.bits (m : ClassModifiers) : Nat :=
  16 * m.implicitAbstract.toNat + 32 * m.isFinal.toNat + 64 * m.explicitAbstract.toNat
    + 65536 * m.isReadonly.toNat

/-- Whether modifiers pass a filter: they share a bit with it, or there is none. -/
def passesFilter (filter : Option Nat) (bits : Nat) : Bool :=
  match filter with
  | some mask => mask &&& bits != 0
  | none => true

end StaticReflection
