import Scenograph.Catalog
import Scenograph.Color
import Scenograph.Fault
import Scenograph.Geometry
import Scenograph.Text.Identifier
import Scenograph.Update

namespace Scenograph

inductive PropertyValue where
  | scalar (value : Float)
  | vector2 (value : Vector2 Float)
  | vector3 (value : Vector3 Float)
  | vector4 (value : Vector4 Float)
  | color (value : Color)
  | boolean (value : Bool)
  deriving DecidableEq, Repr

def PropertyValue.kind : PropertyValue → ValueKind
  | .scalar _ => .scalar
  | .vector2 _ => .vector2
  | .vector3 _ => .vector3
  | .vector4 _ => .vector4
  | .color _ => .color
  | .boolean _ => .boolean

structure Binding where
  name : String
  displayName : String
  stored : ValueKind
  exposed : ValueKind
  default : PropertyValue
  deriving DecidableEq, Repr

namespace Binding

def flaw? (b : Binding) : Option Flaw :=
  if !isIdentifier b.name then some .bindingNotIdentifier
  else if !b.stored.canStore b.exposed then some (.notStorable b.exposed b.stored)
  else if b.default.kind ≠ b.exposed then some (.wrongDefault b.default.kind b.exposed)
  else none

def validate (b : Binding) : Except Fault Unit :=
  match b.flaw? with
  | some flaw => .error (.structural (.binding b.name) flaw)
  | none => .ok ()

def checked (b : Binding) : Except Fault Binding := do
  b.validate
  return b

def scalar (name : String) (value : Float) : Except Fault Binding :=
  checked ⟨name, name, .scalar, .scalar, .scalar value⟩

def color (name : String) (value : Color) : Except Fault Binding :=
  checked ⟨name, name, .vector4, .color, .color value⟩

end Binding

abbrev Bindings := Catalog Binding

namespace Bindings

def add (b : Binding) : Update Fault Bindings Unit := do
  MonadExcept.ofExcept b.validate
  if (← get).contains b.name then
    throw (.structural (.binding b.name) .duplicateBinding)
  modify fun set => set.insert b.name b

def addAll (set : Bindings) : List Binding → Except Fault Bindings
  | [] => .ok set
  | b :: rest => do addAll (← (add b).attempt set) rest

def ofList (bindings : List Binding) : Except Fault Bindings :=
  addAll Catalog.empty bindings

end Bindings

end Scenograph
