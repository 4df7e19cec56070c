import Scenograph.Color
import Scenograph.Geometry

namespace Scenograph

inductive BuiltIn where
  | void
  | boolean
  | float
  | int32
  | int64
  | string
  | vector2
  | vector3
  | vector4
  | color
  | timeSpan
  | uri
  deriving DecidableEq, Repr

inductive TypeRef where
  | builtIn (type : BuiltIn)
  | imported (space name : String)
  | importedValue (space name : String)
  | generated (name : String)
  deriving DecidableEq, Repr

namespace TypeRef

def namespace? : TypeRef → Option String
  | .imported space _ | .importedValue space _ => some space
  | .builtIn _ | .generated _ => none

def isReference : TypeRef → Bool
  | .imported _ _ | .generated _ => true
  | .builtIn .string | .builtIn .uri => true
  | .builtIn _ | .importedValue _ _ => false

end TypeRef

inductive Literal where
  | null
  | boolean (value : Bool)
  | float (value : Float)
  | int32 (value : Int)
  | int64 (value : Int)
  | string (value : String)
  | vector2 (value : Vector2 Float)
  | vector3 (value : Vector3 Float)
  | vector4 (value : Vector4 Float)
  | color (value : Color)
  | timeSpan (ticks : Int)
  deriving DecidableEq, Repr

def Literal.type? : Literal → Option BuiltIn
  | .null => none
  | .boolean _ => some .boolean
  | .float _ => some .float
  | .int32 _ => some .int32
  | .int64 _ => some .int64
  | .string _ => some .string
  | .vector2 _ => some .vector2
  | .vector3 _ => some .vector3
  | .vector4 _ => some .vector4
  | .color _ => some .color
  | .timeSpan _ => some .timeSpan

inductive Expr where
  | var (name : String)
  | lit (value : Literal)
  | call (receiver : Expr) (method : String) (args : List Expr)
  | selfCall (method : String) (args : List Expr)
  | staticCall (type : TypeRef) (method : String) (args : List Expr)
  | property (receiver : Expr) (name : String)
  | field (receiver : Expr) (name : String)
  | construct (type : TypeRef) (args : List Expr)
  | enumMember (type : TypeRef) (member : String)
  | notNull (inner : Expr)
  deriving Inhabited

namespace Expr

def text (s : String) : Expr :=
  .lit (.string s)

def number (x : Float) : Expr :=
  .lit (.float x)

mutual

def types : Expr → List TypeRef
  | .var _ => []
  | .lit value => value.type?.toList.map .builtIn
  | .call receiver _ args => types receiver ++ allTypes args
  | .selfCall _ args => allTypes args
  | .staticCall type _ args => type :: allTypes args
  | .property receiver _ => types receiver
  | .field receiver _ => types receiver
  | .construct type args => type :: allTypes args
  | .enumMember type _ => [type]
  | .notNull inner => types inner

def allTypes : List Expr → List TypeRef
  | [] => []
  | e :: rest => types e ++ allTypes rest

end

mutual

def calls (name : String) : Expr → Bool
  | .var _ | .lit _ | .enumMember _ _ => false
  | .call receiver method args => method == name || calls name receiver || anyCalls name args
  | .selfCall method args => method == name || anyCalls name args
  | .staticCall _ method args => method == name || anyCalls name args
  | .property receiver _ => calls name receiver
  | .field receiver _ => calls name receiver
  | .construct _ args => anyCalls name args
  | .notNull inner => calls name inner

def anyCalls (name : String) : List Expr → Bool
  | [] => false
  | e :: rest => calls name e || anyCalls name rest

end

end Expr

end Scenograph
