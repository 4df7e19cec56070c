import Scenograph.Code.Statement

namespace Scenograph

structure Parameter where
  name : String
  type : TypeRef
  deriving DecidableEq, Repr

inductive Visibility where
  | hidden
  | internal
  | exposed
  deriving DecidableEq, Repr, Inhabited

structure Method where
  name : String
  parameters : List Parameter
  returns : TypeRef
  body : Tree
  comment : Option String
  visibility : Visibility
  isConstructor : Bool
  isStatic : Bool

def Method.types (m : Method) : List TypeRef :=
  m.returns :: (m.parameters.map (·.type) ++ m.body.types)

structure Field where
  name : String
  type : TypeRef
  init : Option Expr

def Field.types (f : Field) : List TypeRef :=
  f.type :: f.init.toList.flatMap Expr.types

structure Accessor where
  name : String
  type : TypeRef
  field : String
  setter : Tree

def Accessor.types (a : Accessor) : List TypeRef :=
  a.type :: a.setter.types

structure ClassUnit where
  fields : List Field
  methods : List Method
  accessors : List Accessor
  assets : List String

def ClassUnit.types (u : ClassUnit) : List TypeRef :=
  u.fields.flatMap Field.types ++ u.methods.flatMap Method.types
    ++ u.accessors.flatMap Accessor.types

end Scenograph
