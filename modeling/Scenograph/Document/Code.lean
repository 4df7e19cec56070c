import Scenograph.Code.Member
import Scenograph.Json.Basic
import Scenograph.Source.Files

namespace Scenograph

def Json.numeral (x : Float) : Json :=
  if x.isNaN then .text "NaN"
  else if x.isFinite then .float x
  else if x < 0 then .text "-Infinity"
  else .text "Infinity"

def Json.numerals (xs : List Float) : Json :=
  .list numeral xs

/-- A word of sixty-four bits stands as text, since few readers of JSON keep it exactly. -/
def Json.word (n : Int) : Json :=
  .text (signed n)

def Json.texts (xs : List String) : Json :=
  .list text xs

namespace BuiltIn

def all : List BuiltIn :=
  [.void, .boolean, .float, .int32, .int64, .string, .vector2, .vector3, .vector4, .color,
    .timeSpan, .uri]

def name : BuiltIn → String
  | .void => "Void"
  | .boolean => "Boolean"
  | .float => "Float"
  | .int32 => "Int32"
  | .int64 => "Int64"
  | .string => "String"
  | .vector2 => "Vector2"
  | .vector3 => "Vector3"
  | .vector4 => "Vector4"
  | .color => "Color"
  | .timeSpan => "TimeSpan"
  | .uri => "Uri"

end BuiltIn

def TypeRef.toJson : TypeRef → Json
  | .builtIn b => .text b.name
  | .imported space name => .variant "imported" (.texts [space, name])
  | .importedValue space name => .variant "value" (.texts [space, name])
  | .generated name => .variant "generated" (.text name)

def Literal.toJson : Literal → Json
  | .null => .text "null"
  | .boolean b => .variant "bool" (.bool b)
  | .float x => .variant "float" (.numeral x)
  | .int32 n => .variant "int32" (.word n)
  | .int64 n => .variant "int64" (.word n)
  | .string s => .variant "string" (.text s)
  | .vector2 v => .variant "vector2" (.numerals [v.x, v.y])
  | .vector3 v => .variant "vector3" (.numerals [v.x, v.y, v.z])
  | .vector4 v => .variant "vector4" (.numerals [v.x, v.y, v.z, v.w])
  | .color c => .variant "color" (.numerals [c.red, c.green, c.blue, c.alpha])
  | .timeSpan n => .variant "timespan" (.word n)

namespace Expr

mutual

def toJson : Expr → Json
  | .var name => .variant "var" (.text name)
  | .lit value => .variant "lit" value.toJson
  | .call receiver method args =>
      .variant "call" (.record
        [("on", toJson receiver), ("method", .text method), ("args", .arr (allToJson args))])
  | .selfCall method args =>
      .variant "call" (.record
        [("on", .null), ("method", .text method), ("args", .arr (allToJson args))])
  | .staticCall type method args =>
      .variant "static" (.record
        [("type", type.toJson), ("method", .text method), ("args", .arr (allToJson args))])
  | .property receiver name =>
      .variant "get" (.record [("on", toJson receiver), ("name", .text name)])
  | .field receiver name =>
      .variant "field" (.record [("on", toJson receiver), ("name", .text name)])
  | .construct type args =>
      .variant "new" (.record [("type", type.toJson), ("args", .arr (allToJson args))])
  | .enumMember type name =>
      .variant "enum" (.record [("type", type.toJson), ("member", .text name)])
  | .notNull inner => .variant "notnull" (toJson inner)

def allToJson : List Expr → List Json
  | [] => []
  | e :: rest => toJson e :: allToJson rest

end

end Expr

def Statement.toJson : Statement → Json
  | .declare type name value =>
      .variant "local" (.record
        [("type", type.toJson), ("name", .text name), ("value", value.toJson)])
  | .assign target value =>
      .variant "assign" (.record [("target", .text target), ("value", value.toJson)])
  | .setProperty receiver name value =>
      .variant "set" (.record
        [("on", receiver.toJson), ("name", .text name), ("value", value.toJson)])
  | .eval value => .variant "expr" value.toJson
  | .ret value => .variant "return" (.option Expr.toJson value)
  | .comment text => .variant "comment" (.text text)

namespace Node

mutual

def toJson : Node → Json
  | .stmt s => s.toJson
  | .block guard nodes =>
      .variant "block" (.record
        [("guard", .option Expr.toJson guard), ("nodes", .arr (allToJson nodes))])

def allToJson : List Node → List Json
  | [] => []
  | n :: rest => toJson n :: allToJson rest

end

end Node

def Tree.toJson (t : Tree) : Json :=
  .record [("guard", .option Expr.toJson t.guard), ("nodes", .arr (Node.allToJson t.nodes))]

def Visibility.name : Visibility → String
  | .hidden => "private"
  | .internal => "internal"
  | .exposed => "public"

def Parameter.toJson (p : Parameter) : Json :=
  .arr [.text p.name, p.type.toJson]

def Method.toJson (m : Method) : Json :=
  .record
    [("name", .text m.name), ("params", .list Parameter.toJson m.parameters),
      ("returns", m.returns.toJson), ("body", m.body.toJson),
      ("comment", .option .text m.comment), ("visibility", .text m.visibility.name),
      ("constructor", .bool m.isConstructor), ("static", .bool m.isStatic)]

def Field.toJson (f : Field) : Json :=
  .record
    [("name", .text f.name), ("type", f.type.toJson), ("init", .option Expr.toJson f.init)]

def Accessor.toJson (a : Accessor) : Json :=
  .record
    [("name", .text a.name), ("type", a.type.toJson), ("field", .text a.field),
      ("setter", a.setter.toJson)]

def ClassUnit.toJson (u : ClassUnit) : Json :=
  .record
    [("fields", .list Field.toJson u.fields), ("methods", .list Method.toJson u.methods),
      ("accessors", .list Accessor.toJson u.accessors), ("assets", .texts u.assets)]

def Generated.toJson (g : Generated) : Json :=
  .record
    [("language", .text g.language.name),
      ("files", .list (fun f : SourceFile => .texts [f.name, f.text]) g.files),
      ("assets", .texts g.assets), ("hash", .text (Fingerprint.toHex g.fingerprint))]

end Scenograph
