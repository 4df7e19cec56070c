import Scenograph.Code.Expression
import Scenograph.Fault
import Scenograph.Text.Escape

namespace Scenograph

/-- The digits of a number in source text, with no suffix. Whole numbers below 10^15 are written
exactly, and show a fraction only on request. All others are rounded to a single first, which is
what the runtime keeps. -/
def numeral (showFraction : Bool) (x : Float) : String :=
  let content := Binary.ofFloat x
  match content.whole? with
  | some (negative, n) =>
      if n < Nat.pow 10 15 then
        String.ofList
          (withSign negative (Nat.toDigits 10 n ++ if showFraction then ['.', '0'] else []))
      else content.plainSingleText
  | none => content.plainSingleText

def signed (n : Int) : String :=
  String.ofList (withSign (decide (n < 0)) (Nat.toDigits 10 n.natAbs))

def quote (s : String) : String :=
  "\"" ++ String.ofList (escape s.toList) ++ "\""

def commaList (args : List String) : String :=
  String.intercalate ", " args

def applied (function : String) (args : List String) : String :=
  function ++ "(" ++ commaList args ++ ")"

namespace Language

def builtInName (language : Language) (type : BuiltIn) : String :=
  match language, type with
  | _, .void => "void"
  | _, .boolean => "bool"
  | _, .float => "float"
  | .csharp, .int32 | .cppCX, .int32 => "int"
  | .cppWinRT, .int32 => "int32_t"
  | .csharp, .int64 => "long"
  | .cppWinRT, .int64 => "int64_t"
  | .cppCX, .int64 => "int64"
  | .csharp, .string => "string"
  | .cppWinRT, .string => "winrt::hstring"
  | .cppCX, .string => "Platform::String"
  | .csharp, .vector2 => "Vector2"
  | .csharp, .vector3 => "Vector3"
  | .csharp, .vector4 => "Vector4"
  | _, .vector2 => "float2"
  | _, .vector3 => "float3"
  | _, .vector4 => "float4"
  | _, .color => "Color"
  | _, .timeSpan => "TimeSpan"
  | _, .uri => "Uri"

def typeName (language : Language) : TypeRef → String
  | .builtIn type => language.builtInName type
  | .imported _ name | .importedValue _ name | .generated name => name

def typeText (language : Language) (type : TypeRef) : String :=
  match language with
  | .cppCX => if type.isReference then language.typeName type ++ "^" else language.typeName type
  | _ => language.typeName type

def builtInNamespace? (language : Language) : BuiltIn → Option String
  | .vector2 | .vector3 | .vector4 =>
      some (match language with
        | .csharp => "System.Numerics"
        | _ => "Windows.Foundation.Numerics")
  | .color => some "Windows.UI"
  | .timeSpan | .uri =>
      some (match language with
        | .csharp => "System"
        | _ => "Windows.Foundation")
  | _ => none

def namespaceOf? (language : Language) : TypeRef → Option String
  | .builtIn type => language.builtInNamespace? type
  | type => type.namespace?

def float (language : Language) (x : Float) : String :=
  match language with
  | .csharp => numeral false x ++ "F"
  | .cppWinRT | .cppCX => numeral true x ++ "F"

def null : Language → String
  | .csharp => "null"
  | .cppWinRT | .cppCX => "nullptr"

def vector (language : Language) (type : BuiltIn) (components : List Float) : String :=
  let made := applied (language.builtInName type) (components.map language.float)
  match language with
  | .csharp => "new " ++ made
  | .cppWinRT | .cppCX => made

def hexConstant (b : UInt8) : String :=
  "0x" ++ String.ofList (upperHex b)

def color (language : Language) (c : Color) : String :=
  let bytes := c.toBytes
  let maker := match language with
    | .csharp => "Color.FromArgb"
    | .cppWinRT | .cppCX => "ColorHelper::FromArgb"
  applied maker
    [hexConstant bytes.alpha, hexConstant bytes.red, hexConstant bytes.green,
      hexConstant bytes.blue]

def literal (language : Language) : Literal → String
  | .null => language.null
  | .boolean true => "true"
  | .boolean false => "false"
  | .float x => language.float x
  | .int32 n => signed n
  | .int64 n =>
      match language with
      | .csharp => signed n ++ "L"
      | .cppWinRT | .cppCX => signed n ++ "LL"
  | .string s =>
      match language with
      | .csharp => quote s
      | .cppWinRT | .cppCX => "L" ++ quote s
  | .vector2 v => language.vector .vector2 [v.x, v.y]
  | .vector3 v => language.vector .vector3 [v.x, v.y, v.z]
  | .vector4 v => language.vector .vector4 [v.x, v.y, v.z, v.w]
  | .color c => language.color c
  | .timeSpan ticks =>
      match language with
      | .csharp => "TimeSpan.FromTicks(" ++ signed ticks ++ ")"
      | .cppWinRT | .cppCX => "TimeSpan\x7b " ++ signed ticks ++ " \x7d"

end Language

end Scenograph
