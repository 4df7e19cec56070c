import Scenograph.Code.Statement
import Scenograph.Spelling.Literal

namespace Scenograph.Language

def memberMark : Language → String
  | .csharp | .cppWinRT => "."
  | .cppCX => "->"

def staticMark : Language → String
  | .csharp => "."
  | .cppWinRT | .cppCX => "::"

def propertyGet (language : Language) (receiver name : String) : String :=
  match language with
  | .csharp => receiver ++ "." ++ name
  | .cppWinRT => receiver ++ "." ++ name ++ "()"
  | .cppCX => receiver ++ "->" ++ name

def propertySet (language : Language) (receiver name value : String) : String :=
  match language with
  | .csharp => receiver ++ "." ++ name ++ " = " ++ value ++ ";"
  | .cppWinRT => receiver ++ "." ++ name ++ "(" ++ value ++ ");"
  | .cppCX => receiver ++ "->" ++ name ++ " = " ++ value ++ ";"

def construction (language : Language) (type : TypeRef) (args : List String) : String :=
  let made := applied (language.typeName type) args
  match language with
  | .csharp => "new " ++ made
  | .cppWinRT => made
  | .cppCX => if type.isReference then "ref new " ++ made else made

mutual

def expression (language : Language) : Expr → String
  | .var name => name
  | .lit value => language.literal value
  | .call receiver method args =>
      applied (expression language receiver ++ language.memberMark ++ method)
        (expressions language args)
  | .selfCall method args => applied method (expressions language args)
  | .staticCall type method args =>
      applied (language.typeName type ++ language.staticMark ++ method) (expressions language args)
  | .property receiver name => language.propertyGet (expression language receiver) name
  | .field receiver name => expression language receiver ++ "." ++ name
  | .construct type args => language.construction type (expressions language args)
  | .enumMember type member => language.typeName type ++ language.staticMark ++ member
  | .notNull inner => expression language inner ++ " != " ++ language.null

def expressions (language : Language) : List Expr → List String
  | [] => []
  | e :: rest => expression language e :: expressions language rest

end

def localWord : Language → String
  | .csharp => "var"
  | .cppWinRT | .cppCX => "auto"

def statement (language : Language) : Statement → String
  | .declare _ name value =>
      language.localWord ++ " " ++ name ++ " = " ++ language.expression value ++ ";"
  | .assign target value => target ++ " = " ++ language.expression value ++ ";"
  | .setProperty receiver name value =>
      language.propertySet (language.expression receiver) name (language.expression value)
  | .eval value => language.expression value ++ ";"
  | .ret (some value) => "return " ++ language.expression value ++ ";"
  | .ret none => "return;"
  | .comment text => "// " ++ text

def guardLine (language : Language) (guard : Expr) : String :=
  "if (" ++ language.expression guard ++ ")"

def listAdd : Language → String
  | .csharp => "Add"
  | .cppWinRT | .cppCX => "Append"

end Scenograph.Language
