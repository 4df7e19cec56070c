import Scenograph.Code.Member
import Scenograph.Source.Page
import Scenograph.Spelling.Statement

namespace Scenograph

inductive Site where
  | inline
  | declaration
  | definition
  deriving DecidableEq, Repr

namespace Language

def supportsModernRuntime : Language → Bool
  | .csharp | .cppWinRT => true
  | .cppCX => false

def parameters (language : Language) (m : Method) : String :=
  commaList (m.parameters.map fun p => language.typeText p.type ++ " " ++ p.name)

def visibilityWord : Visibility → String
  | .hidden => ""
  | .internal => "internal "
  | .exposed => "public "

def staticWord (m : Method) : String :=
  if m.isStatic then "static " else ""

def signature (language : Language) (className : String) (site : Site) (m : Method) :
    String :=
  let params := "(" ++ language.parameters m ++ ")"
  let returns := language.typeText m.returns
  match language with
  | .csharp =>
      if m.isConstructor then visibilityWord m.visibility ++ className ++ params
      else visibilityWord m.visibility ++ staticWord m ++ returns ++ " " ++ m.name ++ params
  | .cppWinRT | .cppCX =>
      if m.isConstructor then
        match site with
        | .definition => className ++ "::" ++ className ++ params
        | .declaration => className ++ params ++ ";"
        | .inline => className ++ params
      else
        match site with
        | .definition => returns ++ " " ++ className ++ "::" ++ m.name ++ params
        | .declaration => staticWord m ++ returns ++ " " ++ m.name ++ params ++ ";"
        | .inline => staticWord m ++ returns ++ " " ++ m.name ++ params

def fieldLine (language : Language) (f : Field) : String :=
  let start := language.typeText f.type ++ " " ++ f.name
  match language, f.init with
  | .cppWinRT, some init => start ++ "\x7b " ++ language.expression init ++ " \x7d;"
  | .cppWinRT, none =>
      if f.type.isReference then start ++ "\x7b nullptr \x7d;" else start ++ "\x7b\x7d;"
  | _, some init => start ++ " = " ++ language.expression init ++ ";"
  | _, none => start ++ ";"

def setterBlock (out : Page) (firstLine : String) (setter : Page) : Page :=
  (((out.line firstLine).openScope).append setter).closeScope

def accessor (language : Language) (className : String) (site : Site) (a : Accessor)
    (setter out : Page) : Page :=
  let type := language.typeText a.type
  match language with
  | .csharp =>
      let out := (out.line ("public " ++ type ++ " " ++ a.name)).openScope
      let out := out.line ("get => " ++ a.field ++ ";")
      (setterBlock out "set" setter).closeScope
  | .cppWinRT =>
      let owner := match site with
        | .definition => className ++ "::"
        | _ => ""
      match site with
      | .declaration =>
          (out.line (type ++ " " ++ a.name ++ "() const;")).line
            ("void " ++ a.name ++ "(" ++ type ++ " value);")
      | _ =>
          let out := out.line
            (type ++ " " ++ owner ++ a.name ++ "() const \x7b return " ++ a.field ++ "; \x7d")
          setterBlock out.blank ("void " ++ owner ++ a.name ++ "(" ++ type ++ " value)") setter
  | .cppCX =>
      match site with
      | .declaration =>
          out.line ("property " ++ type ++ " " ++ a.name ++ " \x7b " ++ type
            ++ " get(); void set(" ++ type ++ " value); \x7d")
      | _ =>
          let out := out.line
            (type ++ " " ++ className ++ "::" ++ a.name ++ "::get() \x7b return " ++ a.field
              ++ "; \x7d")
          setterBlock out.blank
            ("void " ++ className ++ "::" ++ a.name ++ "::set(" ++ type ++ " value)") setter

def colonPath (space : String) : String :=
  String.ofList (space.toList.flatMap fun c => if c = '.' then [':', ':'] else [c])

def namespaceImport (language : Language) (space : String) : String :=
  match language with
  | .csharp => "using " ++ space ++ ";"
  | .cppWinRT => "using namespace winrt::" ++ colonPath space ++ ";"
  | .cppCX => "using namespace " ++ colonPath space ++ ";"

def namespaceLine (language : Language) (space : String) : String :=
  match language with
  | .csharp => "namespace " ++ space
  | .cppWinRT | .cppCX => "namespace " ++ colonPath space

def classLine (language : Language) (name : String) : String :=
  match language with
  | .csharp => "sealed class " ++ name
  | .cppWinRT => "class " ++ name ++ " final"
  | .cppCX => "public ref class " ++ name ++ " sealed"

def classClose : Language → String
  | .csharp => "\x7d"
  | .cppWinRT | .cppCX => "\x7d;"

def accessLabel (language : Language) (visibility : Visibility) : String :=
  match language, visibility with
  | _, .hidden => "private:"
  | .cppWinRT, .internal => "public:"
  | _, .internal => "internal:"
  | _, .exposed => "public:"

def headerStart : Language → List String
  | .csharp => []
  | .cppWinRT | .cppCX => ["#pragma once"]

def headerInclude? (language : Language) (space : String) : Option String :=
  match language with
  | .cppWinRT => some ("#include <winrt/" ++ space ++ ".h>")
  | .csharp | .cppCX => none

def definitionIncludes (language : Language) (headerFile : String) : List String :=
  match language with
  | .csharp => []
  | .cppWinRT | .cppCX => ["#include \"pch.h\"", "#include \"" ++ headerFile ++ "\""]

def sourceExtension : Language → String
  | .csharp => "cs"
  | .cppWinRT | .cppCX => "cpp"

def headerExtension? : Language → Option String
  | .csharp => none
  | .cppWinRT | .cppCX => some "h"

end Language

end Scenograph
