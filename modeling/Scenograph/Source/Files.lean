import Scenograph.Digest.Fingerprint
import Scenograph.Source.Header
import Scenograph.Source.Imports
import Scenograph.Source.Print
import Scenograph.Target

namespace Scenograph

structure SourceFile where
  name : String
  text : String
  deriving DecidableEq, Repr

structure Generated where
  language : Language
  files : List SourceFile
  assets : List String
  deriving DecidableEq, Repr

def Generated.fingerprint (g : Generated) : List UInt8 :=
  Fingerprint.ofTexts (g.files.map (·.text))

namespace ClassUnit

def banner : String :=
  "// Generated by LottieGen. Do not edit."

def sectionOf : Visibility → Section
  | .hidden => .hidden
  | .internal => .internal
  | .exposed => .exposed

def singleFile (u : ClassUnit) (t : Target) (language : Language) : Page :=
  let out := (Page.empty.line banner).linesOf
    ((u.namespaces language).map language.namespaceImport)
  let out := (out.blank.line (language.namespaceLine t.space)).openScope
  let out := (out.line (language.classLine t.className)).openScope
  let out := out.linesOf (u.fields.map language.fieldLine)
  let out := u.accessors.foldl
    (fun out a => language.writeAccessor t.className .inline a out.blank) out
  let out := u.methods.foldl
    (fun out m => language.writeMethod t.className .inline m out.blank) out
  (out.closeScopeWith language.classClose).closeScope

def headerPreamble (u : ClassUnit) (t : Target) (language : Language) (out : Page) : Page :=
  let spaces := u.namespaces language
  let out := (out.linesOf language.headerStart).line banner
  let out := out.linesOf (spaces.filterMap language.headerInclude?)
  let out := (out.blank.line (language.namespaceLine t.space)).openScope
  let out :=
    if spaces.isEmpty then out else (out.linesOf (spaces.map language.namespaceImport)).blank
  (out.line (language.classLine t.className)).openScope

def header (u : ClassUnit) (t : Target) (language : Language) : Header :=
  let h := Header.start 1 (language.accessLabel .hidden) (language.accessLabel .internal)
    (language.accessLabel .exposed)
  let h := h.write .preamble (u.headerPreamble t language)
  let h := u.fields.foldl (fun h f => h.write .hidden (·.line (language.fieldLine f))) h
  let h := u.methods.foldl
    (fun h m => h.write (sectionOf m.visibility)
      (·.line (language.signature t.className .declaration m))) h
  let h := u.accessors.foldl
    (fun h a => h.write .exposed (language.writeAccessor t.className .declaration a)) h
  h.write .postamble fun out => (out.line language.classClose).unindent.line "\x7d"

def writeMethods (language : Language) (className : String) : List Method → Page → Page
  | [], out => out
  | m :: rest, out =>
      rest.foldl (fun out m => language.writeMethod className .definition m out.blank)
        (language.writeMethod className .definition m out)

def definitions (u : ClassUnit) (t : Target) (language : Language) (headerFile : String) : Page :=
  let out := (Page.empty.line banner).linesOf (language.definitionIncludes headerFile)
  let out := (out.blank.line (language.namespaceLine t.space)).openScope
  let out := writeMethods language t.className u.methods out
  let out := u.accessors.foldl
    (fun out a => language.writeAccessor t.className .definition a out.blank) out
  out.closeScope

def write (u : ClassUnit) (t : Target) (language : Language) : Generated :=
  let stem := t.className
  let source := stem ++ "." ++ language.sourceExtension
  { language
    files :=
      match language.headerExtension? with
      | none => [⟨source, (u.singleFile t language).render⟩]
      | some extension =>
          let headerFile := stem ++ "." ++ extension
          [⟨headerFile, (u.header t language).render⟩,
            ⟨source, (u.definitions t language headerFile).render⟩]
    assets := u.assets }

end ClassUnit

end Scenograph
