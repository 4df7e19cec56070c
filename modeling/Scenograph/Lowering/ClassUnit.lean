import Scenograph.Code.Draft
import Scenograph.Lowering.Object
import Scenograph.Source.Files

namespace Scenograph

namespace Plan

def built {α : Type} : Except Misuse α → Except Fault α
  | .ok a => .ok a
  | .error reason => .error (.misuse reason)

def method (draft : MethodDraft) (steps : List Step) : Except Fault Method :=
  built (draft.run steps >>= MethodDraft.finish)

def exposedType : ValueKind → TypeRef
  | .scalar => .builtIn .float
  | .vector2 => .builtIn .vector2
  | .vector3 => .builtIn .vector3
  | .vector4 => .builtIn .vector4
  | .color => .builtIn .color
  | .boolean => .builtIn .boolean

def valueLiteral : PropertyValue → Literal
  | .scalar x => .float x
  | .vector2 v => .vector2 v
  | .vector3 v => .vector3 v
  | .vector4 v => .vector4 v
  | .color c => .color c
  | .boolean b => .boolean b

def convertsColor (b : Binding) : Bool :=
  b.exposed == .color && b.stored == .vector4

def storedValue (b : Binding) (value : Expr) : Expr :=
  if convertsColor b then .selfCall "ColorAsVector4" [value] else value

def themeSet : Expr :=
  .var "_themeProperties"

def insertValue (b : Binding) (value : Expr) : Statement :=
  .eval (.call themeSet b.stored.insertMethod [.text b.name, storedValue b value])

def classFields (p : Plan) (usesTheme : Bool) : List Field :=
  [⟨"_c", p.compositionType "Compositor", none⟩, ⟨"_root", p.compositionType "Visual", none⟩]
    ++ if usesTheme then
        ⟨"_themeProperties", p.compositionType "CompositionPropertySet", none⟩
          :: p.graph.bindings.values.map fun b =>
            ⟨backingField b, exposedType b.exposed, some (.lit (valueLiteral b.default))⟩
      else []

def constructor (p : Plan) (root : Nat) : Except Fault Method := do
  let draft := ({ name := some p.target.className, visibility := .internal : MethodDraft}
    |>.asConstructor |>.withParameter "compositor" (p.compositionType "Compositor"))
  method draft
    [.add (.assign "_c" (.var "compositor")), .add (.assign "_root" (← p.factoryCall root))]

def getter (name : String) (type : TypeRef) (value : Expr) (comment : String) :
    Except Fault Method :=
  method { name := some name, returns := some type, visibility := .exposed, comment := some comment }
    [.add (.ret (some value))]

def getters (p : Plan) : Except Fault (List Method) := do
  return [
    ← getter "RootVisual" (p.compositionType "Visual") (.var "_root")
      "The root of the composition tree.",
    ← getter "Duration" (.builtIn .timeSpan) (.lit (.timeSpan (← p.target.ticks)))
      "Duration of the animation.",
    ← getter "Size" (.builtIn .vector2) (.lit (.vector2 p.target.size))
      "Size of the animation canvas."]

def ensureTheme (p : Plan) : Except Fault Method :=
  method
    { name := some "EnsureThemeProperties"
      returns := some (p.compositionType "CompositionPropertySet") }
    ([.enter (some (.notNull themeSet)), .add (.ret (some themeSet)), .leave,
        .add (.assign "_themeProperties" (create "CreatePropertySet" []))]
      ++ (p.graph.bindings.values.map fun b => .add (insertValue b (.var (backingField b))))
      ++ [.add (.ret (some themeSet))])

def colorAsVector4 : Except Fault Method :=
  let color : Expr := .var "color"
  method
    ({ name := some "ColorAsVector4", isStatic := true, returns := some (.builtIn .vector4)
        : MethodDraft}.withParameter "color" (.builtIn .color))
    [.add (.ret (some (.construct (.builtIn .vector4)
      [.field color "R", .field color "G", .field color "B", .field color "A"])))]

def accessor (b : Binding) : Except Fault Accessor := do
  let field := backingField b
  let setter ← built (TreeDraft.empty.run
    [.add (.assign field (.var "value")), .enter (some (.notNull themeSet)),
      .add (insertValue b (.var "value")), .leave] >>= TreeDraft.finish)
  return { name := b.name, type := exposedType b.exposed, field, setter }

def conversions (p : Plan) : Except Fault (List Method) := do
  if p.graph.bindings.values.any convertsColor then
    return [← colorAsVector4]
  else
    return []

def themeMethods (p : Plan) (usesTheme : Bool) : Except Fault (List Method) := do
  if usesTheme then
    return (← p.ensureTheme) :: (← p.conversions)
  else
    return []

def accessors (p : Plan) (usesTheme : Bool) : Except Fault (List Accessor) :=
  if usesTheme then p.graph.bindings.values.mapM accessor else .ok []

def factorySteps (shared : Bool) (name : String) (body : List Statement) : List Step :=
  let field := cacheField name
  (if shared then
      [.enter (some (.notNull (.var field))), .add (.ret (some (.var field))), .leave]
    else [])
    ++ body.map .add
    ++ (if shared then [.add (.assign field result)] else [])
    ++ [.add (.ret (some result))]

def factory (p : Plan) (id : Nat) : Except Fault Method := do
  let o ← p.graph.get id
  let name ← p.nameOf id
  let body ← p.objectStatements id o
  method { name := some name, returns := some (p.objectType o.kind) }
    (factorySteps (p.shared.contains id) name body)

def sharedField (p : Plan) (id : Nat) : Except Fault Field := do
  let o ← p.graph.get id
  return ⟨cacheField (← p.nameOf id), p.objectType o.kind, none⟩

structure Members where
  fields : List Field
  methods : List Method

def cacheFields (p : Plan) (id : Nat) : Except Fault (List Field) := do
  if p.shared.contains id then
    return [← p.sharedField id]
  else
    return []

def addFactory (p : Plan) (m : Members) (id : Nat) : Except Fault Members := do
  return {
    fields := m.fields ++ (← p.cacheFields id)
    methods := m.methods ++ [← p.factory id] }

end Plan

def Graph.lower (g : Graph) (t : Target) : Except Fault ClassUnit := do
  let p ← Plan.ofGraph t g
  p.checkBindings
  let usesTheme ← g.usesTheme
  let constructor ← p.constructor (← g.getRoot)
  let getters ← p.getters
  let themeMethods ← p.themeMethods usesTheme
  let accessors ← p.accessors usesTheme
  let members ← p.order.foldlM p.addFactory
    { fields := p.classFields usesTheme, methods := constructor :: (getters ++ themeMethods) }
  let assets ← g.referencedAssets
  return { fields := members.fields, methods := members.methods, accessors, assets }

def Graph.generate (g : Graph) (t : Target) (writer : Language) : Except Fault Generated := do
  t.check writer
  return (← g.lower t).write t writer

end Scenograph
