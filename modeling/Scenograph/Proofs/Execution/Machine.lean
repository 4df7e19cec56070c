import Scenograph.Code.Member
import Scenograph.Composition.Kind

/-!
Running the code of a class. The runtime behind it is seen through a log of what the code asks of it;
each request gets an answer of its own.
-/

namespace Scenograph

/-- What code computes with. An object is one of the kinds that compositions are made of; any other
thing that the runtime makes is just its answer to a request. -/
inductive Value where
  | null
  | data (value : Literal)
  | object (id : Nat)
  | answer (id : Nat)
  | part (owner : Value) (name : String)
  | constant (type : TypeRef) (member : String)
  deriving DecidableEq, Repr

def Value.ofLiteral : Literal → Value
  | .null => .null
  | value => .data value

inductive Request where
  | call (receiver : Value) (method : String) (args : List Value)
  | staticCall (type : TypeRef) (method : String) (args : List Value)
  | construct (type : TypeRef) (args : List Value)
  | setProperty (receiver : Value) (name : String) (value : Value)
  deriving DecidableEq, Repr

def ObjectKind.maker : ObjectKind → String
  | .containerVisual => "CreateContainerVisual"
  | .spriteVisual => "CreateSpriteVisual"
  | .colorBrush => "CreateColorBrush"
  | .effectBrush => "CreateBrush"
  | .surfaceBrush => "CreateSurfaceBrush"
  | .imageSurface => "StartLoadFromUri"
  | .scalarAnimation => "CreateScalarKeyFrameAnimation"
  | .vector2Animation => "CreateVector2KeyFrameAnimation"
  | .expressionAnimation => "CreateExpressionAnimation"

def Request.kind? : Request → Option ObjectKind
  | .call _ method _ => ObjectKind.all.find? (·.maker == method)
  | .staticCall _ method _ => ObjectKind.all.find? (·.maker == method)
  | .construct _ _ => none
  | .setProperty _ _ _ => none

def Request.reply (id : Nat) (r : Request) : Value :=
  if r.kind?.isSome then .object id else .answer id

structure Link where
  owner : Nat
  via : String
  label : String
  target : Nat
  deriving DecidableEq, Repr

def linkMethods : List String :=
  ["SetSourceParameter", "SetReferenceParameter", "StartAnimation"]

def Value.object? : Value → Option Nat
  | .object id => some id
  | _ => none

def Value.parent? : Value → Option Nat
  | .part owner name => if name = "Children" then owner.object? else none
  | _ => none

def Link.between? (owner : Option Nat) (via label : String) (target : Option Nat) :
    Option Link := do
  return ⟨← owner, via, label, ← target⟩

/-- The link that a request makes. A surface brush is linked to its surface as it is made. -/
def Request.link? (id : Nat) : Request → Option Link
  | .call receiver method [target] =>
      if method = "CreateSurfaceBrush" then Link.between? (some id) method "Surface" target.object?
      else if method = "InsertAtTop" then
        Link.between? receiver.parent? method "Children" target.object?
      else none
  | .call receiver method [.data (.string label), target] =>
      if linkMethods.contains method then
        Link.between? receiver.object? method label target.object?
      else none
  | .setProperty receiver name value =>
      if name = "Brush" then Link.between? receiver.object? name "Brush" value.object? else none
  | _ => none

inductive Event where
  | asked (id : Nat) (request : Request)
  | declared (method name : String) (value : Value)
  deriving DecidableEq, Repr

namespace Event

def made? : Event → Option (Nat × ObjectKind)
  | .asked id r => r.kind?.map fun kind => (id, kind)
  | .declared _ _ _ => none

def result? : Event → Option (String × Value)
  | .asked _ _ => none
  | .declared method name value => if name = "result" then some (method, value) else none

def link? : Event → Option Link
  | .asked id r => r.link? id
  | .declared _ _ _ => none

end Event

abbrev Store := List (String × Value)

def Store.put (name : String) (value : Value) : Store → Store
  | [] => []
  | (n, v) :: rest => if n = name then (n, value) :: rest else (n, v) :: Store.put name value rest

structure Machine where
  fields : Store := []
  next : Nat := 0
  log : List Event := []
  deriving DecidableEq, Repr

namespace Machine

def ask (m : Machine) (r : Request) : Value × Machine :=
  (r.reply m.next, { m with next := m.next + 1, log := m.log ++ [.asked m.next r] })

def note (m : Machine) (e : Event) : Machine :=
  { m with log := m.log ++ [e] }

def made (m : Machine) : List (Nat × ObjectKind) :=
  m.log.filterMap Event.made?

def results (m : Machine) : List (String × Value) :=
  m.log.filterMap Event.result?

def links (m : Machine) : List Link :=
  m.log.filterMap Event.link?

end Machine

inductive Halt where
  | tooDeep
  | unbound (name : String)
  | noMethod (name : String)
  | wrongArguments (name : String)
  | nullReceiver
  | notBoolean
  deriving DecidableEq, Repr

abbrev Caller := String → List Value → Machine → Except Halt (Value × Machine)

def Value.receive : Value → Except Halt Value
  | .null => .error .nullReceiver
  | v => .ok v

mutual

def Expr.eval (call : Caller) (locals : Store) : Expr → Machine → Except Halt (Value × Machine)
  | .var name, m =>
      match (locals.lookup name).or (m.fields.lookup name) with
      | some v => .ok (v, m)
      | none => .error (.unbound name)
  | .lit value, m => .ok (Value.ofLiteral value, m)
  | .call receiver method args, m => do
      let (v, m) ← Expr.eval call locals receiver m
      let (vs, m) ← Expr.evalAll call locals args m
      return m.ask (.call (← v.receive) method vs)
  | .selfCall method args, m => do
      let (vs, m) ← Expr.evalAll call locals args m
      call method vs m
  | .staticCall type method args, m => do
      let (vs, m) ← Expr.evalAll call locals args m
      return m.ask (.staticCall type method vs)
  | .property receiver name, m => do
      let (v, m) ← Expr.eval call locals receiver m
      return (.part (← v.receive) name, m)
  | .field receiver name, m => do
      let (v, m) ← Expr.eval call locals receiver m
      return (.part v name, m)
  | .construct type args, m => do
      let (vs, m) ← Expr.evalAll call locals args m
      return m.ask (.construct type vs)
  | .enumMember type member, m => .ok (.constant type member, m)
  | .notNull inner, m => do
      let (v, m) ← Expr.eval call locals inner m
      return (.data (.boolean (decide (v ≠ .null))), m)

def Expr.evalAll (call : Caller) (locals : Store) :
    List Expr → Machine → Except Halt (List Value × Machine)
  | [], m => .ok ([], m)
  | e :: rest, m => do
      let (v, m) ← Expr.eval call locals e m
      let (vs, m) ← Expr.evalAll call locals rest m
      return (v :: vs, m)

end

structure Stand where
  returned : Option Value
  locals : Store
  machine : Machine

namespace Statement

def assignTo (target : String) (v : Value) (locals : Store) (m : Machine) : Except Halt Stand :=
  if (locals.lookup target).isSome then .ok ⟨none, locals.put target v, m⟩
  else if (m.fields.lookup target).isSome then
    .ok ⟨none, locals, { m with fields := m.fields.put target v }⟩
  else .error (.unbound target)

def exec (call : Caller) (method : String) : Statement → Store → Machine → Except Halt Stand
  | .declare _ name value, locals, m => do
      let (v, m) ← value.eval call locals m
      return ⟨none, (name, v) :: locals, m.note (.declared method name v)⟩
  | .assign target value, locals, m => do
      let (v, m) ← value.eval call locals m
      assignTo target v locals m
  | .setProperty receiver name value, locals, m => do
      let (owner, m) ← receiver.eval call locals m
      let (v, m) ← value.eval call locals m
      return ⟨none, locals, (m.ask (.setProperty (← owner.receive) name v)).2⟩
  | .eval value, locals, m => do
      let (_, m) ← value.eval call locals m
      return ⟨none, locals, m⟩
  | .ret none, locals, m => .ok ⟨some .null, locals, m⟩
  | .ret (some value), locals, m => do
      let (v, m) ← value.eval call locals m
      return ⟨some v, locals, m⟩
  | .comment _, locals, m => .ok ⟨none, locals, m⟩

end Statement

def guardHolds (call : Caller) (locals : Store) (m : Machine) :
    Option Expr → Except Halt (Bool × Machine)
  | none => .ok (true, m)
  | some guard => do
      match ← guard.eval call locals m with
      | (.data (.boolean b), m) => return (b, m)
      | _ => throw .notBoolean

mutual

def Node.exec (call : Caller) (method : String) : Node → Store → Machine → Except Halt Stand
  | .stmt s, locals, m => s.exec call method locals m
  | .block guard nodes, locals, m => do
      let (holds, m) ← guardHolds call locals m guard
      if holds then
        let stand ← Node.execAll call method nodes locals m
        -- what the block declared is forgotten
        return { stand with locals := stand.locals.drop (stand.locals.length - locals.length) }
      else
        return ⟨none, locals, m⟩

def Node.execAll (call : Caller) (method : String) :
    List Node → Store → Machine → Except Halt Stand
  | [], locals, m => .ok ⟨none, locals, m⟩
  | n :: rest, locals, m => do
      let stand ← Node.exec call method n locals m
      match stand.returned with
      | some _ => return stand
      | none => Node.execAll call method rest stand.locals stand.machine

end

def Tree.exec (call : Caller) (method : String) (t : Tree) (locals : Store) (m : Machine) :
    Except Halt Stand :=
  Node.exec call method (.block t.guard t.nodes) locals m

def Method.run (call : Caller) (method : Method) (args : List Value) (m : Machine) :
    Except Halt (Value × Machine) := do
  if args.length = method.parameters.length then
    let locals := (method.parameters.map (·.name)).zip args
    let stand ← method.body.exec call method.name locals m
    return (stand.returned.getD .null, stand.machine)
  else
    throw (.wrongArguments method.name)

namespace ClassUnit

def method? (u : ClassUnit) (name : String) : Option Method :=
  u.methods.find? fun m => !m.isConstructor && m.name == name

def invoke (u : ClassUnit) : Nat → Caller
  | 0 => fun _ _ _ => .error .tooDeep
  | depth + 1 => fun name args m =>
      match u.method? name with
      | none => .error (.noMethod name)
      | some method => method.run (u.invoke depth) args m

def initialise (call : Caller) : List Field → Machine → Except Halt Machine
  | [], m => .ok m
  | f :: rest, m => do
      let (v, m) ← match f.init with
        | none => .ok (.null, m)
        | some value => value.eval call [] m
      initialise call rest { m with fields := m.fields ++ [(f.name, v)] }

def construct (u : ClassUnit) (depth : Nat) (args : List Value) : Except Halt Machine := do
  let m ← initialise (u.invoke depth) u.fields {}
  match u.methods.find? (·.isConstructor) with
  | none => return m
  | some constructor => return (← constructor.run (u.invoke depth) args m).2

end ClassUnit

end Scenograph
