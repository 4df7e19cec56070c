import Scenograph.Number.Decimal
import Scenograph.Language
import Scenograph.Composition.Kind

namespace Scenograph

def shown (n : Nat) : String :=
  String.ofList (Nat.toDigits 10 n)

inductive Place where
  | graph
  | node (id : Nat)
  | object (kind : ObjectKind) (id : Nat)
  | binding (name : String)
  | layer (index : Nat) (name : String)
  | named (text : String)
  deriving DecidableEq, Repr

def nodeText (id : Nat) : String :=
  "#" ++ shown id

def Place.text : Place → String
  | .graph => "graph"
  | .node id => nodeText id
  | .object kind id => kind.name ++ " " ++ nodeText id
  | .binding name => "binding '" ++ name ++ "'"
  | .layer index name => "layer " ++ shown index ++ " '" ++ name ++ "'"
  | .named text => text

inductive Flaw where
  | duplicateLayerIndex
  | framesReversed
  | missingAsset (id : String)
  | missingParent (index : Nat)
  | parentCycle
  | bindingNotIdentifier
  | notStorable (exposed stored : ValueKind)
  | wrongDefault (found expected : ValueKind)
  | duplicateBinding
  | unnamedSource
  | duplicateSource (name : String)
  | badBlurAmount (amount : Float)
  | noRoot
  | noSuchObject
  | rootNotVisual
  | danglingEdge (label : String) (target : Nat)
  | wrongTarget (label : String) (kind : ObjectKind)
  | notEffectBrush
  | sourceCount (effect : EffectKind) (slots bound : Nat)
  | sourceOrder (bound slot : String)
  | themeWithoutBindings
  | edgeClosesCycle (label : String)
  | memberClash
  | bindingIsKeyword (language : Language)
  | notReachable
  deriving DecidableEq, Repr

def Flaw.message : Flaw → String
  | .duplicateLayerIndex => "duplicate layer index"
  | .framesReversed => "out frame is before in frame"
  | .missingAsset id => "references missing asset '" ++ id ++ "'"
  | .missingParent index => "parent " ++ shown index ++ " does not exist"
  | .parentCycle => "parent chain contains a cycle"
  | .bindingNotIdentifier => "binding name is not a valid identifier"
  | .notStorable exposed stored => exposed.name ++ " cannot be stored as " ++ stored.name
  | .wrongDefault found expected =>
      "default value is " ++ found.name ++ ", expected " ++ expected.name
  | .duplicateBinding => "duplicate binding name"
  | .unnamedSource => "effect source has an empty name"
  | .duplicateSource name => "duplicate effect source '" ++ name ++ "'"
  | .badBlurAmount amount => "invalid blur amount " ++ (Binary.ofFloat amount).plainText
  | .noRoot => "no root visual"
  | .noSuchObject => "no such object"
  | .rootNotVisual => "root is not a visual"
  | .danglingEdge label target => "edge '" ++ label ++ "' points at missing " ++ nodeText target
  | .wrongTarget label kind => "edge '" ++ label ++ "' cannot point at a " ++ kind.name
  | .notEffectBrush => "not an effect brush"
  | .sourceCount effect slots bound =>
      effect.name ++ " expects " ++ shown slots ++ " source(s), " ++ shown bound ++ " bound"
  | .sourceOrder bound slot =>
      "source '" ++ bound ++ "' bound where '" ++ slot ++ "' was expected"
  | .themeWithoutBindings => "references theme properties but the graph has no bindings"
  | .edgeClosesCycle label => "edge '" ++ label ++ "' closes a cycle"
  | .memberClash => "name clashes with a generated member"
  | .bindingIsKeyword language => "name is a " ++ language.name ++ " keyword"
  | .notReachable => "object is not reachable"

inductive Misuse where
  | closedRoot
  | scopesOpen (count : Nat)
  | unnamedMethod
  | untypedMethod (name : String)
  deriving DecidableEq, Repr

def Misuse.message : Misuse → String
  | .closedRoot => "close_scope called on the root scope"
  | .scopesOpen count => shown count ++ " scope(s) still open"
  | .unnamedMethod => "method has no name"
  | .untypedMethod name => "method " ++ name ++ " has no return type"

inductive Unsupported where
  | otherLanguage (asked : Language)
  | modernRuntime
  deriving DecidableEq, Repr

def Unsupported.message : Unsupported → String
  | .otherLanguage asked => "descriptor asks for " ++ asked.name
  | .modernRuntime => "the modern composition runtime is not supported"

inductive BadSetting where
  | className (text : String)
  | namespaceName (text : String)
  | duration (seconds : Nat)
  deriving DecidableEq, Repr

def BadSetting.message : BadSetting → String
  | .className text => "class name '" ++ text ++ "' is not an identifier"
  | .namespaceName text => "namespace '" ++ text ++ "' is not a dotted identifier"
  | .duration seconds => "duration of " ++ shown seconds ++ "s does not fit in a TimeSpan"

inductive Fault where
  | structural (place : Place) (flaw : Flaw)
  | misuse (reason : Misuse)
  | unsupported (language : Language) (reason : Unsupported)
  | setting (reason : BadSetting)
  deriving DecidableEq, Repr

def Fault.message : Fault → String
  | .structural place flaw => "structural violation at " ++ place.text ++ ": " ++ flaw.message
  | .misuse reason => "builder misuse: " ++ reason.message
  | .unsupported language reason =>
      "unsupported target " ++ language.name ++ ": " ++ reason.message
  | .setting reason => "config error: " ++ reason.message

end Scenograph
