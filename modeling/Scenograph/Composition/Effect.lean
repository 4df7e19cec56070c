import Scenograph.Fault

namespace Scenograph

inductive CompositeMode where
  | sourceOver
  | destinationOver
  | sourceIn
  | destinationIn
  | sourceOut
  | destinationOut
  | sourceAtop
  | destinationAtop
  | xor
  | add
  | copy
  | boundedCopy
  | maskInvert
  deriving DecidableEq, Repr, Inhabited

namespace CompositeMode

def all : List CompositeMode :=
  [.sourceOver, .destinationOver, .sourceIn, .destinationIn, .sourceOut, .destinationOut,
    .sourceAtop, .destinationAtop, .xor, .add, .copy, .boundedCopy, .maskInvert]

def name : CompositeMode → String
  | .sourceOver => "SourceOver"
  | .destinationOver => "DestinationOver"
  | .sourceIn => "SourceIn"
  | .destinationIn => "DestinationIn"
  | .sourceOut => "SourceOut"
  | .destinationOut => "DestinationOut"
  | .sourceAtop => "SourceAtop"
  | .destinationAtop => "DestinationAtop"
  | .xor => "Xor"
  | .add => "Add"
  | .copy => "Copy"
  | .boundedCopy => "BoundedCopy"
  | .maskInvert => "MaskInvert"

end CompositeMode

inductive Effect where
  | composite (mode : CompositeMode) (sources : List String)
  | gaussianBlur (amount : Option Float) (source : Option String)
  deriving DecidableEq, Repr

namespace Effect

def kind : Effect → EffectKind
  | .composite _ _ => .composite
  | .gaussianBlur _ _ => .gaussianBlur

def sources : Effect → List String
  | .composite _ sources => sources
  | .gaussianBlur _ source => source.toList

def sourceFlaw? (seen : List String) : List String → Option Flaw
  | [] => none
  | name :: rest =>
      if name.isEmpty then some .unnamedSource
      else if seen.contains name then some (.duplicateSource name)
      else sourceFlaw? (name :: seen) rest

def amountFlaw? : Effect → Option Flaw
  | .gaussianBlur (some amount) _ =>
      if !amount.isFinite || amount < 0 then some (.badBlurAmount amount) else none
  | _ => none

def flaw? (e : Effect) : Option Flaw :=
  (sourceFlaw? [] e.sources).or e.amountFlaw?

def validate (place : Place) (e : Effect) : Except Fault Unit :=
  match e.flaw? with
  | some flaw => .error (.structural place flaw)
  | none => .ok ()

end Effect

end Scenograph
