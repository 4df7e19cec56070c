import Scenograph.Color
import Scenograph.Rendering.Context

namespace Scenograph

structure Transform (α : Type) where
  anchor : Animatable α (Vector2 α)
  position : Animatable α (Vector2 α)
  scale : Animatable α (Vector2 α)
  rotation : Animatable α α
  opacity : Animatable α α
  deriving DecidableEq, Repr

def opacityOfPercent {α : Type} [Scalar α] (percent : α) : α :=
  percent / Scalar.ofNat 100

def Transform.identity {α : Type} [Scalar α] : Transform α where
  anchor := .constant Vector2.zero
  position := .constant Vector2.zero
  scale := .constant (Vector2.splat (Scalar.ofNat 100))
  rotation := .constant (Scalar.ofNat 0)
  opacity := .constant (Scalar.ofNat 1)

structure Placement (α : Type) where
  index : Nat
  name : String
  parent : Option Nat
  inFrame : α
  outFrame : α
  startFrame : α
  timeStretch : α
  transform : Transform α
  blendMode : BlendMode
  deriving DecidableEq, Repr

def Placement.of {α : Type} [Scalar α] (index : Nat) (name : String) (inFrame outFrame : α) :
    Placement α where
  index
  name
  parent := none
  inFrame
  outFrame
  startFrame := Scalar.ofNat 0
  timeStretch := Scalar.ofNat 1
  transform := .identity
  blendMode := .normal

inductive LayerContent where
  | image (assetId : String)
  | null
  | solid (width height : Float) (color : Color)
  | precomp (compositionId : String)
  | shape
  deriving DecidableEq, Repr

structure Layer (α : Type) where
  placement : Placement α
  content : LayerContent
  deriving DecidableEq, Repr

namespace Layer

variable {α : Type}

def index (layer : Layer α) : Nat :=
  layer.placement.index

def withParent (layer : Layer α) (parent : Nat) : Layer α :=
  { layer with placement := { layer.placement with parent := some parent } }

def withTransform (layer : Layer α) (transform : Transform α) : Layer α :=
  { layer with placement := { layer.placement with transform } }

def withBlendMode (layer : Layer α) (blendMode : BlendMode) : Layer α :=
  { layer with placement := { layer.placement with blendMode } }

def assetId? (layer : Layer α) : Option String :=
  match layer.content with
  | .image id => some id
  | _ => none

def isTransformOnly (layer : Layer α) : Bool :=
  layer.content == .null

/-- What is done to the layer's content. The opacity and blend mode of a layer that shows nothing
do not reach the layers that hang on it, and are left out. -/
def renderingContext [Scalar α] (layer : Layer α) : Context α :=
  let t := layer.placement.transform
  let moves : List (Context α) :=
    [.anchor t.anchor, .position t.position, .scale t.scale, .rotation t.rotation]
  let looks : List (Context α) :=
    if layer.isTransformOnly then [] else [.opacity t.opacity, .blendMode layer.placement.blendMode]
  let context : Context α := .composite (moves ++ looks)
  if layer.placement.startFrame == Scalar.ofNat 0 then context
  else context.shift layer.placement.startFrame

end Layer

end Scenograph
