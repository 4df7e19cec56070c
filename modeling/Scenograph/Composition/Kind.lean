namespace Scenograph

inductive ObjectKind where
  | containerVisual
  | spriteVisual
  | colorBrush
  | effectBrush
  | surfaceBrush
  | imageSurface
  | scalarAnimation
  | vector2Animation
  | expressionAnimation
  deriving DecidableEq, Repr

namespace ObjectKind

def all : List ObjectKind :=
  [.containerVisual, .spriteVisual, .colorBrush, .effectBrush, .surfaceBrush, .imageSurface,
    .scalarAnimation, .vector2Animation, .expressionAnimation]

def name : ObjectKind → String
  | .containerVisual => "ContainerVisual"
  | .spriteVisual => "SpriteVisual"
  | .colorBrush => "CompositionColorBrush"
  | .effectBrush => "CompositionEffectBrush"
  | .surfaceBrush => "CompositionSurfaceBrush"
  | .imageSurface => "LoadedImageSurface"
  | .scalarAnimation => "ScalarKeyFrameAnimation"
  | .vector2Animation => "Vector2KeyFrameAnimation"
  | .expressionAnimation => "ExpressionAnimation"

def isVisual : ObjectKind → Bool
  | .containerVisual | .spriteVisual => true
  | _ => false

def isBrush : ObjectKind → Bool
  | .colorBrush | .effectBrush | .surfaceBrush => true
  | _ => false

def isAnimation : ObjectKind → Bool
  | .scalarAnimation | .vector2Animation | .expressionAnimation => true
  | _ => false

end ObjectKind

inductive EffectKind where
  | composite
  | gaussianBlur
  deriving DecidableEq, Repr

def EffectKind.name : EffectKind → String
  | .composite => "CompositeEffect"
  | .gaussianBlur => "GaussianBlurEffect"

inductive ValueKind where
  | scalar
  | vector2
  | vector3
  | vector4
  | color
  | boolean
  deriving DecidableEq, Repr

namespace ValueKind

def all : List ValueKind :=
  [.scalar, .vector2, .vector3, .vector4, .color, .boolean]

def name : ValueKind → String
  | .scalar => "Scalar"
  | .vector2 => "Vector2"
  | .vector3 => "Vector3"
  | .vector4 => "Vector4"
  | .color => "Color"
  | .boolean => "Boolean"

def insertMethod (kind : ValueKind) : String :=
  "Insert" ++ kind.name

/-- Every kind is stored as itself but colors, which expressions can only read as four numbers. -/
def canStore (stored exposed : ValueKind) : Bool :=
  match stored, exposed with
  | .scalar, .scalar | .vector2, .vector2 | .vector3, .vector3 | .vector4, .vector4
  | .boolean, .boolean | .vector4, .color => true
  | _, _ => false

end ValueKind

end Scenograph
