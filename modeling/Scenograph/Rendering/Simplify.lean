import Scenograph.Rendering.Context

namespace Scenograph.Context

variable {α : Type} [Scalar α]

def isNeeded : Context α → Bool
  | .anchor a | .position a => a.isAnimated || !(a.initial == Vector2.zero)
  | .scale a => a.isAnimated || !(a.initial == Vector2.splat (Scalar.ofNat 100))
  | .rotation a => !a.isAlways (Scalar.ofNat 0)
  | .opacity a => !a.isAlways (Scalar.ofNat 1)
  | .blendMode _ | .composite _ => true

omit [Scalar α] in
def blendMode? : Context α → Option BlendMode
  | .blendMode mode => some mode
  | _ => none

omit [Scalar α] in
def lastBlendMode (items : List (Context α)) : Option BlendMode :=
  (items.filterMap blendMode?).getLast?

omit [Scalar α] in
def collapseBlendModes (items : List (Context α)) : List (Context α) :=
  let others := items.filter fun c => c.blendMode?.isNone
  match lastBlendMode items with
  | some mode => if mode.isIdentity then others else others ++ [.blendMode mode]
  | none => others

def simplify : Context α → Context α
  | .composite items => .composite (collapseBlendModes (items.filter isNeeded))
  | c => c

end Scenograph.Context
