import Scenograph.BlendMode
import Scenograph.Rendering.Animatable

namespace Scenograph

inductive Context (α : Type) where
  | anchor (point : Animatable α (Vector2 α))
  | opacity (value : Animatable α α)
  | position (point : Animatable α (Vector2 α))
  | rotation (degrees : Animatable α α)
  | scale (percent : Animatable α (Vector2 α))
  | blendMode (mode : BlendMode)
  | composite (items : List (Context α))
  deriving Inhabited

namespace Context

variable {α : Type}

mutual

def same [BEq α] : Context α → Context α → Bool
  | .anchor a, .anchor b => a == b
  | .opacity a, .opacity b => a == b
  | .position a, .position b => a == b
  | .rotation a, .rotation b => a == b
  | .scale a, .scale b => a == b
  | .blendMode a, .blendMode b => a == b
  | .composite as, .composite bs => sameAll as bs
  | _, _ => false

def sameAll [BEq α] : List (Context α) → List (Context α) → Bool
  | [], [] => true
  | a :: as, b :: bs => same a b && sameAll as bs
  | _, _ => false

end

instance [BEq α] : BEq (Context α) := ⟨same⟩

def empty : Context α :=
  .composite []

def items : Context α → List (Context α)
  | .composite items => items
  | c => [c]

def ofItems : List (Context α) → Context α
  | [c] => c
  | items => .composite items

def compose (contexts : List (Context α)) : Context α :=
  ofItems (contexts.flatMap items)

instance : Add (Context α) where
  add a b := compose [a, b]

def kind : Context α → String
  | .anchor _ => "Anchor"
  | .opacity _ => "Opacity"
  | .position _ => "Position"
  | .rotation _ => "Rotation"
  | .scale _ => "Scale"
  | .blendMode _ => "BlendMode"
  | .composite _ => "Composite"

mutual

def isAnimated : Context α → Bool
  | .anchor a | .position a | .scale a => a.isAnimated
  | .opacity a | .rotation a => a.isAnimated
  | .blendMode _ => false
  | .composite items => anyAnimated items

def anyAnimated : List (Context α) → Bool
  | [] => false
  | c :: rest => isAnimated c || anyAnimated rest

end

section

variable [Scalar α]

mutual

def isDefault : Context α → Bool
  | .anchor a | .position a => a.isAlways Vector2.zero
  | .scale a => a.isAlways (Vector2.splat (Scalar.ofNat 100))
  | .opacity a => a.isAlways (Scalar.ofNat 1)
  | .rotation a => a.isAlways (Scalar.ofNat 0)
  | .blendMode mode => mode.isIdentity
  | .composite items => allDefault items

def allDefault : List (Context α) → Bool
  | [] => true
  | c :: rest => isDefault c && allDefault rest

end

mutual

def shift (frames : α) : Context α → Context α
  | .anchor a => .anchor (a.shift frames)
  | .opacity a => .opacity (a.shift frames)
  | .position a => .position (a.shift frames)
  | .rotation a => .rotation (a.shift frames)
  | .scale a => .scale (a.shift frames)
  | .blendMode mode => .blendMode mode
  | .composite items => .composite (shiftAll frames items)

def shiftAll (frames : α) : List (Context α) → List (Context α)
  | [] => []
  | c :: rest => shift frames c :: shiftAll frames rest

end

end

end Context

end Scenograph
