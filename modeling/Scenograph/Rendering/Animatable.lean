import Scenograph.Geometry
import Scenograph.Number.Binary

namespace Scenograph

inductive Easing (α : Type) where
  | linear
  | hold
  | cubicBezier (first second : Vector2 α)
  deriving DecidableEq, Repr, BEq, Inhabited

structure KeyFrame (α ν : Type) where
  frame : α
  value : ν
  easing : Easing α := .linear
  deriving DecidableEq, Repr, BEq

structure Animatable (α ν : Type) where
  initial : ν
  keyFrames : List (KeyFrame α ν)
  deriving DecidableEq, Repr, BEq

namespace Animatable

variable {α ν : Type}

def constant (value : ν) : Animatable α ν :=
  ⟨value, []⟩

def keyframed [Bits α] (frames : List (KeyFrame α ν)) : Option (Animatable α ν) :=
  match frames.mergeSort (fun a b => totalLe a.frame b.frame) with
  | [] => none
  | first :: rest => some ⟨first.value, first :: rest⟩

def isAnimated (a : Animatable α ν) : Bool :=
  decide (1 < a.keyFrames.length)

def isAlways [BEq ν] (a : Animatable α ν) (value : ν) : Bool :=
  if a.isAnimated then a.keyFrames.all (·.value == value) else a.initial == value

def shift [Scalar α] (a : Animatable α ν) (frames : α) : Animatable α ν :=
  if !a.isAnimated || frames == Scalar.ofNat 0 then a
  else { a with keyFrames := a.keyFrames.map fun k => { k with frame := k.frame + frames } }

end Animatable

end Scenograph
