namespace Scenograph

class Scalar (α : Type) extends Add α, Sub α, Mul α, Div α, BEq α where
  ofNat : Nat → α

instance : Scalar Float where
  ofNat := Float.ofNat

structure Vector2 (α : Type) where
  x : α
  y : α
  deriving DecidableEq, Repr

structure Vector3 (α : Type) where
  x : α
  y : α
  z : α
  deriving DecidableEq, Repr

structure Vector4 (α : Type) where
  x : α
  y : α
  z : α
  w : α
  deriving DecidableEq, Repr

variable {α : Type}

/-- Vectors are equal when their scalars are, so that the two zeros of a double count as one. -/
instance [BEq α] : BEq (Vector2 α) where
  beq a b := a.x == b.x && a.y == b.y

namespace Vector2

variable [Scalar α]

def splat (a : α) : Vector2 α :=
  ⟨a, a⟩

def zero : Vector2 α :=
  splat (Scalar.ofNat 0)

def lerp (a b : Vector2 α) (t : α) : Vector2 α :=
  ⟨a.x + (b.x - a.x) * t, a.y + (b.y - a.y) * t⟩

def toVector3 (v : Vector2 α) : Vector3 α :=
  ⟨v.x, v.y, Scalar.ofNat 0⟩

end Vector2

def Vector3.zero [Scalar α] : Vector3 α :=
  ⟨Scalar.ofNat 0, Scalar.ofNat 0, Scalar.ofNat 0⟩

def Vector4.zero [Scalar α] : Vector4 α :=
  ⟨Scalar.ofNat 0, Scalar.ofNat 0, Scalar.ofNat 0, Scalar.ofNat 0⟩

end Scenograph
