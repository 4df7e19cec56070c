namespace Scenograph

inductive BlendMode where
  | normal
  | multiply
  | screen
  | overlay
  | darken
  | lighten
  | colorDodge
  | colorBurn
  | hardLight
  | softLight
  | difference
  | exclusion
  | hue
  | saturation
  | color
  | luminosity
  | add
  | hardMix
  deriving DecidableEq, Repr, Inhabited

namespace BlendMode

def all : List BlendMode :=
  [.normal, .multiply, .screen, .overlay, .darken, .lighten, .colorDodge, .colorBurn, .hardLight,
    .softLight, .difference, .exclusion, .hue, .saturation, .color, .luminosity, .add, .hardMix]

def name : BlendMode → String
  | .normal => "Normal"
  | .multiply => "Multiply"
  | .screen => "Screen"
  | .overlay => "Overlay"
  | .darken => "Darken"
  | .lighten => "Lighten"
  | .colorDodge => "ColorDodge"
  | .colorBurn => "ColorBurn"
  | .hardLight => "HardLight"
  | .softLight => "SoftLight"
  | .difference => "Difference"
  | .exclusion => "Exclusion"
  | .hue => "Hue"
  | .saturation => "Saturation"
  | .color => "Color"
  | .luminosity => "Luminosity"
  | .add => "Add"
  | .hardMix => "HardMix"

def isIdentity (mode : BlendMode) : Bool :=
  mode == .normal

end BlendMode

end Scenograph
