import Scenograph.BlendMode
import Scenograph.Color
import Scenograph.Geometry
import Scenograph.Json.Decode
import Scenograph.Rendering.Animatable

namespace Scenograph

def Decoder.position : Decoder Nat :=
  Decoder.natBelow (Nat.pow 2 64)

def Decoder.index : Decoder Nat :=
  Decoder.natBelow (Nat.pow 2 32)

namespace Vector2

def toJson (v : Vector2 Float) : Json :=
  .record [("x", .float v.x), ("y", .float v.y)]

def decoder : Decoder (Vector2 Float) :=
  .record <| (Fields.start Vector2.mk)
    |>.andThen (.required "x" .float)
    |>.andThen (.required "y" .float)

end Vector2

namespace Vector3

def toJson (v : Vector3 Float) : Json :=
  .record [("x", .float v.x), ("y", .float v.y), ("z", .float v.z)]

def decoder : Decoder (Vector3 Float) :=
  .record <| (Fields.start Vector3.mk)
    |>.andThen (.required "x" .float)
    |>.andThen (.required "y" .float)
    |>.andThen (.required "z" .float)

end Vector3

namespace Vector4

def toJson (v : Vector4 Float) : Json :=
  .record [("x", .float v.x), ("y", .float v.y), ("z", .float v.z), ("w", .float v.w)]

def decoder : Decoder (Vector4 Float) :=
  .record <| (Fields.start Vector4.mk)
    |>.andThen (.required "x" .float)
    |>.andThen (.required "y" .float)
    |>.andThen (.required "z" .float)
    |>.andThen (.required "w" .float)

end Vector4

namespace Color

def toJson (c : Color) : Json :=
  .record [("r", .float c.red), ("g", .float c.green), ("b", .float c.blue), ("a", .float c.alpha)]

def decoder : Decoder Color :=
  .record <| (Fields.start Color.mk)
    |>.andThen (.required "r" .float)
    |>.andThen (.required "g" .float)
    |>.andThen (.required "b" .float)
    |>.andThen (.required "a" .float)

end Color

namespace BlendMode

def toJson (mode : BlendMode) : Json :=
  .text mode.name

def decoder : Decoder BlendMode :=
  .named name all

end BlendMode

namespace Easing

def toJson : Easing Float → Json
  | .linear => .text "Linear"
  | .hold => .text "Hold"
  | .cubicBezier first second =>
      .variant "CubicBezier" (.record [("cp1", first.toJson), ("cp2", second.toJson)])

def decoder : Decoder (Easing Float) :=
  .oneOf
    [("Linear", .plain .linear),
      ("Hold", .plain .hold),
      ("CubicBezier", .content <| .record <| (Fields.start Easing.cubicBezier)
        |>.andThen (.required "cp1" Vector2.decoder)
        |>.andThen (.required "cp2" Vector2.decoder))]

end Easing

namespace KeyFrame

variable {ν : Type}

def toJson (value : ν → Json) (k : KeyFrame Float ν) : Json :=
  .record [("frame", .float k.frame), ("value", value k.value), ("easing", k.easing.toJson)]

def decoder (value : Decoder ν) : Decoder (KeyFrame Float ν) :=
  .record <| (Fields.start KeyFrame.mk)
    |>.andThen (.required "frame" .float)
    |>.andThen (.required "value" value)
    |>.andThen (.defaulted "easing" .linear Easing.decoder)

end KeyFrame

namespace Animatable

variable {ν : Type}

def toJson (value : ν → Json) (a : Animatable Float ν) : Json :=
  .record
    [("initial_value", value a.initial), ("keyframes", .list (KeyFrame.toJson value) a.keyFrames)]

def decoder (value : Decoder ν) : Decoder (Animatable Float ν) :=
  .record <| (Fields.start Animatable.mk)
    |>.andThen (.required "initial_value" value)
    |>.andThen (.defaulted "keyframes" [] (.list (KeyFrame.decoder value)))

end Animatable

end Scenograph
