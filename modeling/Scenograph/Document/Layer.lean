import Scenograph.Document.Value
import Scenograph.Layer.Asset
import Scenograph.Layer.Basic

namespace Scenograph

namespace Context

mutual

def toJson : Context Float → Json
  | .anchor a => .variant "Anchor" (a.toJson Vector2.toJson)
  | .opacity a => .variant "Opacity" (a.toJson .float)
  | .position a => .variant "Position" (a.toJson Vector2.toJson)
  | .rotation a => .variant "Rotation" (a.toJson .float)
  | .scale a => .variant "Scale" (a.toJson Vector2.toJson)
  | .blendMode mode => .variant "BlendMode" mode.toJson
  | .composite items => .variant "Composite" (.arr (allToJson items))

def allToJson : List (Context Float) → List Json
  | [] => []
  | c :: rest => toJson c :: allToJson rest

end

def leafDecoder : Decoder (Context Float) :=
  .oneOf
    [("Anchor", .content (.map .anchor (Animatable.decoder Vector2.decoder))),
      ("Opacity", .content (.map .opacity (Animatable.decoder .float))),
      ("Position", .content (.map .position (Animatable.decoder Vector2.decoder))),
      ("Rotation", .content (.map .rotation (Animatable.decoder .float))),
      ("Scale", .content (.map .scale (Animatable.decoder Vector2.decoder))),
      ("BlendMode", .content (.map .blendMode BlendMode.decoder))]

/-- A composite opens two brackets before its items, and so the levels left bound the recursion. -/
def decoder : Decoder (Context Float)
  | depth + 2, .obj [(some "Composite", .arr items)] => do
      return .composite (← items.mapM (decoder depth))
  | depth, v => leafDecoder depth v

end Context

namespace Transform

def toJson (t : Transform Float) : Json :=
  .record
    [("anchor", t.anchor.toJson Vector2.toJson), ("position", t.position.toJson Vector2.toJson),
      ("scale", t.scale.toJson Vector2.toJson), ("rotation", t.rotation.toJson .float),
      ("opacity", t.opacity.toJson .float)]

def decoder : Decoder (Transform Float) :=
  .record <| (Fields.start Transform.mk)
    |>.andThen (.required "anchor" (Animatable.decoder Vector2.decoder))
    |>.andThen (.required "position" (Animatable.decoder Vector2.decoder))
    |>.andThen (.required "scale" (Animatable.decoder Vector2.decoder))
    |>.andThen (.required "rotation" (Animatable.decoder .float))
    |>.andThen (.required "opacity" (Animatable.decoder .float))

end Transform

namespace Placement

def toJson (p : Placement Float) : Json :=
  .record
    [("index", .nat p.index), ("name", .text p.name), ("parent", .option .nat p.parent),
      ("in_frame", .float p.inFrame), ("out_frame", .float p.outFrame),
      ("start_frame", .float p.startFrame), ("time_stretch", .float p.timeStretch),
      ("transform", p.transform.toJson), ("blend_mode", p.blendMode.toJson)]

def decoder : Decoder (Placement Float) :=
  .record <| (Fields.start Placement.mk)
    |>.andThen (.required "index" .index)
    |>.andThen (.required "name" .string)
    |>.andThen (.optional "parent" .index)
    |>.andThen (.required "in_frame" .float)
    |>.andThen (.required "out_frame" .float)
    |>.andThen (.defaulted "start_frame" 0 .float)
    |>.andThen (.defaulted "time_stretch" 1 .float)
    |>.andThen (.defaulted "transform" .identity Transform.decoder)
    |>.andThen (.defaulted "blend_mode" .normal BlendMode.decoder)

end Placement

namespace LayerContent

def toJson : LayerContent → Json
  | .image id => .variant "Image" (.record [("asset_id", .text id)])
  | .null => .text "Null"
  | .solid width height color =>
      .variant "Solid"
        (.record [("width", .float width), ("height", .float height), ("color", color.toJson)])
  | .precomp id => .variant "PreComp" (.record [("composition_id", .text id)])
  | .shape => .text "Shape"

def decoder : Decoder LayerContent :=
  .oneOf
    [("Image", .content <| .record <| (Fields.start LayerContent.image)
        |>.andThen (.required "asset_id" .string)),
      ("Null", .plain .null),
      ("Solid", .content <| .record <| (Fields.start LayerContent.solid)
        |>.andThen (.required "width" .float)
        |>.andThen (.required "height" .float)
        |>.andThen (.required "color" Color.decoder)),
      ("PreComp", .content <| .record <| (Fields.start LayerContent.precomp)
        |>.andThen (.required "composition_id" .string)),
      ("Shape", .plain .shape)]

end LayerContent

namespace Layer

def toJson (layer : Layer Float) : Json :=
  .record [("args", layer.placement.toJson), ("content", layer.content.toJson)]

def decoder : Decoder (Layer Float) :=
  .record <| (Fields.start Layer.mk)
    |>.andThen (.required "args" Placement.decoder)
    |>.andThen (.required "content" LayerContent.decoder)

end Layer

namespace Asset

def toJson (a : Asset) : Json :=
  .record
    [("id", .text a.id), ("uri", .text a.uri), ("width", .float a.width),
      ("height", .float a.height)]

def decoder : Decoder Asset :=
  .record <| (Fields.start Asset.mk)
    |>.andThen (.required "id" .string)
    |>.andThen (.required "uri" .string)
    |>.andThen (.required "width" .float)
    |>.andThen (.required "height" .float)

end Asset

namespace Registry

def toJson (r : Registry) : Json :=
  .record [("assets", .record (r.entries.map fun e => (e.1, e.2.toJson)))]

/-- A registry keeps the keys of its document, which need not be the ids of the assets. -/
def decoder : Decoder Registry :=
  .record <| (Fields.start Catalog.ofList)
    |>.andThen (.required "assets" (.entries Asset.decoder))

end Registry

end Scenograph
