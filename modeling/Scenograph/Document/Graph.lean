import Scenograph.Composition.Check
import Scenograph.Document.Value

namespace Scenograph

namespace ValueKind

def toJson (kind : ValueKind) : Json :=
  .text kind.name

def decoder : Decoder ValueKind :=
  .named name all

end ValueKind

namespace PropertyValue

def toJson : PropertyValue → Json
  | .scalar x => .variant "Scalar" (.float x)
  | .vector2 v => .variant "Vector2" v.toJson
  | .vector3 v => .variant "Vector3" v.toJson
  | .vector4 v => .variant "Vector4" v.toJson
  | .color c => .variant "Color" c.toJson
  | .boolean b => .variant "Boolean" (.bool b)

def decoder : Decoder PropertyValue :=
  .oneOf
    [("Scalar", .content (.map .scalar .float)),
      ("Vector2", .content (.map .vector2 Vector2.decoder)),
      ("Vector3", .content (.map .vector3 Vector3.decoder)),
      ("Vector4", .content (.map .vector4 Vector4.decoder)),
      ("Color", .content (.map .color Color.decoder)),
      ("Boolean", .content (.map .boolean .bool))]

end PropertyValue

namespace Binding

def toJson (b : Binding) : Json :=
  .record
    [("binding_name", .text b.name), ("display_name", .text b.displayName),
      ("stored_type", b.stored.toJson), ("exposed_type", b.exposed.toJson),
      ("default_value", b.default.toJson)]

def decoder : Decoder Binding :=
  .record <| (Fields.start Binding.mk)
    |>.andThen (.required "binding_name" .string)
    |>.andThen (.required "display_name" .string)
    |>.andThen (.required "stored_type" ValueKind.decoder)
    |>.andThen (.required "exposed_type" ValueKind.decoder)
    |>.andThen (.required "default_value" PropertyValue.decoder)

end Binding

namespace Bindings

def toJson (set : Bindings) : Json :=
  .list Binding.toJson set.values

def decoder : Decoder Bindings := fun depth v => do
  let bindings ← Decoder.list Binding.decoder depth v
  match Bindings.ofList bindings with
  | .ok set => return set
  | .error fault => throw (.faulty fault)

end Bindings

namespace CompositeMode

def toJson (mode : CompositeMode) : Json :=
  .text mode.name

def decoder : Decoder CompositeMode :=
  .named name all

end CompositeMode

namespace Effect

def sourceToJson (name : String) : Json :=
  .record [("name", .text name)]

def sourceDecoder : Decoder String :=
  .record <| (Fields.start id).andThen (.required "name" .string)

def toJson : Effect → Json
  | .composite mode sources =>
      .variant "Composite" (.record [("mode", mode.toJson), ("sources", .list sourceToJson sources)])
  | .gaussianBlur amount source =>
      .variant "GaussianBlur"
        (.record [("blur_amount", .option .float amount), ("source", .option sourceToJson source)])

def decoder : Decoder Effect :=
  .oneOf
    [("Composite", .content <| .record <| (Fields.start Effect.composite)
        |>.andThen (.defaulted "mode" .sourceOver CompositeMode.decoder)
        |>.andThen (.defaulted "sources" [] (.list sourceDecoder))),
      ("GaussianBlur", .content <| .record <| (Fields.start Effect.gaussianBlur)
        |>.andThen (.nullable "blur_amount" .float)
        |>.andThen (.nullable "source" sourceDecoder))]

end Effect

namespace VisualProperties

def toJson (p : VisualProperties Float) : Json :=
  .record
    [("center_point", .option Vector3.toJson p.centerPoint),
      ("offset", .option Vector3.toJson p.offset),
      ("size", .option Vector2.toJson p.size),
      ("opacity", .option .float p.opacity),
      ("rotation_angle_in_degrees", .option .float p.rotation),
      ("scale", .option Vector3.toJson p.scale),
      ("is_visible", .option .bool p.isVisible)]

def decoder : Decoder (VisualProperties Float) :=
  .record <| (Fields.start VisualProperties.mk)
    |>.andThen (.nullable "center_point" Vector3.decoder)
    |>.andThen (.nullable "offset" Vector3.decoder)
    |>.andThen (.nullable "size" Vector2.decoder)
    |>.andThen (.nullable "opacity" .float)
    |>.andThen (.nullable "rotation_angle_in_degrees" .float)
    |>.andThen (.nullable "scale" Vector3.decoder)
    |>.andThen (.nullable "is_visible" .bool)

end VisualProperties

namespace Animator

def toJson (a : Animator) : Json :=
  .record [("property", .text a.property), ("animation", .nat a.animation)]

def decoder : Decoder Animator :=
  .record <| (Fields.start Animator.mk)
    |>.andThen (.required "property" .string)
    |>.andThen (.required "animation" .position)

end Animator

namespace ProgressFrame

variable {ν : Type}

def toJson (value : ν → Json) (k : ProgressFrame ν) : Json :=
  .record [("progress", .float k.progress), ("value", value k.value), ("easing", k.easing.toJson)]

def decoder (value : Decoder ν) : Decoder (ProgressFrame ν) :=
  .record <| (Fields.start ProgressFrame.mk)
    |>.andThen (.required "progress" .float)
    |>.andThen (.required "value" value)
    |>.andThen (.defaulted "easing" .linear Easing.decoder)

end ProgressFrame

namespace Reference

def toJson : Reference → Json
  | .node id => .variant "Node" (.nat id)
  | .theme => .text "ThemeProperties"

def decoder : Decoder Reference :=
  .oneOf
    [("Node", .content (.map .node .position)), ("ThemeProperties", .plain .theme)]

end Reference

namespace NamedReference

def toJson (r : NamedReference) : Json :=
  .record [("name", .text r.name), ("target", r.target.toJson)]

def decoder : Decoder NamedReference :=
  .record <| (Fields.start NamedReference.mk)
    |>.andThen (.required "name" .string)
    |>.andThen (.required "target" Reference.decoder)

end NamedReference

namespace BoundSource

def toJson (s : BoundSource) : Json :=
  .record [("name", .text s.name), ("brush", .nat s.brush)]

def decoder : Decoder BoundSource :=
  .record <| (Fields.start BoundSource.mk)
    |>.andThen (.required "name" .string)
    |>.andThen (.required "brush" .position)

end BoundSource

namespace CompositionObject

def toJson : CompositionObject → Json
  | .containerVisual properties children animators =>
      .variant "ContainerVisual" (.record
        [("properties", properties.toJson), ("children", .list .nat children),
          ("animators", .list Animator.toJson animators)])
  | .spriteVisual properties brush animators =>
      .variant "SpriteVisual" (.record
        [("properties", properties.toJson), ("brush", .option .nat brush),
          ("animators", .list Animator.toJson animators)])
  | .colorBrush color animators =>
      .variant "ColorBrush" (.record
        [("color", color.toJson), ("animators", .list Animator.toJson animators)])
  | .effectBrush effect sources =>
      .variant "EffectBrush" (.record
        [("effect", effect.toJson), ("sources", .list BoundSource.toJson sources)])
  | .surfaceBrush surface => .variant "SurfaceBrush" (.record [("surface", .nat surface)])
  | .imageSurface assetId uri =>
      .variant "LoadedImageSurface" (.record [("asset_id", .text assetId), ("uri", .text uri)])
  | .scalarAnimation keyFrames =>
      .variant "ScalarKeyFrameAnimation" (.record
        [("keyframes", .list (ProgressFrame.toJson .float) keyFrames)])
  | .vector2Animation keyFrames =>
      .variant "Vector2KeyFrameAnimation" (.record
        [("keyframes", .list (ProgressFrame.toJson Vector2.toJson) keyFrames)])
  | .expressionAnimation expression references =>
      .variant "ExpressionAnimation" (.record
        [("expression", .text expression),
          ("references", .list NamedReference.toJson references)])

def animatorsField : Fields (List Animator) :=
  .defaulted "animators" [] (.list Animator.decoder)

def propertiesField : Fields (VisualProperties Float) :=
  .defaulted "properties" {} VisualProperties.decoder

def decoder : Decoder CompositionObject :=
  .oneOf
    [("ContainerVisual", .content <| .record <| (Fields.start containerVisual)
        |>.andThen propertiesField
        |>.andThen (.defaulted "children" [] (.list .position))
        |>.andThen animatorsField),
      ("SpriteVisual", .content <| .record <| (Fields.start spriteVisual)
        |>.andThen propertiesField
        |>.andThen (.nullable "brush" .position)
        |>.andThen animatorsField),
      ("ColorBrush", .content <| .record <| (Fields.start colorBrush)
        |>.andThen (.required "color" Color.decoder)
        |>.andThen animatorsField),
      ("EffectBrush", .content <| .record <| (Fields.start effectBrush)
        |>.andThen (.required "effect" Effect.decoder)
        |>.andThen (.defaulted "sources" [] (.list BoundSource.decoder))),
      ("SurfaceBrush", .content <| .record <| (Fields.start surfaceBrush)
        |>.andThen (.required "surface" .position)),
      ("LoadedImageSurface", .content <| .record <| (Fields.start imageSurface)
        |>.andThen (.required "asset_id" .string)
        |>.andThen (.required "uri" .string)),
      ("ScalarKeyFrameAnimation", .content <| .record <| (Fields.start scalarAnimation)
        |>.andThen (.required "keyframes" (.list (ProgressFrame.decoder .float)))),
      ("Vector2KeyFrameAnimation", .content <| .record <| (Fields.start vector2Animation)
        |>.andThen (.required "keyframes" (.list (ProgressFrame.decoder Vector2.decoder)))),
      ("ExpressionAnimation", .content <| .record <| (Fields.start expressionAnimation)
        |>.andThen (.required "expression" .string)
        |>.andThen (.defaulted "references" [] (.list NamedReference.decoder)))]

end CompositionObject

namespace Graph

def toJson (g : Graph) : Json :=
  .record
    [("objects", .list CompositionObject.toJson g.objects), ("root", .option .nat g.root),
      ("bindings", g.bindings.toJson)]

def decoder : Decoder Graph :=
  .record <| (Fields.start Graph.mk)
    |>.andThen (.required "objects" (.list CompositionObject.decoder))
    |>.andThen (.nullable "root" .position)
    |>.andThen (.defaulted "bindings" Catalog.empty Bindings.decoder)

def toTextIn (f : Json.Format) (g : Graph) : String :=
  f.print g.toJson

def toText (g : Graph) : String :=
  g.toTextIn .standard

inductive TextFault where
  | refused (why : Refusal)
  | invalid (fault : Fault)
  deriving DecidableEq, Repr

def ofTextIn (f : Json.Format) (text : String) : Except TextFault Graph :=
  match decoder.decodeIn f text with
  | .error why => .error (.refused why)
  | .ok g =>
      match g.validate with
      | .ok () => .ok g
      | .error fault => .error (.invalid fault)

def ofText (text : String) : Except TextFault Graph :=
  ofTextIn .standard text

end Graph

end Scenograph
