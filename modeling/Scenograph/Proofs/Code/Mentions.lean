import Mathlib.Data.List.Basic
import Scenograph.Code.Member

namespace Scenograph

namespace Expr

def parts : Expr → List Expr
  | .var _ | .lit _ | .enumMember _ _ => []
  | .call receiver _ args => receiver :: args
  | .selfCall _ args | .staticCall _ _ args | .construct _ args => args
  | .property inner _ | .field inner _ | .notNull inner => [inner]

def ownType? : Expr → Option TypeRef
  | .lit value => value.type?.map .builtIn
  | .staticCall type _ _ | .construct type _ | .enumMember type _ => some type
  | _ => none

inductive Mentions : Expr → TypeRef → Prop where
  | own {e : Expr} {type : TypeRef} (h : e.ownType? = some type) : Mentions e type
  | part {e part : Expr} {type : TypeRef} (hpart : part ∈ e.parts) (h : Mentions part type) :
      Mentions e type

theorem allTypes_eq (es : List Expr) : allTypes es = es.flatMap types := by
  induction es with
  | nil => rfl
  | cons e es ih => rw [allTypes, ih, List.flatMap_cons]

theorem types_eq (e : Expr) : e.types = e.ownType?.toList ++ e.parts.flatMap types := by
  cases e with
  | lit value => cases h : value.type? <;> simp [types, ownType?, parts, h]
  | _ => simp [types, ownType?, parts, allTypes_eq]

theorem sizeOf_part {e part : Expr} (h : part ∈ e.parts) : sizeOf part < sizeOf e := by
  have harg : ∀ {args : List Expr}, part ∈ args → sizeOf part < sizeOf args :=
    List.sizeOf_lt_of_mem
  cases e with
  | var | lit | enumMember => cases h
  | call receiver method args =>
      simp only [call.sizeOf_spec]
      rcases List.mem_cons.1 h with rfl | h
      · omega
      · have := harg h
        omega
  | selfCall method args =>
      have : sizeOf part < sizeOf args := harg h
      simp only [selfCall.sizeOf_spec]
      omega
  | staticCall type method args =>
      have : sizeOf part < sizeOf args := harg h
      simp only [staticCall.sizeOf_spec]
      omega
  | construct type args =>
      have : sizeOf part < sizeOf args := harg h
      simp only [construct.sizeOf_spec]
      omega
  | property inner | field inner | notNull inner =>
      rw [List.mem_singleton.1 h]
      simp +arith

theorem mentions_of_mem {e : Expr} {type : TypeRef} (h : type ∈ e.types) : e.Mentions type := by
  rw [types_eq, List.mem_append, List.mem_flatMap, Option.mem_toList] at h
  rcases h with h | ⟨part, hpart, h⟩
  · exact .own h
  · exact .part hpart (mentions_of_mem h)
termination_by sizeOf e
decreasing_by exact sizeOf_part hpart

theorem mem_types {e : Expr} {type : TypeRef} : type ∈ e.types ↔ e.Mentions type := by
  refine ⟨mentions_of_mem, fun h => ?_⟩
  induction h with
  | own h =>
      rw [types_eq, List.mem_append, Option.mem_toList]
      exact .inl h
  | part hpart _ ih =>
      rw [types_eq, List.mem_append, List.mem_flatMap]
      exact .inr ⟨_, hpart, ih⟩

end Expr

namespace Statement

def ownType? : Statement → Option TypeRef
  | .declare type _ _ => some type
  | _ => none

inductive Mentions : Statement → TypeRef → Prop where
  | own {s : Statement} {type : TypeRef} (h : s.ownType? = some type) : Mentions s type
  | part {s : Statement} {e : Expr} {type : TypeRef} (he : e ∈ s.expressions)
      (h : e.Mentions type) : Mentions s type

theorem types_eq (s : Statement) :
    s.types = s.ownType?.toList ++ s.expressions.flatMap Expr.types := by
  cases s with
  | ret value => cases value <;> simp [types, ownType?, expressions]
  | _ => simp [types, ownType?, expressions]

theorem mem_types {s : Statement} {type : TypeRef} : type ∈ s.types ↔ s.Mentions type := by
  rw [types_eq, List.mem_append, List.mem_flatMap, Option.mem_toList]
  constructor
  · rintro (h | ⟨e, he, h⟩)
    · exact .own h
    · exact .part he (Expr.mem_types.1 h)
  · rintro (h | ⟨he, h⟩)
    · exact .inl h
    · exact .inr ⟨_, he, Expr.mem_types.2 h⟩

end Statement

namespace Node

inductive Mentions : Node → TypeRef → Prop where
  | stmt {s : Statement} {type : TypeRef} (h : s.Mentions type) : Mentions (.stmt s) type
  | guard {guard : Expr} {nodes : List Node} {type : TypeRef} (h : guard.Mentions type) :
      Mentions (.block (some guard) nodes) type
  | inner {guard : Option Expr} {nodes : List Node} {n : Node} {type : TypeRef} (hn : n ∈ nodes)
      (h : Mentions n type) : Mentions (.block guard nodes) type

theorem allTypes_eq (ns : List Node) : allTypes ns = ns.flatMap types := by
  induction ns with
  | nil => rfl
  | cons n ns ih => rw [allTypes, ih, List.flatMap_cons]

theorem mem_guardTypes {guard : Option Expr} {type : TypeRef} :
    type ∈ guardTypes guard ↔ ∃ e ∈ guard, e.Mentions type := by
  simp only [guardTypes, List.mem_flatMap, Option.mem_toList, Expr.mem_types, Option.mem_def]

theorem mem_block {guard : Option Expr} {nodes : List Node} {type : TypeRef} :
    type ∈ (block guard nodes).types
      ↔ (∃ e ∈ guard, e.Mentions type) ∨ ∃ n ∈ nodes, type ∈ n.types := by
  rw [types, List.mem_append, mem_guardTypes, allTypes_eq, List.mem_flatMap]

theorem mentions_of_mem {type : TypeRef} : (n : Node) → type ∈ n.types → n.Mentions type
  | .stmt s, h => by
      rw [types] at h
      exact .stmt (Statement.mem_types.1 h)
  | .block guard nodes, h => by
      rcases mem_block.1 h with ⟨e, rfl, he⟩ | ⟨n, hn, hmem⟩
      · exact .guard he
      · exact .inner hn (mentions_of_mem n hmem)

theorem mem_types {n : Node} {type : TypeRef} : type ∈ n.types ↔ n.Mentions type := by
  refine ⟨mentions_of_mem n, fun h => ?_⟩
  induction h with
  | stmt h =>
      rw [types]
      exact Statement.mem_types.2 h
  | guard h => exact mem_block.2 (.inl ⟨_, rfl, h⟩)
  | inner hn _ ih => exact mem_block.2 (.inr ⟨_, hn, ih⟩)

end Node

inductive Tree.Mentions (t : Tree) (type : TypeRef) : Prop where
  | guard {e : Expr} (he : e ∈ t.guard) (h : e.Mentions type) : Mentions t type
  | node {n : Node} (hn : n ∈ t.nodes) (h : n.Mentions type) : Mentions t type

theorem Tree.mem_types {t : Tree} {type : TypeRef} : type ∈ t.types ↔ t.Mentions type := by
  rw [types, List.mem_append, Node.mem_guardTypes, Node.allTypes_eq, List.mem_flatMap]
  constructor
  · rintro (⟨e, he, h⟩ | ⟨n, hn, h⟩)
    · exact .guard he h
    · exact .node hn (Node.mem_types.1 h)
  · rintro (⟨he, h⟩ | ⟨hn, h⟩)
    · exact .inl ⟨_, he, h⟩
    · exact .inr ⟨_, hn, Node.mem_types.2 h⟩

namespace ClassUnit

inductive Mentions (u : ClassUnit) : TypeRef → Prop where
  | field {f : Field} (hf : f ∈ u.fields) : Mentions u f.type
  | init {f : Field} {e : Expr} {type : TypeRef} (hf : f ∈ u.fields) (he : e ∈ f.init)
      (h : e.Mentions type) : Mentions u type
  | returns {m : Method} (hm : m ∈ u.methods) : Mentions u m.returns
  | parameter {m : Method} {p : Parameter} (hm : m ∈ u.methods) (hp : p ∈ m.parameters) :
      Mentions u p.type
  | body {m : Method} {type : TypeRef} (hm : m ∈ u.methods) (h : m.body.Mentions type) :
      Mentions u type
  | accessor {a : Accessor} (ha : a ∈ u.accessors) : Mentions u a.type
  | setter {a : Accessor} {type : TypeRef} (ha : a ∈ u.accessors) (h : a.setter.Mentions type) :
      Mentions u type

theorem mem_types {u : ClassUnit} {type : TypeRef} : type ∈ u.types ↔ u.Mentions type := by
  simp only [types, List.mem_append, List.mem_flatMap]
  constructor
  · rintro ((⟨f, hf, h⟩ | ⟨m, hm, h⟩) | ⟨a, ha, h⟩)
    · rcases List.mem_cons.1 h with rfl | h
      · exact .field hf
      · obtain ⟨e, he, h⟩ := Node.mem_guardTypes.1 h
        exact .init hf he h
    · rcases List.mem_cons.1 h with rfl | h
      · exact .returns hm
      · rcases List.mem_append.1 h with h | h
        · obtain ⟨p, hp, rfl⟩ := List.mem_map.1 h
          exact .parameter hm hp
        · exact .body hm (Tree.mem_types.1 h)
    · rcases List.mem_cons.1 h with rfl | h
      · exact .accessor ha
      · exact .setter ha (Tree.mem_types.1 h)
  · intro h
    cases h with
    | field hf => exact .inl (.inl ⟨_, hf, List.mem_cons_self ..⟩)
    | init hf he h =>
        exact .inl (.inl ⟨_, hf, List.mem_cons_of_mem _ (Node.mem_guardTypes.2 ⟨_, he, h⟩)⟩)
    | returns hm => exact .inl (.inr ⟨_, hm, List.mem_cons_self ..⟩)
    | parameter hm hp =>
        refine .inl (.inr ⟨_, hm, List.mem_cons_of_mem _ (List.mem_append_left _ ?_)⟩)
        exact List.mem_map_of_mem hp
    | body hm h =>
        refine .inl (.inr ⟨_, hm, List.mem_cons_of_mem _ (List.mem_append_right _ ?_)⟩)
        exact Tree.mem_types.2 h
    | accessor ha => exact .inr ⟨_, ha, List.mem_cons_self ..⟩
    | setter ha h => exact .inr ⟨_, ha, List.mem_cons_of_mem _ (Tree.mem_types.2 h)⟩

end ClassUnit

end Scenograph
