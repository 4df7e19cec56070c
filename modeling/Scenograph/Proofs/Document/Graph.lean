import Scenograph.Proofs.Composition.Bindings
import Scenograph.Proofs.Composition.Validity
import Scenograph.Proofs.Document.Parts

namespace Scenograph

namespace Bindings

open Decoder

theorem restores {set : Bindings} {bs : List Binding} (hset : ofList bs = .ok set)
    (h : ∀ b ∈ set.values, AllFinite b.numbers) (depth : Nat) :
    decoder.Restores (depth + 4) set.toJson set := by
  have hlist : (list Binding.decoder).Restores (depth + 4) (.list Binding.toJson set.values)
      set.values :=
    list_restores fun b hb => Binding.restores (h b hb) depth
  refine ⟨hlist.writable, ?_⟩
  rw [decoder, toJson, hlist.decodes, ok_bind, (built_of_ofList hset).ofList_values]
  rfl

theorem yields : decoder.Yields fun set =>
    (∃ bs, ofList bs = .ok set) ∧ ∀ b ∈ set.values, AllFinite b.numbers := by
  intro depth v set hset
  obtain ⟨bs, hbs, hset⟩ := bind_eq_ok.1 hset
  have hfinite := list_yields Binding.yields depth v bs hbs
  split at hset
  · next set' h =>
      cases hset
      exact ⟨⟨bs, h⟩, fun b hb => hfinite b (subset_of_ofList h hb)⟩
  · cases hset

end Bindings

namespace Graph

open Decoder Fields

def numbers (g : Graph) : List Float :=
  g.objects.flatMap CompositionObject.numbers ++ g.bindings.values.flatMap Binding.numbers

structure Storable (g : Graph) : Prop where
  objects : ∀ o ∈ g.objects, o.Storable
  root : ∀ i ∈ g.root, IsPosition i
  built : ∃ bs, Bindings.ofList bs = .ok g.bindings
  bindings : ∀ b ∈ g.bindings.values, AllFinite b.numbers

theorem restores {g : Graph} (h : g.Storable) (depth : Nat) :
    decoder.Restores (depth + 9) g.toJson g := by
  obtain ⟨bs, hbs⟩ := h.built
  refine record_restores ?_ (by decide) rfl
  exact (((start_restores Graph.mk _).field
    (list_restores fun o ho => CompositionObject.restores (h.objects o ho) depth)).field
    (nullable_restores (fun i hi => position_restores (h.root i hi)) nofun)).field
    (Bindings.restores hbs h.bindings _)

theorem yields : decoder.Yields Storable := by
  have hempty : Bindings.ofList [] = .ok Catalog.empty := rfl
  refine record_yields <| andThen_yields (defaulted_yields Bindings.yields
      ⟨⟨[], hempty⟩, by simp [Catalog.empty, Catalog.values]⟩) <|
    andThen_yields (defaulted_yields (nullable_yields position_yields) (by simp)) <|
    andThen_yields (required_yields (list_yields CompositionObject.yields)) <| start_yields ?_
  intro objects hobjects root hroot bindings hbindings
  exact ⟨hobjects, hroot, hbindings.1, hbindings.2⟩

theorem decodeIn_toTextIn {f : Json.Format} (hf : f.Faithful) {g : Graph} (h : g.Storable) :
    decoder.decodeIn f (g.toTextIn f) = .ok g := by
  have hg : decoder.Restores Json.maxDepth g.toJson g := restores h 118
  simp only [Decoder.decodeIn, toTextIn, hf g.toJson hg.writable, hg.decodes, ok_bind, if_true]

theorem storable_of_valid {g : Graph} (hg : g.validate = .ok ())
    (hbindings : ∃ bs, Bindings.ofList bs = .ok g.bindings) (hsize : g.size ≤ Nat.pow 2 64)
    (hnumbers : ∀ x ∈ g.numbers, x.isFinite = true) : g.Storable := by
  have hpresent : ∀ {i o}, g.objects[i]? = some o → IsPosition i := by
    intro i o ho
    obtain ⟨hi, -⟩ := List.getElem?_eq_some_iff.1 ho
    exact hi.trans_le hsize
  have hfinite : AllFinite g.numbers := hnumbers
  rw [numbers, allFinite_append, allFinite_flatMap, allFinite_flatMap] at hfinite
  refine ⟨fun o ho => ⟨hfinite.1 o ho, fun e he => ?_⟩, fun i hi => ?_, hbindings, hfinite.2⟩
  · obtain ⟨i, hi⟩ := List.mem_iff_getElem?.1 ho
    obtain ⟨target, htarget, -⟩ := edge_of_valid hg hi he
    exact hpresent htarget
  · obtain ⟨root, o, hroot, ho, -⟩ := root_of_valid hg
    rw [hroot] at hi
    cases hi
    exact hpresent ho

end Graph

theorem ofTextIn_toTextIn (f : Json.Format) (hf : f.Faithful) :
    (∀ g : Graph, g.validate = .ok () → (∃ bs, Bindings.ofList bs = .ok g.bindings) →
      g.size ≤ Nat.pow 2 64 → (∀ x ∈ g.numbers, x.isFinite = true) →
      Graph.ofTextIn f (g.toTextIn f) = .ok g)
    ∧ ∀ (s : String) (g : Graph), Graph.ofTextIn f s = .ok g →
        Graph.ofTextIn f (g.toTextIn f) = .ok g := by
  have hreads : ∀ {g : Graph}, g.Storable → g.validate = .ok () →
      Graph.ofTextIn f (g.toTextIn f) = .ok g := by
    intro g hstorable hvalid
    simp only [Graph.ofTextIn, Graph.decodeIn_toTextIn hf hstorable, hvalid]
  refine ⟨fun g hvalid hbindings hsize hnumbers =>
    hreads (Graph.storable_of_valid hvalid hbindings hsize hnumbers) hvalid, fun s g h => ?_⟩
  rw [Graph.ofTextIn] at h
  split at h
  · cases h
  · next hdecoded =>
      split at h
      · next hvalid =>
          cases h
          exact hreads (Graph.yields.decodeIn hdecoded) hvalid
      · cases h

def lampBindings (x y : Float) : List Binding :=
  [⟨"Tint", "Tint", .vector4, .color, .color ⟨x, y, x, y⟩⟩,
    ⟨"Glow", "\"Glow\"\n", .scalar, .scalar, .scalar x⟩]

def lampScene (x y : Float) : Graph where
  objects :=
    [.spriteVisual { offset := some ⟨x, y, y⟩, isVisible := some false } (some 1) [⟨"Opacity", 2⟩],
      .colorBrush ⟨x, x, y, y⟩ [],
      .expressionAnimation "theme.Glow" [⟨"theme", .theme⟩]]
  root := some 0
  bindings := ⟨[("Glow", ⟨"Glow", "\"Glow\"\n", .scalar, .scalar, .scalar x⟩),
    ("Tint", ⟨"Tint", "Tint", .vector4, .color, .color ⟨x, y, x, y⟩⟩)]⟩

def bareText : String :=
  "\x7b\"root\": 0, \"objects\": [\x7b\"ContainerVisual\": \x7b\x7d\x7d]\x7d"

def bareScene : Graph :=
  ⟨[.containerVisual {} [] []], some 0, Catalog.empty⟩

theorem ofTextIn_toTextIn_scenes :
    Json.Format.standard.Faithful
    ∧ Graph.ofText (lampScene 5e-324 (-0.1)).toText = .ok (lampScene 5e-324 (-0.1))
    ∧ Graph.ofText bareText = .ok bareScene ∧ Graph.ofText bareScene.toText = .ok bareScene := by
  have hvalid : ∀ x y : Float, (lampScene x y).validate = .ok () := by
    intro x y
    cbv
  have hbindings : ∀ x y : Float,
      Bindings.ofList (lampBindings x y) = .ok (lampScene x y).bindings := by
    intro x y
    cbv
  have hsize : 3 ≤ Nat.pow 2 64 := by decide
  have hnumbers : ∀ x ∈ (lampScene 5e-324 (-0.1)).numbers, x.isFinite = true := by decide +kernel
  have hdecoded : Graph.decoder.decodeIn .standard bareText = .ok bareScene := by decide +kernel
  have hbare : bareScene.validate = .ok () := by cbv
  have hread : Graph.ofTextIn .standard bareText = .ok bareScene := by
    simp only [Graph.ofTextIn, hdecoded, hbare]
  obtain ⟨hvalids, htexts⟩ := ofTextIn_toTextIn .standard Json.Format.standard_faithful
  exact ⟨Json.Format.standard_faithful, hvalids _ (hvalid _ _) ⟨_, hbindings _ _⟩ hsize hnumbers, hread,
    htexts _ _ hread⟩

end Scenograph
