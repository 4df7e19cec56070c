import Mathlib.Data.Finset.Card
import Mathlib.Tactic.Tauto
import Scenograph.Layer.Check

namespace Scenograph

def Fault.flaw? : Fault → Option Flaw
  | .structural _ flaw => some flaw
  | _ => none

namespace Layer

variable {layers : List (Layer Float)} {assets : Registry}

def HangsOn (layers : List (Layer Float)) (layer parent : Layer Float) : Prop :=
  parent ∈ layers ∧ layer.placement.parent = some parent.index

def Endless (layers : List (Layer Float)) (layer : Layer Float) : Prop :=
  ∀ other, Relation.ReflTransGen (HangsOn layers) layer other → ∃ parent, HangsOn layers other parent

section Distinct

variable (hdistinct : (layers.map index).Nodup)

include hdistinct

theorem eq_of_index_eq {a b : Layer Float} (ha : a ∈ layers) (hb : b ∈ layers)
    (h : a.index = b.index) : a = b :=
  List.inj_on_of_nodup_map hdistinct ha hb h

theorem ofIndex?_index {layer : Layer Float} (h : layer ∈ layers) :
    ofIndex? layers layer.index = some layer := by
  have hsome : (ofIndex? layers layer.index).isSome = true :=
    List.find?_isSome.2 ⟨layer, List.mem_reverse.2 h, by simp⟩
  obtain ⟨found, hfound⟩ := Option.isSome_iff_exists.1 hsome
  obtain ⟨hmem, hindex⟩ := index_of_ofIndex? hfound
  rw [hfound, eq_of_index_eq hdistinct hmem h hindex]

theorem parentOf_index {layer : Layer Float} (h : layer ∈ layers) :
    parentOf layers layer.index = layer.placement.parent := by
  rw [parentOf, ofIndex?_index hdistinct h, Option.bind_some]

end Distinct

theorem ofIndex?_eq_none {index : Nat} :
    ofIndex? layers index = none ↔ ∀ layer ∈ layers, layer.index ≠ index := by
  simp [ofIndex?]

theorem comesBack_of_none {passed : List Nat} {index : Nat} (h : ofIndex? layers index = none) :
    comesBack layers passed (parentOf layers index) = false := by
  rw [parentOf, h, Option.bind_none, comesBack]

/-- What following parents has passed: layers, each with a parent that was passed too or is next. -/
structure Climbed (layers : List (Layer Float)) (passed : List Nat) (next : Option Nat) : Prop where
  known : ∀ index ∈ passed, ∃ layer ∈ layers, layer.index = index
  parents : ∀ layer ∈ layers, layer.index ∈ passed →
    layer.placement.parent = next ∨ ∃ index ∈ passed, layer.placement.parent = some index

theorem Climbed.start (hdistinct : (layers.map index).Nodup) {layer : Layer Float}
    (h : layer ∈ layers) : Climbed layers [layer.index] layer.placement.parent where
  known := by
    intro index hindex
    exact ⟨layer, h, (List.mem_singleton.1 hindex).symm⟩
  parents := by
    intro other hother hindex
    rw [eq_of_index_eq hdistinct hother h (List.mem_singleton.1 hindex)]
    exact .inl rfl

theorem Climbed.step (hdistinct : (layers.map index).Nodup) {passed : List Nat} {index : Nat}
    {layer : Layer Float} (h : Climbed layers passed (some index)) (hlayer : layer ∈ layers)
    (hindex : layer.index = index) :
    Climbed layers (index :: passed) (parentOf layers index) where
  known := by
    intro i hi
    rcases List.mem_cons.1 hi with rfl | hi
    · exact ⟨layer, hlayer, hindex⟩
    · exact h.known i hi
  parents := by
    intro other hother hi
    rcases List.mem_cons.1 hi with heq | hi
    · rw [← heq, parentOf_index hdistinct hother]
      exact .inl rfl
    · rcases h.parents other hother hi with hnext | ⟨i, hi, hparent⟩
      · exact .inr ⟨index, List.mem_cons_self .., hnext⟩
      · exact .inr ⟨i, List.mem_cons_of_mem _ hi, hparent⟩

theorem Climbed.endless {passed : List Nat} {index : Nat} {layer : Layer Float}
    (h : Climbed layers passed (some index)) (hindex : index ∈ passed) (hlayer : layer ∈ layers)
    (hpassed : layer.index ∈ passed) : Endless layers layer := by
  have hup : ∀ a ∈ layers, a.index ∈ passed → ∃ b, HangsOn layers a b ∧ b.index ∈ passed := by
    intro a ha hi
    obtain ⟨i, hi, hparent⟩ : ∃ i ∈ passed, a.placement.parent = some i := by
      rcases h.parents a ha hi with hnext | hparent
      · exact ⟨index, hindex, hnext⟩
      · exact hparent
    obtain ⟨b, hb, rfl⟩ := h.known i hi
    exact ⟨b, ⟨hb, hparent⟩, hi⟩
  intro other hpath
  have hother : other ∈ layers ∧ other.index ∈ passed := by
    induction hpath with
    | refl => exact ⟨hlayer, hpassed⟩
    | @tail a b _ hab ih =>
        obtain ⟨c, hac, hc⟩ := hup a ih.1 ih.2
        have heq : c.index = b.index := Option.some.inj (hac.2.symm.trans hab.2)
        exact ⟨hab.1, heq ▸ hc⟩
  obtain ⟨parent, hparent, _⟩ := hup other hother.1 hother.2
  exact ⟨parent, hparent⟩

theorem endless_of_comesBack (hdistinct : (layers.map index).Nodup) {passed : List Nat}
    {next : Option Nat} {layer : Layer Float} (hback : comesBack layers passed next = true)
    (h : Climbed layers passed next) (hlayer : layer ∈ layers) (hpassed : layer.index ∈ passed) :
    Endless layers layer := by
  fun_induction comesBack layers passed next with
  | case1 passed => cases hback
  | case2 passed index hindex => exact h.endless (by simpa using hindex) hlayer hpassed
  | case3 passed index _ ih =>
      cases hfound : ofIndex? layers index with
      | none =>
          rw [comesBack_of_none hfound] at hback
          cases hback
      | some found =>
          obtain ⟨hmem, hindex⟩ := index_of_ofIndex? hfound
          exact ih hback (h.step hdistinct hmem hindex) (List.mem_cons_of_mem _ hpassed)

theorem not_endless_of_comesBack (hdistinct : (layers.map index).Nodup) {passed : List Nat}
    {next : Option Nat} {layer last : Layer Float} (hback : comesBack layers passed next = false)
    (hpath : Relation.ReflTransGen (HangsOn layers) layer last)
    (hlast : last.placement.parent = next) : ¬ Endless layers layer := by
  intro hendless
  fun_induction comesBack layers passed next generalizing last with
  | case1 passed =>
      obtain ⟨parent, _, hparent⟩ := hendless last hpath
      rw [hlast] at hparent
      cases hparent
  | case2 passed index _ => cases hback
  | case3 passed index _ ih =>
      obtain ⟨parent, hmem, hparent⟩ := hendless last hpath
      have hindex : index = parent.index := Option.some.inj (hlast.symm.trans hparent)
      subst hindex
      exact ih hback (hpath.tail ⟨hmem, hparent⟩) (parentOf_index hdistinct hmem).symm

theorem comesBack_iff_endless (hdistinct : (layers.map index).Nodup) {layer : Layer Float}
    (h : layer ∈ layers) :
    comesBack layers [layer.index] layer.placement.parent = true ↔ Endless layers layer := by
  constructor
  · intro hback
    exact endless_of_comesBack hdistinct hback (.start hdistinct h) h (List.mem_singleton_self _)
  · intro hendless
    by_contra hback
    rw [Bool.not_eq_true] at hback
    exact not_endless_of_comesBack hdistinct hback .refl rfl hendless

theorem parentFlaw?_of_missing {layer : Layer Float} {parent : Nat}
    (hparent : layer.placement.parent = some parent) (h : ofIndex? layers parent = none) :
    parentFlaw? layers layer = some (.missingParent parent) := by
  simp [parentFlaw?, hparent, h]

theorem parentFlaw?_of_found {layer found : Layer Float} {parent : Nat}
    (hparent : layer.placement.parent = some parent) (h : ofIndex? layers parent = some found) :
    parentFlaw? layers layer
      = if comesBack layers [layer.index] layer.placement.parent then some .parentCycle else none := by
  simp [parentFlaw?, hparent, h]

theorem parentFlaw?_eq_some {layer : Layer Float} {flaw : Flaw}
    (h : parentFlaw? layers layer = some flaw) :
    (∃ parent, flaw = .missingParent parent) ∨ flaw = .parentCycle := by
  unfold parentFlaw? at h
  split at h
  · cases h
  · split at h
    · exact .inl ⟨_, (Option.some.inj h).symm⟩
    · split at h
      · exact .inr (Option.some.inj h).symm
      · cases h

theorem parentFlaw?_eq_parentCycle (hdistinct : (layers.map index).Nodup) {layer : Layer Float}
    (h : layer ∈ layers) : parentFlaw? layers layer = some .parentCycle ↔ Endless layers layer := by
  cases hparent : layer.placement.parent with
  | none =>
      have hends : ¬ Endless layers layer := fun hendless => by
        obtain ⟨_, _, hup⟩ := hendless layer .refl
        simp [hparent] at hup
      simp [parentFlaw?, hparent, hends]
  | some parent =>
      cases hfound : ofIndex? layers parent with
      | none =>
          have hends : ¬ Endless layers layer := fun hendless => by
            obtain ⟨other, hmem, hup⟩ := hendless layer .refl
            rw [hparent, Option.some.injEq] at hup
            exact ofIndex?_eq_none.1 hfound other hmem hup.symm
          simp [parentFlaw?_of_missing hparent hfound, hends]
      | some found =>
          rw [parentFlaw?_of_found hparent hfound, ← comesBack_iff_endless hdistinct h]
          simp

theorem parentFlaw?_eq_none (hdistinct : (layers.map index).Nodup) {layer : Layer Float}
    (h : layer ∈ layers) : parentFlaw? layers layer = none ↔
      (∀ parent, layer.placement.parent = some parent → ∃ other ∈ layers, other.index = parent)
        ∧ ¬ Endless layers layer := by
  rw [← parentFlaw?_eq_parentCycle hdistinct h]
  cases hparent : layer.placement.parent with
  | none => simp [parentFlaw?, hparent]
  | some parent =>
      cases hfound : ofIndex? layers parent with
      | none => simpa [parentFlaw?_of_missing hparent hfound] using ofIndex?_eq_none.1 hfound
      | some found =>
          obtain ⟨hmem, rfl⟩ := index_of_ofIndex? hfound
          rw [parentFlaw?_of_found hparent hfound]
          split
          · simp
          · simpa using ⟨found, hmem, rfl⟩

theorem ownFlaws_eq_nil {earlier : List Nat} {layer : Layer Float} :
    ownFlaws assets earlier layer = [] ↔ layer.index ∉ earlier
      ∧ ¬ layer.placement.outFrame < layer.placement.inFrame
      ∧ ∀ id, layer.content = .image id → assets.contains id = true := by
  have hasset : ∀ id, layer.assetId? = some id ↔ layer.content = .image id := by
    intro id
    unfold assetId?
    cases layer.content <;> simp
  simp only [← hasset]
  unfold ownFlaws
  cases layer.assetId? <;> simp

theorem allOwnFlaws_eq_nil {earlier : List Nat} :
    allOwnFlaws assets earlier layers = [] ↔ (layers.map index).Nodup
      ∧ (∀ layer ∈ layers, layer.index ∉ earlier)
      ∧ ∀ layer ∈ layers, ¬ layer.placement.outFrame < layer.placement.inFrame
        ∧ ∀ id, layer.content = .image id → assets.contains id = true := by
  induction layers generalizing earlier with
  | nil => simp [allOwnFlaws]
  | cons layer rest ih =>
      have hnew : (∀ other ∈ rest, other.index ∉ layer.index :: earlier) ↔
          layer.index ∉ rest.map index ∧ ∀ other ∈ rest, other.index ∉ earlier := by
        simp only [List.mem_cons, not_or, List.mem_map, not_exists, not_and]
        exact forall₂_and
      rw [allOwnFlaws, List.append_eq_nil_iff, List.map_eq_nil_iff, ownFlaws_eq_nil, ih, hnew,
        List.map_cons, List.nodup_cons, List.forall_mem_cons, List.forall_mem_cons]
      tauto

theorem flaws_eq_nil : flaws layers assets = [] ↔ allOwnFlaws assets [] layers = []
    ∧ ∀ layer ∈ layers, parentFlaw? layers layer = none := by
  simp [flaws, List.filterMap_eq_nil_iff]

theorem faults_eq_nil : faults layers assets = [] ↔ flaws layers assets = [] :=
  List.map_eq_nil_iff

theorem count_ownFlaws (assets : Registry) (earlier : List Nat) (layer : Layer Float) :
    (ownFlaws assets earlier layer).count .duplicateLayerIndex
      = if layer.index ∈ earlier then 1 else 0 := by
  unfold ownFlaws
  cases layer.assetId? <;> simp [apply_ite (List.count Flaw.duplicateLayerIndex)]

theorem count_allOwnFlaws (earlier : List Nat) :
    ((allOwnFlaws assets earlier layers).map (·.2)).count .duplicateLayerIndex
      + ((layers.map index).toFinset \ earlier.toFinset).card = layers.length := by
  induction layers generalizing earlier with
  | nil => simp [allOwnFlaws]
  | cons layer rest ih =>
      have hrest := ih (layer.index :: earlier)
      have hcount : ((allOwnFlaws assets earlier (layer :: rest)).map (·.2)).count .duplicateLayerIndex
          = (if layer.index ∈ earlier then 1 else 0) + ((allOwnFlaws assets (layer.index :: earlier)
            rest).map (·.2)).count .duplicateLayerIndex := by
        simp [allOwnFlaws, ← count_ownFlaws assets]
      rw [List.toFinset_cons] at hrest
      rw [hcount, List.map_cons, List.toFinset_cons, List.length_cons]
      by_cases hindex : layer.index ∈ earlier
      · have hmem := List.mem_toFinset.2 hindex
        rw [Finset.insert_eq_of_mem hmem] at hrest
        rw [if_pos hindex, Finset.insert_sdiff_of_mem _ hmem]
        omega
      · have hmem : layer.index ∈ insert layer.index (rest.map index).toFinset \ earlier.toFinset := by
          simp [hindex]
        have hcard := Finset.card_erase_add_one hmem
        rw [← Finset.sdiff_insert, Finset.insert_sdiff_insert] at hcard
        rw [if_neg hindex]
        omega

def parentFault? (layers : List (Layer Float)) (layer : Layer Float) : Option Fault :=
  (parentFlaw? layers layer).map (.structural layer.place)

theorem faults_eq : faults layers assets
    = (allOwnFlaws assets [] layers).map (fun found => Fault.structural found.1.place found.2)
      ++ layers.filterMap (parentFault? layers) := by
  rw [faults, flaws, List.map_append, List.map_filterMap]
  congr 2
  funext layer
  rw [parentFault?, Option.map_map]
  rfl

theorem count_duplicates : ((faults layers assets).filterMap Fault.flaw?).count .duplicateLayerIndex
    + (layers.map index).toFinset.card = layers.length := by
  have hown : ((allOwnFlaws assets [] layers).map fun found =>
      Fault.structural found.1.place found.2).filterMap Fault.flaw?
        = (allOwnFlaws assets [] layers).map (·.2) := by
    rw [List.filterMap_map, ← List.filterMap_eq_map]
    rfl
  have hparents : .duplicateLayerIndex ∉
      (layers.filterMap (parentFault? layers)).filterMap Fault.flaw? := by
    intro hmem
    obtain ⟨fault, hfault, hflaw⟩ := List.mem_filterMap.1 hmem
    obtain ⟨layer, _, hlayer⟩ := List.mem_filterMap.1 hfault
    obtain ⟨flaw, hparent, rfl⟩ := Option.map_eq_some_iff.1 hlayer
    obtain rfl : flaw = .duplicateLayerIndex := Option.some.inj hflaw
    rcases parentFlaw?_eq_some hparent with ⟨parent, h⟩ | h <;> cases h
  rw [faults_eq, List.filterMap_append, hown, List.count_append, List.count_eq_zero.2 hparents,
    Nat.add_zero]
  simpa using count_allOwnFlaws []

theorem parentCycle_not_mem_ownFlaws (assets : Registry) (earlier : List Nat)
    (layer : Layer Float) : .parentCycle ∉ ownFlaws assets earlier layer := by
  cases hasset : layer.assetId? <;> simp [ownFlaws, hasset]

theorem parentCycle_not_own {earlier : List Nat} {x : Layer Float × Flaw}
    (h : x ∈ allOwnFlaws assets earlier layers) : x.2 ≠ .parentCycle := by
  induction layers generalizing earlier with
  | nil => cases h
  | cons layer rest ih =>
      rcases List.mem_append.1 h with h | h
      · obtain ⟨flaw, hflaw, rfl⟩ := List.mem_map.1 h
        rintro rfl
        exact parentCycle_not_mem_ownFlaws assets earlier layer hflaw
      · exact ih h

theorem parentFault?_eq_cycle (hdistinct : (layers.map index).Nodup) {layer other : Layer Float}
    (hlayer : layer ∈ layers) (hother : other ∈ layers) :
    parentFault? layers other = some (.structural layer.place .parentCycle)
      ↔ other = layer ∧ Endless layers layer := by
  constructor
  · intro h
    obtain ⟨flaw, hflaw, heq⟩ := Option.map_eq_some_iff.1 h
    obtain ⟨hplace, rfl⟩ := Fault.structural.inj heq
    obtain rfl := eq_of_index_eq hdistinct hother hlayer (Place.layer.inj hplace).1
    exact ⟨rfl, (parentFlaw?_eq_parentCycle hdistinct hother).1 hflaw⟩
  · rintro ⟨rfl, hendless⟩
    rw [parentFault?, (parentFlaw?_eq_parentCycle hdistinct hother).2 hendless, Option.map_some]

theorem parentCycle_not_mem_own (place : Place) :
    Fault.structural place .parentCycle ∉ (allOwnFlaws assets [] layers).map fun found =>
      .structural found.1.place found.2 := by
  intro hmem
  obtain ⟨x, hx, heq⟩ := List.mem_map.1 hmem
  exact parentCycle_not_own hx (Fault.structural.inj heq).2

theorem layer_of_parentCycle {place : Place}
    (h : .structural place .parentCycle ∈ faults layers assets) :
    ∃ layer ∈ layers, place = layer.place
      ∧ parentFault? layers layer = some (.structural layer.place .parentCycle) := by
  rw [faults_eq] at h
  rcases List.mem_append.1 h with h | h
  · exact absurd h (parentCycle_not_mem_own place)
  · obtain ⟨layer, hlayer, hfault⟩ := List.mem_filterMap.1 h
    obtain ⟨flaw, hflaw, heq⟩ := Option.map_eq_some_iff.1 hfault
    obtain ⟨rfl, rfl⟩ := Fault.structural.inj heq
    exact ⟨layer, hlayer, rfl, hfault⟩

theorem parentCycle_mem_faults (hdistinct : (layers.map index).Nodup) {layer : Layer Float}
    (h : layer ∈ layers) :
    .structural layer.place .parentCycle ∈ faults layers assets ↔ Endless layers layer := by
  constructor
  · intro hmem
    obtain ⟨other, hother, hplace, hfault⟩ := layer_of_parentCycle hmem
    rw [← hplace] at hfault
    exact ((parentFault?_eq_cycle hdistinct h hother).1 hfault).2
  · intro hendless
    rw [faults_eq]
    refine List.mem_append_right _ (List.mem_filterMap.2 ⟨layer, h, ?_⟩)
    exact (parentFault?_eq_cycle hdistinct h h).2 ⟨rfl, hendless⟩

theorem count_parentCycle (hdistinct : (layers.map index).Nodup) {layer : Layer Float}
    (h : layer ∈ layers) (hendless : Endless layers layer) :
    (faults layers assets).count (.structural layer.place .parentCycle) = 1 := by
  have hcount : layers.countP (fun other =>
      parentFault? layers other == some (.structural layer.place .parentCycle))
        = layers.count layer := by
    apply List.countP_congr
    intro other hother
    simp [parentFault?_eq_cycle hdistinct h hother, hendless]
  rw [faults_eq, List.count_append, List.count_eq_zero.2 (parentCycle_not_mem_own layer.place),
    Nat.zero_add, List.count_filterMap, hcount]
  exact List.count_eq_one_of_mem hdistinct.of_map h

theorem faults_eq_nil_iff : faults layers assets = [] ↔ (layers.map index).Nodup
    ∧ (∀ layer ∈ layers, ¬ layer.placement.outFrame < layer.placement.inFrame)
    ∧ (∀ layer ∈ layers, ∀ id, layer.content = .image id → assets.contains id = true)
    ∧ (∀ layer ∈ layers, ∀ parent, layer.placement.parent = some parent →
      ∃ other ∈ layers, other.index = parent)
    ∧ ∀ layer ∈ layers, ¬ Endless layers layer := by
  have hparents : (layers.map index).Nodup →
      ((∀ layer ∈ layers, parentFlaw? layers layer = none) ↔
        (∀ layer ∈ layers, ∀ parent, layer.placement.parent = some parent →
          ∃ other ∈ layers, other.index = parent) ∧ ∀ layer ∈ layers, ¬ Endless layers layer) := by
    intro hdistinct
    rw [← forall₂_and]
    exact forall₂_congr fun layer hlayer => parentFlaw?_eq_none hdistinct hlayer
  have hown : allOwnFlaws assets [] layers = [] ↔ (layers.map index).Nodup
      ∧ (∀ layer ∈ layers, ¬ layer.placement.outFrame < layer.placement.inFrame)
      ∧ ∀ layer ∈ layers, ∀ id, layer.content = .image id → assets.contains id = true := by
    simp [allOwnFlaws_eq_nil, imp_and, forall_and]
  rw [faults_eq_nil, flaws_eq_nil, hown]
  constructor
  · rintro ⟨⟨hdistinct, hframes, hassets⟩, hnone⟩
    exact ⟨hdistinct, hframes, hassets, (hparents hdistinct).1 hnone⟩
  · rintro ⟨hdistinct, hframes, hassets, hup⟩
    exact ⟨⟨hdistinct, hframes, hassets⟩, (hparents hdistinct).2 hup⟩

end Layer

open Layer in
structure JudgesLayers (layers : List (Layer Float)) (assets : Registry) : Prop where
  accepts_iff : faults layers assets = [] ↔ (layers.map index).Nodup
    ∧ (∀ layer ∈ layers, ¬ layer.placement.outFrame < layer.placement.inFrame)
    ∧ (∀ layer ∈ layers, ∀ id, layer.content = .image id → assets.contains id = true)
    ∧ (∀ layer ∈ layers, ∀ parent, layer.placement.parent = some parent →
      ∃ other ∈ layers, other.index = parent)
    ∧ ∀ layer ∈ layers, ¬ Endless layers layer
  cycle_iff : (layers.map index).Nodup → ∀ layer ∈ layers,
    (.structural layer.place .parentCycle ∈ faults layers assets ↔ Endless layers layer)
  cycle_once : (layers.map index).Nodup → ∀ layer ∈ layers, Endless layers layer →
    (faults layers assets).count (.structural layer.place .parentCycle) = 1
  cycle_place : ∀ place, .structural place .parentCycle ∈ faults layers assets →
    ∃ layer ∈ layers, place = layer.place
  duplicates : ((faults layers assets).filterMap Fault.flaw?).count .duplicateLayerIndex
    + (layers.map index).toFinset.card = layers.length

theorem faults_judgesLayers (layers : List (Layer Float)) (assets : Registry) :
    JudgesLayers layers assets where
  accepts_iff := Layer.faults_eq_nil_iff
  cycle_iff hdistinct _ hlayer := Layer.parentCycle_mem_faults hdistinct hlayer
  cycle_once hdistinct _ hlayer hendless := Layer.count_parentCycle hdistinct hlayer hendless
  cycle_place _ h := by
    obtain ⟨layer, hlayer, hplace, _⟩ := Layer.layer_of_parentCycle h
    exact ⟨layer, hlayer, hplace⟩
  duplicates := Layer.count_duplicates

end Scenograph
