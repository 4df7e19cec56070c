import Scenograph.Document.Layer
import Scenograph.Proofs.Catalog
import Scenograph.Proofs.Json.Decode

namespace Scenograph

namespace Registry

inductive Call where
  | register (asset : Asset)
  | load (text : String)

def call (r : Registry) : Call → Registry
  | .register asset => r.register asset
  | .load text =>
      match decoder.decodeText text with
      | .ok loaded => loaded
      | .error _ => r

def calls (cs : List Call) : Registry :=
  cs.foldl call Catalog.empty

structure History where
  loaded : Registry := Catalog.empty
  registered : List Asset := []

namespace History

def call (h : History) : Call → History
  | .register asset => { h with registered := h.registered ++ [asset] }
  | .load text =>
      match decoder.decodeText text with
      | .ok loaded => { loaded }
      | .error _ => h

def ofCalls (cs : List Call) : History :=
  cs.foldl call {}

def registry (h : History) : Registry :=
  h.registered.foldl register h.loaded

theorem registry_call (h : History) (c : Call) : (h.call c).registry = h.registry.call c := by
  cases c with
  | register asset => simp [call, registry, Registry.call]
  | load text =>
      simp only [call, Registry.call]
      split <;> rfl

theorem registry_foldl (h : History) (cs : List Call) :
    (cs.foldl call h).registry = cs.foldl Registry.call h.registry := by
  induction cs generalizing h with
  | nil => rfl
  | cons c cs ih => rw [List.foldl_cons, ih, registry_call, List.foldl_cons]

theorem foldl_register (h : History) (assets : List Asset) :
    (assets.map .register).foldl call h = { h with registered := h.registered ++ assets } := by
  induction assets generalizing h with
  | nil => simp
  | cons a assets ih =>
      rw [List.map_cons, List.foldl_cons, ih]
      simp [call]

theorem registry_ofCalls (cs : List Call) : (ofCalls cs).registry = calls cs :=
  registry_foldl {} cs

end History

structure IsKeyed (r : Registry) : Prop where
  own : ∀ id asset, r.get? id = some asset → asset.id = id
  rising : (r.values.map (·.id)).Pairwise (· < ·)

section Sorted

variable {r : Registry} (h : Catalog.Sorted r.entries)

include h

theorem isKeyed_iff : r.IsKeyed ↔ ∀ id asset, r.get? id = some asset → asset.id = id := by
  refine ⟨IsKeyed.own, fun hown => ⟨hown, ?_⟩⟩
  have hids : r.values.map (·.id) = r.keys := by
    rw [Catalog.values, List.map_map]
    refine List.map_congr_left fun entry hentry => ?_
    exact hown entry.1 entry.2 ((Catalog.get?_eq_some_iff h).2 hentry)
  rw [hids]
  exact h

theorem sorted_call (c : Call) : Catalog.Sorted (r.call c).entries := by
  cases c with
  | register asset => exact Catalog.insertEntry_sorted _ _ h
  | load text =>
      have hloaded : decoder.Yields fun loaded => Catalog.Sorted loaded.entries :=
        Decoder.record_yields <| Fields.andThen_yields
          (Fields.required_yields (Decoder.yields_any _))
          (Fields.start_yields fun items _ => Catalog.sorted_ofList items)
      rw [call]
      split
      · next hdecoded => exact hloaded.decodeIn hdecoded
      · exact h

theorem sorted_foldl (cs : List Call) : Catalog.Sorted (cs.foldl call r).entries := by
  induction cs generalizing r with
  | nil => exact h
  | cons c cs ih => exact ih (sorted_call h c)

end Sorted

theorem get?_foldl_register (r : Registry) (assets : List Asset) (id : String) :
    (assets.foldl register r).get? id
      = (assets.reverse.find? fun a => a.id = id).or (r.get? id) := by
  induction assets generalizing r with
  | nil => rfl
  | cons a assets ih =>
      rw [List.foldl_cons, ih, List.reverse_cons, List.find?_append, Option.or_assoc]
      congr 1
      by_cases hid : a.id = id
      · subst hid
        simp [register, Catalog.get?_insert_self]
      · rw [register, Catalog.get?_insert_of_ne _ _ _ (Ne.symm hid)]
        simp [hid]

end Registry

open Registry in
/-- What a registry gives for an id is the asset registered last under it since the last document was
loaded, or else what the document has there. So an asset is out of place exactly when the document
has it under a key that is not its id, and nothing has been registered under the key since. -/
theorem registry_keyed_exactly (cs : List Call) :
    (calls cs).keys.Pairwise (· < ·)
      ∧ (∀ id, (calls cs).get? id = ((History.ofCalls cs).registered.reverse.find?
          fun a => a.id = id).or ((History.ofCalls cs).loaded.get? id))
      ∧ ((calls cs).IsKeyed ↔ ∀ id asset, (History.ofCalls cs).loaded.get? id = some asset →
          asset.id = id ∨ ∃ a ∈ (History.ofCalls cs).registered, a.id = id) := by
  have hsorted : Catalog.Sorted (calls cs).entries := sorted_foldl Catalog.sorted_empty cs
  have hget : ∀ id, (calls cs).get? id = ((History.ofCalls cs).registered.reverse.find?
      fun a => a.id = id).or ((History.ofCalls cs).loaded.get? id) := by
    intro id
    rw [← History.registry_ofCalls]
    exact get?_foldl_register _ _ _
  refine ⟨hsorted, hget, ?_⟩
  rw [isKeyed_iff hsorted]
  generalize History.ofCalls cs = h at hget
  constructor
  · intro hown id asset hasset
    by_cases hlater : ∃ a ∈ h.registered, a.id = id
    · exact .inr hlater
    · refine .inl (hown id asset ?_)
      rw [hget, List.find?_eq_none.2 (by simpa using hlater), hasset]
      rfl
  · intro hloaded id asset hasset
    rw [hget, Option.or_eq_some_iff] at hasset
    rcases hasset with hlater | ⟨hnone, hasset⟩
    · simpa using List.find?_some hlater
    · refine (hloaded id asset hasset).resolve_right ?_
      simpa using hnone

def crossedText : String :=
  "\x7b\"assets\":\x7b\"a\":\x7b\"id\":\"z\",\"uri\":\"\",\"width\":1,\"height\":1\x7d,"
    ++ "\"b\":\x7b\"id\":\"y\",\"uri\":\"\",\"width\":1,\"height\":1\x7d\x7d\x7d"

def crossedRegistry : Registry :=
  ⟨[("a", ⟨"z", "", 1, 1⟩), ("b", ⟨"y", "", 1, 1⟩)]⟩

theorem registry_keyed_exactly_crossedText :
    (Registry.calls [.load crossedText]).values.map (·.id) = ["z", "y"]
      ∧ ¬(Registry.calls [.load crossedText]).IsKeyed
      ∧ ¬(Registry.calls [.load crossedText, .register ⟨"a", "", 1, 1⟩]).IsKeyed
      ∧ (Registry.calls [.load crossedText, .register ⟨"a", "", 1, 1⟩,
          .register ⟨"b", "", 1, 1⟩]).IsKeyed := by
  have hloaded : Registry.decoder.decodeText crossedText = .ok crossedRegistry := by
    decide +kernel
  have hhistory : ∀ assets : List Asset,
      Registry.History.ofCalls (.load crossedText :: assets.map .register)
        = ⟨crossedRegistry, assets⟩ := by
    intro assets
    rw [Registry.History.ofCalls, List.foldl_cons, Registry.History.foldl_register,
      Registry.History.call, hloaded]
    rfl
  have hsorted : Catalog.Sorted crossedRegistry.entries := by
    change ["a", "b"].Pairwise (· < ·)
    decide
  have hexact : ∀ assets : List Asset,
      (Registry.calls (.load crossedText :: assets.map .register)).IsKeyed
        ↔ (∃ a ∈ assets, a.id = "a") ∧ ∃ a ∈ assets, a.id = "b" := by
    intro assets
    rw [(registry_keyed_exactly _).2.2, hhistory]
    simp only [Catalog.get?_eq_some_iff hsorted]
    simp [crossedRegistry, or_imp, forall_and]
  refine ⟨?_, ?_, ?_, ?_⟩
  · simp [Registry.calls, Registry.call, hloaded, crossedRegistry, Catalog.values]
  · exact fun h => by simpa using (hexact []).1 h
  · exact fun h => by simpa using (hexact [⟨"a", "", 1, 1⟩]).1 h
  · exact (hexact [⟨"a", "", 1, 1⟩, ⟨"b", "", 1, 1⟩]).2 (by simp)

end Scenograph
