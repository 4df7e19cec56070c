import Mathlib.Data.String.Basic
import Mathlib.Tactic.SplitIfs
import Scenograph.Catalog

namespace Scenograph.Catalog

variable {α : Type}

theorem insertEntry_perm {key : String} {value : α} {entries : List (String × α)}
    (h : key ∉ entries.map (·.1)) : (insertEntry key value entries).Perm ((key, value) :: entries) := by
  induction entries with
  | nil => exact .refl _
  | cons entry rest ih =>
      obtain ⟨k, v⟩ := entry
      have hne : key ≠ k := fun heq => h (heq ▸ List.mem_cons_self ..)
      have hrest : key ∉ rest.map (·.1) := fun hmem => h (List.mem_cons_of_mem _ hmem)
      rw [insertEntry]
      split
      · exact .refl _
      · exact ((ih hrest).cons (k, v)).trans (.swap ..)

theorem insertEntry_subset (key : String) (value : α) (entries : List (String × α)) :
    insertEntry key value entries ⊆ (key, value) :: entries := by
  induction entries with
  | nil => simp [insertEntry]
  | cons entry rest ih =>
      rw [insertEntry]
      split_ifs
      · simp
      · simp
      · intro item hitem
        rcases List.mem_cons.1 hitem with rfl | hitem
        · simp
        · rcases List.mem_cons.1 (ih hitem) with rfl | hitem
          · simp
          · simp [hitem]

def Sorted (entries : List (String × α)) : Prop :=
  (entries.map (·.1)).Pairwise (· < ·)

theorem insertEntry_sorted (key : String) (value : α) {entries : List (String × α)}
    (h : Sorted entries) : Sorted (insertEntry key value entries) := by
  induction entries with
  | nil => simp [Sorted, insertEntry]
  | cons entry rest ih =>
      obtain ⟨k, v⟩ := entry
      obtain ⟨hk, hrest⟩ := List.pairwise_cons.1 h
      rw [insertEntry]
      split_ifs with hlt heq
      · refine List.pairwise_cons.2 ⟨fun k' hk' => ?_, h⟩
        rcases List.mem_cons.1 hk' with rfl | hk'
        · exact hlt
        · exact hlt.trans (hk k' hk')
      · subst heq
        exact h
      · refine List.pairwise_cons.2 ⟨fun k' hk' => ?_, ih hrest⟩
        obtain ⟨entry, hentry, rfl⟩ := List.mem_map.1 hk'
        rcases List.mem_cons.1 (insertEntry_subset key value rest hentry) with rfl | hentry
        · exact lt_of_le_of_ne (not_lt.1 hlt) (Ne.symm heq)
        · exact hk _ (List.mem_map_of_mem hentry)

theorem sorted_empty : Sorted (empty : Catalog α).entries :=
  List.Pairwise.nil

theorem Sorted.nodup {entries : List (String × α)} (h : Sorted entries) :
    (entries.map (·.1)).Nodup :=
  h.imp ne_of_lt

theorem Sorted.eq_of_perm {entries others : List (String × α)} (h : Sorted entries)
    (hothers : Sorted others) (hperm : entries.Perm others) : entries = others := by
  rw [Sorted, List.pairwise_map] at h hothers
  exact hperm.eq_of_pairwise (fun _ _ _ _ hlt hgt => absurd hgt hlt.not_gt) h hothers

theorem contains_eq_true {c : Catalog α} {key : String} :
    c.contains key = true ↔ key ∈ c.keys := by
  rw [contains, get?, List.lookup_isSome_iff, keys, List.mem_map]
  simp only [beq_iff_eq, eq_comm (a := key)]

theorem get?_eq_some_iff {c : Catalog α} (h : Sorted c.entries) {key : String} {value : α} :
    c.get? key = some value ↔ (key, value) ∈ c.entries := by
  rw [get?, List.lookup_eq_some_iff]
  constructor
  · rintro ⟨before, after, heq, -⟩
    simp [heq]
  · intro hmem
    obtain ⟨before, after, heq⟩ := List.append_of_mem hmem
    refine ⟨before, after, heq, fun entry hentry => ?_⟩
    rw [heq, Sorted, List.map_append, List.pairwise_append] at h
    have hlt : entry.1 < key := h.2.2 entry.1 (List.mem_map_of_mem hentry) key (by simp)
    simpa using hlt.ne'

section Insert

variable (c : Catalog α) (key : String) (value : α)

theorem get?_insert_self : (c.insert key value).get? key = some value := by
  obtain ⟨entries⟩ := c
  simp only [insert, get?]
  induction entries with
  | nil => exact List.lookup_cons_self
  | cons entry rest ih =>
      rw [insertEntry]
      split_ifs with hlt heq
      · exact List.lookup_cons_self
      · exact List.lookup_cons_self
      · have hother : (key == entry.1) = false := by simpa using heq
        rw [List.lookup_cons, hother]
        exact ih

theorem get?_insert_of_ne {k : String} (h : k ≠ key) : (c.insert key value).get? k = c.get? k := by
  obtain ⟨entries⟩ := c
  simp only [insert, get?]
  have hkey : (k == key) = false := by simpa using h
  induction entries with
  | nil => rw [insertEntry, List.lookup_cons, hkey]
  | cons entry rest ih =>
      rw [insertEntry]
      split_ifs with hlt heq
      · rw [List.lookup_cons, hkey]
      · subst heq
        rw [List.lookup_cons, List.lookup_cons, hkey]
      · rw [List.lookup_cons, List.lookup_cons, ih]

end Insert

theorem mem_keys_insert {c : Catalog α} {key k : String} {value : α} :
    k ∈ (c.insert key value).keys ↔ k = key ∨ k ∈ c.keys := by
  obtain ⟨entries⟩ := c
  simp only [insert, keys]
  induction entries with
  | nil => simp [insertEntry]
  | cons entry rest ih =>
      rw [insertEntry]
      split_ifs with hlt heq
      · simp
      · simp [heq]
      · rw [List.map_cons, List.mem_cons, ih, List.map_cons, List.mem_cons]
        exact or_left_comm

theorem mem_keys_foldl {items : List (String × α)} {c : Catalog α} {k : String} :
    k ∈ (items.foldl (fun c item => c.insert item.1 item.2) c).keys
      ↔ k ∈ items.map (·.1) ∨ k ∈ c.keys := by
  induction items generalizing c with
  | nil => simp
  | cons item items ih =>
      rw [List.foldl_cons, ih, mem_keys_insert, List.map_cons, List.mem_cons, or_assoc]
      exact or_left_comm

theorem mem_sortedTexts {texts : List String} {text : String} :
    text ∈ sortedTexts texts ↔ text ∈ texts := by
  rw [sortedTexts, ofList, mem_keys_foldl]
  simp [keys, empty]

theorem sorted_ofList (items : List (String × α)) : Sorted (ofList items).entries :=
  List.foldlRecOn (motive := fun c : Catalog α => Sorted c.entries) items _ sorted_empty
    fun _ hc _ _ => insertEntry_sorted _ _ hc

theorem sortedTexts_pairwise (texts : List String) : (sortedTexts texts).Pairwise (· < ·) :=
  sorted_ofList _

end Scenograph.Catalog
