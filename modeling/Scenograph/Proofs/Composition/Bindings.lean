import Scenograph.Composition.Graph
import Scenograph.Proofs.Catalog
import Scenograph.Proofs.Outcome

namespace Scenograph

theorem Binding.validate_eq_ok {b : Binding} : b.validate = .ok () ↔ b.flaw? = none := by
  cases hflaw : b.flaw? <;> simp [validate, hflaw]

namespace Bindings

structure Named (set : Bindings) : Prop where
  keys : ∀ entry ∈ set.entries, entry.1 = entry.2.name
  nodup : (set.entries.map (·.1)).Nodup

def entryOf (b : Binding) : String × Binding :=
  (b.name, b)

theorem entries_eq {set : Bindings} (h : ∀ entry ∈ set.entries, entry.1 = entry.2.name) :
    set.entries = set.values.map entryOf := by
  rw [Catalog.values, List.map_map]
  have hself : ∀ entry ∈ set.entries, id entry = entryOf entry.2 :=
    fun entry hentry => Prod.ext (h entry hentry) rfl
  exact (List.map_id _).symm.trans (List.map_congr_left hself)

theorem keys_eq {set : Bindings} (h : ∀ entry ∈ set.entries, entry.1 = entry.2.name) :
    set.keys = set.values.map (·.name) := by
  rw [Catalog.keys, entries_eq h, List.map_map]
  rfl

theorem Named.names {set : Bindings} (h : set.Named) : (set.values.map (·.name)).Nodup :=
  keys_eq h.keys ▸ h.nodup

section Add

variable {set set' : Bindings} {b : Binding}

theorem run_add_of_flaw {flaw : Flaw} (hflaw : b.flaw? = some flaw) :
    (add b).run set = .error (.structural (.binding b.name) flaw) set := by
  have hvalidate : b.validate = .error (.structural (.binding b.name) flaw) := by
    rw [Binding.validate, hflaw]
  rw [add, hvalidate]
  rfl

theorem run_add (hflaw : b.flaw? = none) : (add b).run set =
    if set.contains b.name then .error (.structural (.binding b.name) .duplicateBinding) set
    else .ok () (set.insert b.name b) := by
  rw [add, Binding.validate_eq_ok.2 hflaw]
  cases hcontains : set.contains b.name <;>
    simp [MonadExcept.ofExcept, EStateM.run_bind, hcontains]

theorem run_add_eq_ok : (add b).run set = .ok () set' ↔
    b.flaw? = none ∧ b.name ∉ set.keys ∧ set' = set.insert b.name b := by
  rw [← Catalog.contains_eq_true]
  cases hflaw : b.flaw? with
  | some flaw => simp [run_add_of_flaw hflaw]
  | none =>
      rw [run_add hflaw]
      cases set.contains b.name <;> simp [eq_comm]

theorem of_run_add_error {fault : Fault} (h : (add b).run set = .error fault set') :
    ¬(b.flaw? = none ∧ b.name ∉ set.keys) ∧ set' = set := by
  rw [← Catalog.contains_eq_true]
  cases hflaw : b.flaw? with
  | some flaw =>
      rw [run_add_of_flaw hflaw] at h
      cases h
      simp
  | none =>
      rw [run_add hflaw] at h
      cases hcontains : set.contains b.name with
      | true =>
          rw [hcontains] at h
          cases h
          simp
      | false =>
          rw [hcontains] at h
          cases h

theorem entries_add (h : (add b).run set = .ok () set') :
    set'.entries.Perm (entryOf b :: set.entries) := by
  obtain ⟨-, hnew, rfl⟩ := run_add_eq_ok.1 h
  exact Catalog.insertEntry_perm hnew

structure Built (set : Bindings) : Prop where
  sorted : Catalog.Sorted set.entries
  keys : ∀ entry ∈ set.entries, entry.1 = entry.2.name
  flawless : ∀ entry ∈ set.entries, entry.2.flaw? = none

theorem built_empty : Built Catalog.empty :=
  ⟨Catalog.sorted_empty, by simp [Catalog.empty], by simp [Catalog.empty]⟩

theorem Built.add (h : set.Built) (hadd : (add b).run set = .ok () set') : set'.Built := by
  have hsubset := (entries_add hadd).subset
  obtain ⟨hflaw, -, rfl⟩ := run_add_eq_ok.1 hadd
  refine ⟨Catalog.insertEntry_sorted _ _ h.sorted, fun entry hentry => ?_, fun entry hentry => ?_⟩
  · rcases List.mem_cons.1 (hsubset hentry) with rfl | hentry
    · rfl
    · exact h.keys entry hentry
  · rcases List.mem_cons.1 (hsubset hentry) with rfl | hentry
    · exact hflaw
    · exact h.flawless entry hentry

theorem Built.named (h : set.Built) : set.Named :=
  ⟨h.keys, h.sorted.nodup⟩

theorem Built.flaw?_eq_none (h : set.Built) (hb : b ∈ set.values) : b.flaw? = none := by
  obtain ⟨entry, hentry, rfl⟩ := List.mem_map.1 hb
  exact h.flawless entry hentry

end Add

section AddAll

variable {set set' : Bindings} {bs : List Binding}

theorem Built.addAll (h : set.Built) (hadd : set.addAll bs = .ok set') : set'.Built := by
  induction bs generalizing set with
  | nil =>
      cases hadd
      exact h
  | cons b bs ih =>
      obtain ⟨next, hnext, hrest⟩ := bind_eq_ok.1 hadd
      exact ih (h.add (Update.attempt_eq_ok.1 hnext)) hrest

theorem entries_addAll (h : set.addAll bs = .ok set') :
    set'.entries.Perm (bs.map entryOf ++ set.entries) := by
  induction bs generalizing set with
  | nil =>
      cases h
      exact .refl _
  | cons b bs ih =>
      obtain ⟨next, hnext, hrest⟩ := bind_eq_ok.1 h
      calc set'.entries.Perm (bs.map entryOf ++ next.entries) := ih hrest
        _ |>.Perm (bs.map entryOf ++ entryOf b :: set.entries) :=
          (entries_add (Update.attempt_eq_ok.1 hnext)).append_left _
        _ |>.Perm ((b :: bs).map entryOf ++ set.entries) := List.perm_middle

theorem addAll_ok_iff (h : set.keys.Nodup) : (∃ set', set.addAll bs = .ok set') ↔
    (∀ b ∈ bs, b.flaw? = none) ∧ (bs.map (·.name) ++ set.keys).Nodup := by
  induction bs generalizing set with
  | nil => simp [addAll, h]
  | cons b bs ih =>
      cases hadd : (add b).run set with
      | error fault =>
          have hrefused := (of_run_add_error hadd).1
          simp only [addAll, Update.attempt_of_error hadd, error_bind, reduceCtorEq, exists_false,
            false_iff]
          rintro ⟨hflaws, hnodup⟩
          refine hrefused ⟨hflaws b (List.mem_cons_self ..), fun hmem => ?_⟩
          exact (List.nodup_cons.1 hnodup).1 (List.mem_append_right _ hmem)
      | ok _ next =>
          have hkeys : next.keys.Perm (b.name :: set.keys) := (entries_add hadd).map _
          obtain ⟨hflaw, hnew, -⟩ := run_add_eq_ok.1 hadd
          have hnodup : next.keys.Nodup := hkeys.nodup_iff.2 (List.nodup_cons.2 ⟨hnew, h⟩)
          have hmiddle : (bs.map (·.name) ++ next.keys).Perm
              ((b :: bs).map (·.name) ++ set.keys) :=
            (hkeys.append_left _).trans List.perm_middle
          simp only [addAll, Update.attempt_eq_ok.2 hadd, ok_bind, ih hnodup, hmiddle.nodup_iff,
            List.forall_mem_cons, hflaw, true_and]

end AddAll

section OfList

variable {set : Bindings} {bs : List Binding}

theorem built_of_ofList (h : ofList bs = .ok set) : set.Built :=
  built_empty.addAll h

theorem named_of_ofList (h : ofList bs = .ok set) : set.Named :=
  (built_of_ofList h).named

theorem entries_of_ofList (h : ofList bs = .ok set) : set.entries.Perm (bs.map entryOf) := by
  have hentries := entries_addAll h
  rwa [show (Catalog.empty : Bindings).entries = [] from rfl, List.append_nil] at hentries

theorem subset_of_ofList (h : ofList bs = .ok set) : set.values ⊆ bs := by
  intro b hb
  obtain ⟨entry, hentry, rfl⟩ := List.mem_map.1 hb
  obtain ⟨b, hmem, rfl⟩ := List.mem_map.1 ((entries_of_ofList h).subset hentry)
  exact hmem

theorem ofList_ok_iff : (∃ set, ofList bs = .ok set) ↔
    (∀ b ∈ bs, b.flaw? = none) ∧ (bs.map (·.name)).Nodup := by
  have hkeys : (Catalog.empty : Bindings).keys = [] := rfl
  rw [ofList, addAll_ok_iff (hkeys ▸ List.nodup_nil), hkeys, List.append_nil]

theorem ofList_eq_ok : ofList bs = .ok set ↔
    ((∀ b ∈ bs, b.flaw? = none) ∧ (bs.map (·.name)).Nodup)
      ∧ Catalog.Sorted set.entries ∧ set.entries.Perm (bs.map entryOf) := by
  rw [← ofList_ok_iff]
  constructor
  · intro h
    exact ⟨⟨set, h⟩, (built_of_ofList h).sorted, entries_of_ofList h⟩
  · rintro ⟨⟨other, hother⟩, hsorted, hperm⟩
    have hentries : other.entries = set.entries :=
      (built_of_ofList hother).sorted.eq_of_perm hsorted
        ((entries_of_ofList hother).trans hperm.symm)
    rw [hother, show other = set from congrArg Catalog.mk hentries]

theorem Built.ofList_values (h : set.Built) : ofList set.values = .ok set := by
  refine ofList_eq_ok.2 ⟨⟨fun b hb => h.flaw?_eq_none hb, h.named.names⟩, h.sorted, ?_⟩
  exact .of_eq (entries_eq h.keys)

theorem ofList_perm {bs' : List Binding} (h : bs.Perm bs') (set : Bindings) :
    ofList bs = .ok set ↔ ofList bs' = .ok set := by
  have hentries : set.entries.Perm (bs.map entryOf) ↔ set.entries.Perm (bs'.map entryOf) :=
    ⟨fun hset => hset.trans (h.map _), fun hset => hset.trans (h.map _).symm⟩
  rw [ofList_eq_ok, ofList_eq_ok, hentries, (h.map _).nodup_iff]
  simp only [h.mem_iff]

theorem isIdentifier_of_ofList (h : ofList bs = .ok set) {b : Binding} (hb : b ∈ set.values) :
    isIdentifier b.name = true := by
  have hflaw := (built_of_ofList h).flaw?_eq_none hb
  by_contra hname
  rw [Bool.not_eq_true] at hname
  simp [Binding.flaw?, hname] at hflaw

theorem ofList_singleton {b : Binding} (hname : isIdentifier b.name = true)
    (hstored : b.stored.canStore b.exposed = true) (hdefault : b.default.kind = b.exposed) :
    ofList [b] = .ok ⟨[(b.name, b)]⟩ := by
  have hflaw : b.flaw? = none := by simp [Binding.flaw?, hname, hstored, hdefault]
  have hadd : (Bindings.add b).run Catalog.empty = .ok () ⟨[(b.name, b)]⟩ :=
    run_add_eq_ok.2 ⟨hflaw, List.not_mem_nil, rfl⟩
  rw [ofList, Bindings.addAll, Update.attempt_eq_ok.2 hadd]
  rfl

end OfList

def calls (set : Bindings) (bs : List Binding) : Bindings :=
  bs.foldl (fun set b => (add b).after set) set

variable {set set' : Bindings} {b : Binding}

theorem Built.after (h : set.Built) (b : Binding) : ((Bindings.add b).after set).Built := by
  cases hadd : (Bindings.add b).run set with
  | error fault set' =>
      rw [Update.after_of_error hadd, (of_run_add_error hadd).2]
      exact h
  | ok _ set' =>
      rw [Update.after_of_ok hadd]
      exact h.add hadd

theorem Built.calls (h : set.Built) (bs : List Binding) : (set.calls bs).Built := by
  induction bs generalizing set with
  | nil => exact h
  | cons b bs ih => exact ih (h.after b)

theorem calls_of_addAll {bs : List Binding} (h : set.addAll bs = .ok set') :
    set.calls bs = set' := by
  induction bs generalizing set with
  | nil => exact Except.ok.inj h
  | cons b bs ih =>
      obtain ⟨next, hnext, hrest⟩ := bind_eq_ok.1 h
      have hafter : (Bindings.add b).after set = next :=
        Update.after_of_ok (Update.attempt_eq_ok.1 hnext)
      exact (congrArg (calls · bs) hafter).trans (ih hrest)

structure InOrder (set : Bindings) : Prop where
  valid : ∀ b ∈ set.values, b.validate = .ok ()
  found_iff : ∀ name b, set.get? name = some b ↔ b ∈ set.values ∧ b.name = name
  rising : (set.values.map (·.name)).Pairwise (· < ·)
  restored : ofList set.values = .ok set

theorem Built.inOrder (h : set.Built) : set.InOrder where
  valid _ hb := Binding.validate_eq_ok.2 (h.flaw?_eq_none hb)
  found_iff name b := by
    rw [Catalog.get?_eq_some_iff h.sorted, entries_eq h.keys, List.mem_map]
    constructor
    · rintro ⟨other, hother, heq⟩
      cases heq
      exact ⟨hother, rfl⟩
    · rintro ⟨hb, rfl⟩
      exact ⟨b, hb, rfl⟩
  rising := keys_eq h.keys ▸ h.sorted
  restored := h.ofList_values

structure Takes (set : Bindings) (b : Binding) : Prop where
  refused_iff : (∃ fault set', (add b).run set = .error fault set')
    ↔ b.validate ≠ .ok () ∨ b.name ∈ set.values.map (·.name)
  refused : ∀ fault set', (add b).run set = .error fault set' → set' = set
    ∧ ∀ g : Graph, g.bindings = set → (Graph.bind b).run g = .error fault g
  taken : ∀ set', (add b).run set = .ok () set' → set'.values.Perm (b :: set.values)
    ∧ ∀ g : Graph, g.bindings = set → (Graph.bind b).run g = .ok () { g with bindings := set' }

theorem Built.takes (h : set.Built) (b : Binding) : set.Takes b where
  refused_iff := by
    rw [← keys_eq h.keys, Ne, Binding.validate_eq_ok]
    cases hadd : (Bindings.add b).run set with
    | error fault set' =>
        have hrefused := (of_run_add_error hadd).1
        simpa [Classical.or_iff_not_imp_left] using hrefused
    | ok _ set' =>
        obtain ⟨hflaw, hnew, -⟩ := run_add_eq_ok.1 hadd
        simp [hflaw, hnew]
  refused fault set' hadd := by
    obtain ⟨-, rfl⟩ := of_run_add_error hadd
    refine ⟨rfl, fun g hg => ?_⟩
    subst hg
    exact Update.run_within_of_error hadd
  taken set' hadd := by
    have hvalues : set'.values.Perm (b :: set.values) := (entries_add hadd).map Prod.snd
    refine ⟨hvalues, fun g hg => ?_⟩
    subst hg
    exact Update.run_within_of_ok hadd

end Bindings

open Bindings in
theorem bindings_inOrder (bs : List Binding) :
    (calls Catalog.empty bs).InOrder ∧ (∀ b, (calls Catalog.empty bs).Takes b)
      ∧ ((∃ set, ofList bs = .ok set) ↔
        (∀ b ∈ bs, b.validate = .ok ()) ∧ (bs.map (·.name)).Nodup)
      ∧ (∀ set, ofList bs = .ok set → calls Catalog.empty bs = set)
      ∧ ∀ bs', bs.Perm bs' → (ofList bs').toOption = (ofList bs).toOption := by
  have hbuilt : (calls Catalog.empty bs).Built := built_empty.calls bs
  refine ⟨hbuilt.inOrder, hbuilt.takes, ?_, fun set => calls_of_addAll, fun bs' hperm => ?_⟩
  · simp only [Binding.validate_eq_ok]
    exact ofList_ok_iff
  · have hok := ofList_perm hperm
    cases h : ofList bs with
    | ok set => rw [(hok set).1 h]
    | error fault =>
        cases h' : ofList bs' with
        | ok set => cases h.symm.trans ((hok set).2 h')
        | error => rfl

def shownBinding (name : String) : Binding :=
  ⟨name, name, .boolean, .boolean, .boolean true⟩

theorem bindings_inOrder_shownBindings :
    (Bindings.calls Catalog.empty
        [shownBinding "Sun", shownBinding "1st", shownBinding "Sun", shownBinding "Moon"]).values
        = [shownBinding "Moon", shownBinding "Sun"]
      ∧ (Bindings.ofList [shownBinding "Sun", shownBinding "Moon"]).toOption
        = (Bindings.ofList [shownBinding "Moon", shownBinding "Sun"]).toOption
      ∧ (Bindings.ofList [shownBinding "Sun", shownBinding "Sun"]).toOption = none := by
  have hlaws := bindings_inOrder [shownBinding "Moon", shownBinding "Sun"]
  refine ⟨by decide +kernel, ?_, ?_⟩
  · exact hlaws.2.2.2.2 _ (.swap ..)
  · decide +kernel

end Scenograph
