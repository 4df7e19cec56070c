import Mathlib.Logic.Function.Basic
import Scenograph.Proofs.Execution.Body

namespace Scenograph

/-- The objects of nodes in the order in which they were made, the nodes whose factories have
returned, and how many of its edges each node is linked along. -/
structure Progress where
  objects : List (Nat × Nat)
  done : List Nat
  used : Nat → Nat

namespace Progress

def make (s : Progress) (i a : Nat) : Progress :=
  { s with objects := s.objects ++ [(i, a)] }

def link (s : Progress) (i : Nat) : Progress :=
  { s with used := Function.update s.used i (s.used i + 1) }

def finish (s : Progress) (i : Nat) : Progress :=
  { s with done := i :: s.done }

end Progress

def Matches (s : Progress) (a : Nat) (e : Wire) (l : Link) : Prop :=
  l.owner = a ∧ l.via = e.via ∧ l.label = e.label ∧ (e.target, l.target) ∈ s.objects

structure Sound (x : Parts) (s : Progress) (v : View) : Prop where
  ready : Ready x v.fields
  made : v.made = s.objects.filterMap fun y =>
    x.plan.graph.objects[y.1]?.map fun o => (y.2, o.kind)
  results : v.results = s.objects.filterMap fun y =>
    (x.plan.names.lookup y.1).map fun name => (name, .object y.2)
  links : ∀ y ∈ s.objects, List.Forall₂ (Matches s y.2)
    ((x.plan.graph.wiresOf y.1).take (s.used y.1)) (v.links.filter (·.owner == y.2))
  owners : ∀ l ∈ v.links, l.owner ∈ s.objects.map (·.2)
  nodes : (s.objects.map (·.1)).Nodup
  ids : (s.objects.map (·.2)).Nodup
  fresh : ∀ a ∈ s.objects.map (·.2), a < v.next
  members : ∀ i ∈ s.objects.map (·.1), i ∈ x.plan.order
  idle : ∀ i, i ∉ s.objects.map (·.1) → s.used i = 0
  finished : ∀ i ∈ s.done, i ∈ s.objects.map (·.1) ∧ s.used i = (x.plan.graph.wiresOf i).length
  followed : ∀ i k e, k < s.used i → (x.plan.graph.wiresOf i)[k]? = some e → e.target ∈ s.done
  empty : ∀ i name, i ∈ x.plan.shared → x.plan.nameOf i = .ok name → i ∉ s.done →
    v.fields.lookup (Plan.cacheField name) = some .null
  kept : ∀ i name a, i ∈ x.plan.shared → x.plan.nameOf i = .ok name → i ∈ s.done →
    (i, a) ∈ s.objects → v.fields.lookup (Plan.cacheField name) = some (.object a)

theorem Matches.mono {s s' : Progress} (h : s.objects ⊆ s'.objects) {a : Nat} {e : Wire} {l : Link}
    (hl : Matches s a e l) : Matches s' a e l :=
  ⟨hl.1, hl.2.1, hl.2.2.1, h hl.2.2.2⟩

section Steps

variable {x : Parts} {t : Target} (hx : x.Of x.plan.graph t) {s : Progress} {v : View} {i a : Nat}
  {name : String}

theorem Sound.mem_objects (h : Sound x s v) {b : Nat} (ha : (i, a) ∈ s.objects)
    (hb : (i, b) ∈ s.objects) : a = b :=
  congrArg Prod.snd (List.inj_on_of_nodup_map h.nodes ha hb rfl)

include hx in
theorem Sound.quiet {m m' : Machine} (h : Sound x s m.view) (hq : Quiet m m') :
    Sound x s m'.view := by
  have hfield : ∀ i name, x.plan.nameOf i = .ok name →
      m'.fields.lookup (Plan.cacheField name) = m.fields.lookup (Plan.cacheField name) := by
    intro i name hname
    exact hq.fields _ (hx.planned.cacheField_ne_fixed hname (by decide))
  have hlinks : m'.view.links = m.view.links := hq.links
  exact {
    ready := h.ready.quiet hq
    made := hq.made.trans h.made
    results := hq.results.trans h.results
    links := by rw [hlinks]; exact h.links
    owners := by rw [hlinks]; exact h.owners
    nodes := h.nodes
    ids := h.ids
    fresh := fun a ha => Nat.lt_of_lt_of_le (h.fresh a ha) hq.next
    members := h.members
    idle := h.idle
    finished := h.finished
    followed := h.followed
    empty := fun i name hi hname hdone => (hfield i name hname).trans (h.empty i name hi hname hdone)
    kept := fun i name a hi hname hdone ha =>
      (hfield i name hname).trans (h.kept i name a hi hname hdone ha) }

theorem Sound.make {o : CompositionObject} {next : Nat} (h : Sound x s v) (hi : i ∈ x.plan.order)
    (hnew : i ∉ s.objects.map (·.1)) (ho : x.plan.graph.objects[i]? = some o)
    (hname : x.plan.nameOf i = .ok name) (ha : v.next ≤ a) (hnext : a < next) :
    Sound x (s.make i a)
      { v with
        next
        made := v.made ++ [(a, o.kind)]
        results := v.results ++ [(name, .object a)] } := by
  have hsub : s.objects ⊆ (s.make i a).objects := List.subset_append_left _ _
  have hold : ∀ b ∈ s.objects.map (·.2), b < a := fun b hb => Nat.lt_of_lt_of_le (h.fresh b hb) ha
  have hnodes : (s.make i a).objects.map (·.1) = s.objects.map (·.1) ++ [i] := by
    simp [Progress.make]
  have hids : (s.make i a).objects.map (·.2) = s.objects.map (·.2) ++ [a] := by
    simp [Progress.make]
  exact {
    ready := h.ready
    made := by simp [h.made, Progress.make, ho]
    results := by simp [h.results, Progress.make, Plan.nameOf_eq_ok.1 hname]
    links := by
      intro y hy
      rcases List.mem_append.1 hy with hy | hy
      · exact (h.links y hy).imp fun _ _ => Matches.mono hsub
      · -- the new object has no links yet
        obtain rfl := List.mem_singleton.1 hy
        have hnone : v.links.filter (·.owner == a) = [] := by
          apply List.filter_eq_nil_iff.2
          intro l hl
          have := hold _ (h.owners l hl)
          simp only [beq_iff_eq]
          omega
        have hzero : (s.make i a).used i = 0 := h.idle i hnew
        simp only [hzero, List.take_zero, hnone]
        exact .nil
    owners := fun l hl => by
      rw [hids]
      exact List.mem_append_left _ (h.owners l hl)
    nodes := by
      rw [hnodes]
      exact List.nodup_append_comm.1 (List.nodup_cons.2 ⟨hnew, h.nodes⟩)
    ids := by
      rw [hids]
      exact List.nodup_append_comm.1
        (List.nodup_cons.2 ⟨fun hmem => Nat.lt_irrefl _ (hold a hmem), h.ids⟩)
    fresh := by
      intro b hb
      rw [hids] at hb
      rcases List.mem_append.1 hb with hb | hb
      · exact Nat.lt_trans (hold b hb) hnext
      · exact List.mem_singleton.1 hb ▸ hnext
    members := by
      intro j hj
      rw [hnodes] at hj
      rcases List.mem_append.1 hj with hj | hj
      · exact h.members j hj
      · exact List.mem_singleton.1 hj ▸ hi
    idle := fun j hj => h.idle j fun hmem => hj (by rw [hnodes]; exact List.mem_append_left _ hmem)
    finished := fun j hj => by
      rw [hnodes]
      exact ⟨List.mem_append_left _ (h.finished j hj).1, (h.finished j hj).2⟩
    followed := h.followed
    empty := h.empty
    kept := by
      intro j other b hj hother hdone hb
      rcases List.mem_append.1 hb with hb | hb
      · exact h.kept j other b hj hother hdone hb
      · cases List.mem_singleton.1 hb
        exact absurd (h.finished i hdone).1 hnew }

theorem Progress.link_used_self : (s.link i).used i = s.used i + 1 :=
  Function.update_self ..

theorem Progress.link_used_of_ne {j : Nat} (h : j ≠ i) : (s.link i).used j = s.used j :=
  Function.update_of_ne h ..

theorem Sound.link {e : Wire} {b next : Nat} (h : Sound x s v) (ha : (i, a) ∈ s.objects)
    (he : (x.plan.graph.wiresOf i)[s.used i]? = some e) (hdone : e.target ∈ s.done)
    (hb : (e.target, b) ∈ s.objects) (hnext : v.next ≤ next) :
    Sound x (s.link i) { v with next, links := v.links ++ [⟨a, e.via, e.label, b⟩] } := by
  have hopen : i ∉ s.done := by
    intro hmem
    have hlt := (List.getElem?_eq_some_iff.1 he).1
    rw [(h.finished i hmem).2] at hlt
    omega
  exact {
    ready := h.ready
    made := h.made
    results := h.results
    links := by
      intro y hy
      have hlinks := h.links y hy
      by_cases hyi : y.1 = i
      · have hya : y.2 = a := h.mem_objects (i := i) (hyi ▸ hy) ha
        rw [hyi, hya] at hlinks ⊢
        rw [Progress.link_used_self, List.take_add_one, he, List.filter_append]
        refine List.rel_append hlinks ?_
        simpa using ⟨rfl, rfl, rfl, hb⟩
      · have hya : y.2 ≠ a := fun heq =>
          hyi (congrArg Prod.fst (List.inj_on_of_nodup_map h.ids hy ha heq))
        have hskip : [(⟨a, e.via, e.label, b⟩ : Link)].filter (·.owner == y.2) = [] := by
          simpa using fun heq => hya heq.symm
        rw [Progress.link_used_of_ne hyi, List.filter_append, hskip, List.append_nil]
        exact hlinks
    owners := by
      intro l hl
      rcases List.mem_append.1 hl with hl | hl
      · exact h.owners l hl
      · cases List.mem_singleton.1 hl
        exact List.mem_map.2 ⟨(i, a), ha, rfl⟩
    nodes := h.nodes
    ids := h.ids
    fresh := fun c hc => Nat.lt_of_lt_of_le (h.fresh c hc) hnext
    members := h.members
    idle := by
      intro j hj
      have hji : j ≠ i := fun heq => hj (List.mem_map.2 ⟨(i, a), ha, heq.symm⟩)
      rw [Progress.link_used_of_ne hji]
      exact h.idle j hj
    finished := by
      intro j hj
      have hji : j ≠ i := fun heq => hopen (heq ▸ hj)
      rw [Progress.link_used_of_ne hji]
      exact h.finished j hj
    followed := by
      intro j k f hk hf
      by_cases hji : j = i
      · subst hji
        rw [Progress.link_used_self] at hk
        rcases Nat.lt_or_eq_of_le (Nat.le_of_lt_succ hk) with hk | rfl
        · exact h.followed j k f hk hf
        · rw [he] at hf
          cases hf
          exact hdone
      · rw [Progress.link_used_of_ne hji] at hk
        exact h.followed j k f hk hf
    empty := h.empty
    kept := h.kept }

include hx in
theorem Sound.finish {fields : Store} (h : Sound x s v) (ha : (i, a) ∈ s.objects)
    (hname : x.plan.nameOf i = .ok name)
    (hused : s.used i = (x.plan.graph.wiresOf i).length)
    (hkept : i ∈ x.plan.shared → fields.lookup (Plan.cacheField name) = some (.object a))
    (hfields : ∀ field, field ≠ Plan.cacheField name → fields.lookup field = v.fields.lookup field) :
    Sound x (s.finish i) { v with fields } := by
  have hother : ∀ j other, x.plan.nameOf j = .ok other → j ≠ i →
      fields.lookup (Plan.cacheField other) = v.fields.lookup (Plan.cacheField other) := by
    intro j other hj hne
    exact hfields _ fun heq => hne (hx.planned.eq_of_cacheField_eq hj hname heq)
  exact {
    ready := by
      obtain ⟨c, hc, hlookup⟩ := h.ready.compositor
      refine ⟨⟨c, hc, ?_⟩, ?_, fun htheme => ?_, fun htheme b hb => ?_⟩
      · rw [hfields _ (hx.planned.cacheField_ne_fixed hname (by decide)).symm, hlookup]
      · rw [hfields _ (hx.planned.cacheField_ne_fixed hname (by decide)).symm]
        exact h.ready.root
      · obtain ⟨w, hw, hset⟩ := h.ready.theme htheme
        refine ⟨w, ?_, hset⟩
        rw [hfields _ (hx.planned.cacheField_ne_fixed hname (by decide)).symm, hw]
      · rw [hfields _ (hx.planned.cacheField_ne_backingField hname b).symm]
        exact h.ready.backing htheme b hb
    made := h.made
    results := h.results
    links := h.links
    owners := h.owners
    nodes := h.nodes
    ids := h.ids
    fresh := h.fresh
    members := h.members
    idle := h.idle
    finished := by
      intro j hj
      rcases List.mem_cons.1 hj with rfl | hj
      · exact ⟨List.mem_map.2 ⟨(j, a), ha, rfl⟩, hused⟩
      · exact h.finished j hj
    followed := fun j k e hk he => List.mem_cons_of_mem _ (h.followed j k e hk he)
    empty := by
      intro j other hj hother' hdone
      have hji : j ≠ i := fun heq => hdone (heq ▸ List.mem_cons_self ..)
      rw [hother j other hother' hji]
      exact h.empty j other hj hother' fun hmem => hdone (List.mem_cons_of_mem _ hmem)
    kept := by
      intro j other b hj hother' hdone hb
      by_cases hji : j = i
      · subst hji
        cases hname.symm.trans hother'
        rw [hkept hj, h.mem_objects ha hb]
      · rw [hother j other hother' hji]
        exact h.kept j other b hj hother' ((List.mem_cons.1 hdone).resolve_left hji) hb }

end Steps

end Scenograph
