import Mathlib.Data.List.Basic
import Scenograph.Proofs.Execution.Machine
import Scenograph.Proofs.Outcome

namespace Scenograph

namespace Store

theorem lookup_put_self {name : String} {v : Value} {store : Store}
    (h : (store.lookup name).isSome) : (store.put name v).lookup name = some v := by
  induction store with
  | nil => simp at h
  | cons entry rest ih =>
      obtain ⟨n, w⟩ := entry
      by_cases hn : n = name
      · simp [put, hn]
      · have hne : (name == n) = false := by simpa using fun h => hn h.symm
        rw [List.lookup_cons, hne] at h
        simp [put, hn, List.lookup_cons, hne, ih h]

theorem lookup_put_of_ne {name other : String} {v : Value} {store : Store} (h : other ≠ name) :
    (store.put name v).lookup other = store.lookup other := by
  induction store with
  | nil => rfl
  | cons entry rest ih =>
      obtain ⟨n, w⟩ := entry
      by_cases hn : n = name
      · subst hn
        have hne : (other == n) = false := by simpa using h
        simp [put, List.lookup_cons, hne]
      · cases hother : other == n <;> simp [put, hn, List.lookup_cons, hother, ih]

end Store

structure View where
  fields : Store
  next : Nat
  made : List (Nat × ObjectKind)
  results : List (String × Value)
  links : List Link

namespace Machine

def view (m : Machine) : View :=
  ⟨m.fields, m.next, m.made, m.results, m.links⟩

@[simp] theorem view_fields (m : Machine) : m.view.fields = m.fields := rfl

@[simp] theorem view_next (m : Machine) : m.view.next = m.next := rfl

@[simp] theorem view_made (m : Machine) : m.view.made = m.made := rfl

@[simp] theorem view_results (m : Machine) : m.view.results = m.results := rfl

@[simp] theorem view_links (m : Machine) : m.view.links = m.links := rfl

@[simp] theorem ask_fields (m : Machine) (r : Request) : (m.ask r).2.fields = m.fields := rfl

@[simp] theorem ask_next (m : Machine) (r : Request) : (m.ask r).2.next = m.next + 1 := rfl

@[simp] theorem note_fields (m : Machine) (e : Event) : (m.note e).fields = m.fields := rfl

@[simp] theorem note_next (m : Machine) (e : Event) : (m.note e).next = m.next := rfl

@[simp] theorem ask_reply (m : Machine) (r : Request) : (m.ask r).1 = r.reply m.next := rfl

theorem view_ask (m : Machine) (r : Request) : (m.ask r).2.view =
    { m.view with
      next := m.next + 1
      made := m.made ++ (r.kind?.map fun kind => (m.next, kind)).toList
      links := m.links ++ (r.link? m.next).toList } := by
  cases hkind : r.kind? <;> cases hlink : r.link? m.next <;>
    simp [view, ask, made, results, links, Event.made?, Event.result?, Event.link?, hkind, hlink]

theorem view_note (m : Machine) (method name : String) (v : Value) :
    (m.note (.declared method name v)).view =
      { m.view with
        results := m.results ++ if name = "result" then [(method, v)] else [] } := by
  by_cases hname : name = "result" <;>
    simp [view, note, made, results, links, Event.made?, Event.result?, Event.link?, hname]

end Machine

def Store.HasThemeSet (store : Store) : Prop :=
  ∃ v, store.lookup "_themeProperties" = some v ∧ (v = .null ∨ ∃ id, v = .answer id)

/-- Nothing was made, linked or declared as a result, and no field has changed but the one with the
property set. -/
structure Quiet (m m' : Machine) : Prop where
  made : m'.made = m.made
  results : m'.results = m.results
  links : m'.links = m.links
  next : m.next ≤ m'.next
  fields : ∀ name, name ≠ "_themeProperties" → m'.fields.lookup name = m.fields.lookup name
  theme : m.fields.HasThemeSet → m'.fields.HasThemeSet

namespace Quiet

theorem refl (m : Machine) : Quiet m m :=
  ⟨rfl, rfl, rfl, Nat.le_refl _, fun _ _ => rfl, id⟩

theorem trans {m m' m'' : Machine} (h : Quiet m m') (h' : Quiet m' m'') : Quiet m m'' where
  made := h'.made.trans h.made
  results := h'.results.trans h.results
  links := h'.links.trans h.links
  next := Nat.le_trans h.next h'.next
  fields := fun name hname => (h'.fields name hname).trans (h.fields name hname)
  theme := fun hset => h'.theme (h.theme hset)

theorem of_view {m m' : Machine} (h : m'.view = { m.view with next := m'.next })
    (hnext : m.next ≤ m'.next) : Quiet m m' where
  made := congrArg View.made h
  results := congrArg View.results h
  links := congrArg View.links h
  next := hnext
  fields := fun name _ => congrArg (List.lookup name) (congrArg View.fields h)
  theme := fun hset => by
    have hfields : m'.fields = m.fields := congrArg View.fields h
    rwa [hfields]

theorem ask (m : Machine) {r : Request} (hkind : r.kind? = none) (hlink : r.link? m.next = none) :
    Quiet m (m.ask r).2 := by
  apply of_view
  · rw [Machine.view_ask]
    simp [hkind, hlink, Machine.view]
  · simp

theorem note (m : Machine) {method name : String} {v : Value} (hname : name ≠ "result") :
    Quiet m (m.note (.declared method name v)) := by
  apply of_view
  · rw [Machine.view_note]
    simp [hname, Machine.view]
  · simp

end Quiet

namespace Node

variable {call : Caller} {method : String}

theorem execAll_cons_none {n : Node} {rest : List Node} {locals locals' : Store}
    {m m' : Machine} (h : n.exec call method locals m = .ok ⟨none, locals', m'⟩) :
    Node.execAll call method (n :: rest) locals m = Node.execAll call method rest locals' m' := by
  rw [Node.execAll, h]
  rfl

theorem execAll_cons_some {n : Node} {rest : List Node} {locals locals' : Store}
    {m m' : Machine} {v : Value} (h : n.exec call method locals m = .ok ⟨some v, locals', m'⟩) :
    Node.execAll call method (n :: rest) locals m = .ok ⟨some v, locals', m'⟩ := by
  rw [Node.execAll, h]
  rfl

end Node

end Scenograph
