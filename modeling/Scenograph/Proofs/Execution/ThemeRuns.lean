import Mathlib.Algebra.Order.Ring.Nat
import Mathlib.Tactic.SplitIfs
import Scenograph.Proofs.Execution.Construction
import Scenograph.Proofs.Execution.Theme
import Scenograph.Proofs.Lowering.Members
import Scenograph.Proofs.Lowering.Scope

namespace Scenograph

namespace Accessor

def get (call : Caller) (a : Accessor) (m : Machine) : Except Halt (Value × Machine) :=
  (Expr.var a.field).eval call [] m

def set (call : Caller) (a : Accessor) (v : Value) (m : Machine) : Except Halt Machine := do
  let stand ← a.setter.exec call a.name [("value", v)] m
  return stand.machine

end Accessor

inductive ThemeAction where
  | set (binding : String) (value : Value)
  | ensure
  deriving DecidableEq, Repr

def ThemeAction.value? (name : String) : ThemeAction → Option Value
  | .set other v => if other = name then some v else none
  | .ensure => none

def lastSet (name : String) (actions : List ThemeAction) : Option Value :=
  (actions.filterMap (ThemeAction.value? name)).getLast?

namespace ClassUnit

end ClassUnit

def Event.request? : Event → Option (Nat × Request)
  | .asked id r => some (id, r)
  | .declared _ _ _ => none

namespace Request

def put? (set : Value) (name : String) : Request → Option (String × Value)
  | .call receiver method [.data (.string key), v] =>
      if receiver = set ∧ key = name ∧ method ∈ ValueKind.all.map ValueKind.insertMethod then
        some (method, v)
      else none
  | _ => none

end Request

namespace Machine

def requests (m : Machine) : List (Nat × Request) :=
  m.log.filterMap Event.request?

def held? (m : Machine) (set : Value) (name : String) : Option (String × Value) :=
  (m.requests.filterMap (·.2.put? set name)).getLast?

def StoredAs (m : Machine) (b : Binding) (v w : Value) : Prop :=
  if Plan.convertsColor b then
    ∃ id, w = .answer id ∧ m.requests.lookup id = some (.construct (.builtIn .vector4) (channels v))
  else w = v

def Holds (m : Machine) (set : Value) (b : Binding) (v : Value) : Prop :=
  ∃ w, m.StoredAs b v w ∧ m.held? set b.name = some (b.stored.insertMethod, w)

def stored (m : Machine) (b : Binding) (v : Value) : Value × Machine :=
  if Plan.convertsColor b then m.ask (.construct (.builtIn .vector4) (channels v)) else (v, m)

def inserted (m : Machine) (set : Value) (b : Binding) (v : Value) : Machine :=
  ((m.stored b v).2.ask
    (.call set b.stored.insertMethod [.data (.string b.name), (m.stored b v).1])).2

def Numbered (m : Machine) : Prop :=
  ∀ y ∈ m.requests, y.1 < m.next

@[simp] theorem requests_ask (m : Machine) (r : Request) :
    (m.ask r).2.requests = m.requests ++ [(m.next, r)] := by
  simp [requests, ask, Event.request?]

theorem held?_ask (m : Machine) (r : Request) (set : Value) (name : String) :
    (m.ask r).2.held? set name = (r.put? set name).or (m.held? set name) := by
  cases h : r.put? set name <;> simp [held?, h]

theorem Numbered.ask {m : Machine} (h : m.Numbered) (r : Request) : (m.ask r).2.Numbered := by
  intro y hy
  rw [requests_ask] at hy
  rw [ask_next]
  rcases List.mem_append.1 hy with hy | hy
  · exact Nat.lt_succ_of_lt (h y hy)
  · rw [List.mem_singleton.1 hy]
    exact Nat.lt_succ_self _

theorem lookup_requests_ask {m : Machine} {id : Nat} {r r' : Request}
    (h : m.requests.lookup id = some r) : (m.ask r').2.requests.lookup id = some r := by
  rw [requests_ask, List.lookup_append, h, Option.some_or]

theorem Numbered.lookup_requests_ask {m : Machine} (h : m.Numbered) (r : Request) :
    (m.ask r).2.requests.lookup m.next = some r := by
  have hnew : m.requests.lookup m.next = none := by
    refine List.lookup_eq_none_iff.2 fun y hy => ?_
    simpa using (h y hy).ne'
  simp [hnew, List.lookup_append]

theorem StoredAs.ask {m : Machine} {b : Binding} {v w : Value} (h : m.StoredAs b v w)
    (r : Request) : (m.ask r).2.StoredAs b v w := by
  unfold StoredAs at h ⊢
  split_ifs at h ⊢ with hconverts
  · obtain ⟨id, hw, hid⟩ := h
    exact ⟨id, hw, lookup_requests_ask hid⟩
  · exact h

section Stored

variable {m : Machine} (b : Binding) (v : Value)

@[simp] theorem stored_fields : (m.stored b v).2.fields = m.fields := by
  unfold stored
  split <;> rfl

theorem Numbered.stored (h : m.Numbered) : (m.stored b v).2.Numbered := by
  unfold Machine.stored
  split
  · exact h.ask _
  · exact h

variable {b v} in
theorem StoredAs.stored {b' : Binding} {v' w : Value} (h : m.StoredAs b' v' w) :
    (m.stored b v).2.StoredAs b' v' w := by
  unfold Machine.stored
  split
  · exact h.ask _
  · exact h

theorem held?_stored (set : Value) (name : String) :
    (m.stored b v).2.held? set name = m.held? set name := by
  unfold stored
  split
  · rw [held?_ask]
    rfl
  · rfl

end Stored

end Machine

namespace Machine

section Inserted

variable {m : Machine} (set : Value) (b : Binding) (v : Value)

theorem Numbered.inserted (h : m.Numbered) : (m.inserted set b v).Numbered :=
  (h.stored b v).ask _

variable {b v} in
theorem StoredAs.inserted {b' : Binding} {v' w : Value} (h : m.StoredAs b' v' w) :
    (m.inserted set b v).StoredAs b' v' w :=
  h.stored.ask _

variable {set b v} in
theorem Holds.inserted {b' : Binding} {v' : Value} (h : m.Holds set b' v')
    (hname : b.name ≠ b'.name) : (m.inserted set b v).Holds set b' v' := by
  obtain ⟨w, hw, hheld⟩ := h
  refine ⟨w, hw.inserted set, ?_⟩
  rw [Machine.inserted, held?_ask, held?_stored, hheld]
  simp [Request.put?, hname]

end Inserted

def kept (m : Machine) (b : Binding) (v : Value) : Machine :=
  { m with fields := m.fields.put (Plan.backingField b) v }

def seeded (m : Machine) (set : Value) (current : Binding → Value) : List Binding → Machine
  | [] => m
  | b :: rest => (m.inserted set b (current b)).seeded set current rest

end Machine

section Code

variable {x : Parts} {depth : Nat} {m : Machine} {locals : Store} {b : Binding} {v set : Value}

end Code

namespace Machine

section Seeded

variable {m : Machine} {set : Value} {current : Binding → Value} {bs : List Binding}

theorem Numbered.seeded (h : m.Numbered) : (m.seeded set current bs).Numbered := by
  induction bs generalizing m with
  | nil => exact h
  | cons b bs ih => exact ih (h.inserted set b _)

theorem Holds.seeded {b : Binding} {v : Value} (h : m.Holds set b v)
    (hname : b.name ∉ bs.map (·.name)) : (m.seeded set current bs).Holds set b v := by
  induction bs generalizing m with
  | nil => exact h
  | cons b' bs ih =>
      rw [List.map_cons, List.mem_cons, not_or] at hname
      exact ih (h.inserted (Ne.symm hname.1)) hname.2

end Seeded

end Machine

theorem lastSet_append_set_self (name : String) (v : Value) (actions : List ThemeAction) :
    lastSet name (actions ++ [ThemeAction.set name v]) = some v := by
  simp [lastSet, ThemeAction.value?]

theorem lastSet_append_set_of_ne {name other : String} (h : other ≠ name) (v : Value)
    (actions : List ThemeAction) :
    lastSet name (actions ++ [ThemeAction.set other v]) = lastSet name actions := by
  simp [lastSet, ThemeAction.value?, h]

theorem lastSet_append_ensure (name : String) (actions : List ThemeAction) :
    lastSet name (actions ++ [.ensure]) = lastSet name actions := by
  simp [lastSet, ThemeAction.value?]

def currentValue (actions : List ThemeAction) (b : Binding) : Value :=
  (lastSet b.name actions).getD (.ofLiteral (Plan.valueLiteral b.default))

theorem currentValue_set_self (actions : List ThemeAction) (b : Binding) (v : Value) :
    currentValue (actions ++ [.set b.name v]) b = v := by
  rw [currentValue, lastSet_append_set_self, Option.getD_some]

theorem currentValue_set_of_ne (actions : List ThemeAction) {b b' : Binding} (v : Value)
    (h : b.name ≠ b'.name) :
    currentValue (actions ++ [.set b.name v]) b' = currentValue actions b' := by
  rw [currentValue, lastSet_append_set_of_ne h, currentValue]

theorem currentValue_ensure (actions : List ThemeAction) :
    currentValue (actions ++ [.ensure]) = currentValue actions := by
  funext b
  rw [currentValue, lastSet_append_ensure, currentValue]

structure ThemeFields (x : Parts) (c : Value) (done : List ThemeAction) (fields : Store) :
    Prop where
  compositor : fields.lookup "_c" = some c
  theme : x.usesTheme = true → (fields.lookup "_themeProperties").isSome
  backing : ∀ b ∈ x.plan.graph.bindings.values,
    fields.lookup (Plan.backingField b) = some (currentValue done b)

structure Separate (x : Parts) : Prop where
  names : (x.plan.graph.bindings.values.map (·.name)).Nodup
  theme : ∀ b ∈ x.plan.graph.bindings.values, Plan.backingField b ≠ "_themeProperties"

section Steps

variable {x : Parts} {c : Value} {done : List ThemeAction} {m : Machine} {depth : Nat}

theorem ThemeFields.null {fields : Store} (h : ThemeFields x c done fields)
    (htheme : x.usesTheme = true)
    (hnull : ∀ set, fields.lookup "_themeProperties" = some set → set = .null) :
    fields.lookup "_themeProperties" = some .null := by
  obtain ⟨set, hset⟩ := Option.isSome_iff_exists.1 (h.theme htheme)
  rw [hset, hnull set hset]

theorem ThemeFields.kept (hx : Separate x) {b : Binding}
    (hb : b ∈ x.plan.graph.bindings.values) (v : Value) (h : ThemeFields x c done m.fields) :
    ThemeFields x c (done ++ [.set b.name v]) (m.kept b v).fields where
  compositor := (Store.lookup_put_of_ne (Plan.backingField_ne_compositor b).symm).trans h.compositor
  theme := fun htheme => by
    rw [Machine.kept, Store.lookup_put_of_ne (hx.theme b hb).symm]
    exact h.theme htheme
  backing := by
    intro b' hb'
    by_cases hname : b.name = b'.name
    · cases List.inj_on_of_nodup_map hx.names hb hb' hname
      rw [currentValue_set_self]
      exact Store.lookup_put_self (by simp [h.backing b hb])
    · rw [currentValue_set_of_ne done v hname, ← h.backing b' hb']
      exact Store.lookup_put_of_ne fun heq => hname (Plan.backingField_injective heq).symm

theorem ThemeFields.ensure {fields : Store} (h : ThemeFields x c done fields) :
    ThemeFields x c (done ++ [.ensure]) fields :=
  ⟨h.compositor, h.theme, by rw [currentValue_ensure]; exact h.backing⟩

end Steps

section Runs

variable {x : Parts} {t : Target} (hx : x.Of x.plan.graph t)

include hx

end Runs

end Scenograph
