import Mathlib.Data.List.Nodup
import Scenograph.Lowering.Plan

namespace Scenograph

theorem shown_injective {m n : Nat} (h : shown m = shown n) : m = n := by
  have hdigits : Nat.toDigits 10 m = Nat.toDigits 10 n := String.ofList_injective h
  have hvalue := congrArg (fun ds => Nat.ofDigitChars 10 ds 0) hdigits
  simpa using hvalue

theorem ObjectKind.mem_all (kind : ObjectKind) : kind ∈ ObjectKind.all := by
  cases kind <;> decide

theorem ObjectKind.name_injective {a b : ObjectKind} (h : a.name = b.name) : a = b := by
  have hnames : (ObjectKind.all.map ObjectKind.name).Nodup := by decide +kernel
  exact List.inj_on_of_nodup_map hnames a.mem_all b.mem_all h

namespace Plan

def factoryName (kind : ObjectKind) (n : Nat) : String :=
  kind.name ++ "_" ++ shown n

theorem toList_factoryName (kind : ObjectKind) (n : Nat) :
    (factoryName kind n).toList = kind.name.toList ++ '_' :: Nat.toDigits 10 n := by
  simp [factoryName, shown]

theorem underscore_not_mem_name (kind : ObjectKind) : '_' ∉ kind.name.toList := by
  cases kind <;> decide

theorem factoryName_injective {a b : ObjectKind} {m n : Nat}
    (h : factoryName a m = factoryName b n) : a = b ∧ m = n := by
  have hlist := congrArg String.toList h
  rw [toList_factoryName, toList_factoryName, List.append_cons_inj_of_notMem
    (underscore_not_mem_name a) Nat.underscore_not_in_toDigits] at hlist
  refine ⟨ObjectKind.name_injective (String.toList_injective hlist.1), shown_injective ?_⟩
  exact congrArg String.ofList hlist.2.2

theorem underscore_mem_factoryName (kind : ObjectKind) (n : Nat) :
    '_' ∈ (factoryName kind n).toList := by
  simp [toList_factoryName]

theorem factoryName_not_fixed (kind : ObjectKind) (n : Nat) : factoryName kind n ∉ fixedMembers := by
  intro h
  have hfixed : ∀ name ∈ fixedMembers, '_' ∉ name.toList := by decide
  exact hfixed _ h (underscore_mem_factoryName kind n)

theorem factoryName_head (kind : ObjectKind) (n : Nat) :
    (factoryName kind n).toList.head? ≠ some '_' := by
  rw [toList_factoryName]
  cases kind <;> simp [ObjectKind.name]

theorem fixedMembers_head : ∀ name ∈ fixedMembers, name.toList.head? ≠ some '_' := by
  decide

theorem fixedFields_head : ∀ name ∈ fixedFields, name.toList.head? = some '_' := by
  decide

theorem cacheField_head (name : String) : (cacheField name).toList.head? = some '_' := by
  simp [cacheField]

theorem backingField_head (b : Binding) : (backingField b).toList.head? = some '_' := by
  simp [backingField]

def fieldStem (kind : ObjectKind) : String :=
  lowerFirst kind.name

theorem fieldStem_injective {a b : ObjectKind} (h : fieldStem a = fieldStem b) : a = b := by
  have hstems : (ObjectKind.all.map fieldStem).Nodup := by decide +kernel
  exact List.inj_on_of_nodup_map hstems a.mem_all b.mem_all h

theorem toList_cacheField (kind : ObjectKind) (n : Nat) :
    (cacheField (factoryName kind n)).toList
      = '_' :: ((fieldStem kind).toList ++ '_' :: Nat.toDigits 10 n) := by
  have hfirst : ∀ c cs, kind.name.toList = c :: cs →
      (lowerFirst (factoryName kind n)).toList
        = (fieldStem kind).toList ++ '_' :: Nat.toDigits 10 n := by
    intro c cs hname
    simp [lowerFirst, fieldStem, toList_factoryName, hname]
  cases hname : kind.name.toList with
  | nil => cases kind <;> simp [ObjectKind.name] at hname
  | cons c cs => simp [cacheField, hfirst c cs hname]

theorem underscore_not_mem_fieldStem (kind : ObjectKind) : '_' ∉ (fieldStem kind).toList := by
  cases kind <;> decide +kernel

theorem cacheField_injective {a b : ObjectKind} {m n : Nat}
    (h : cacheField (factoryName a m) = cacheField (factoryName b n)) : a = b ∧ m = n := by
  have hlist := congrArg String.toList h
  rw [toList_cacheField, toList_cacheField, List.cons.injEq, List.append_cons_inj_of_notMem
    (underscore_not_mem_fieldStem a) Nat.underscore_not_in_toDigits] at hlist
  refine ⟨fieldStem_injective (String.toList_injective hlist.2.1), shown_injective ?_⟩
  exact congrArg String.ofList hlist.2.2.2

theorem cacheField_not_fixed (kind : ObjectKind) (n : Nat) :
    cacheField (factoryName kind n) ∉ fixedFields := by
  intro h
  have hfixed : ∀ name ∈ fixedFields, '_' ∉ name.toList.tail := by decide
  apply hfixed _ h
  simp [toList_cacheField]

theorem cacheField_ne_backing (kind : ObjectKind) (n : Nat) (b : Binding) :
    cacheField (factoryName kind n) ≠ backingField b := by
  intro h
  have hlist := congrArg String.toList h
  rw [toList_cacheField, backingField, String.toList_append] at hlist
  have hstem : ∀ kind ∈ ObjectKind.all, (fieldStem kind).toList.head? ∉ [none, some 't'] := by
    decide +kernel
  have hhead := congrArg (fun l => l.tail.head?) hlist
  cases hcs : (fieldStem kind).toList with
  | nil => exact hstem kind kind.mem_all (by simp [hcs])
  | cons c cs =>
      have hc : c = 't' := by simpa [hcs] using hhead
      exact hstem kind kind.mem_all (by simp [hcs, hc])

theorem backingField_injective {a b : Binding} (h : backingField a = backingField b) :
    a.name = b.name := by
  have hlist := congrArg String.toList h
  simp only [backingField, String.toList_append, List.append_cancel_left_eq] at hlist
  exact String.toList_injective hlist

theorem backingField_fixed_iff (b : Binding) :
    backingField b ∈ fixedFields ↔ b.name = "Properties" := by
  constructor
  · intro h
    have hlist : (backingField b).toList ∈ fixedFields.map String.toList := List.mem_map_of_mem h
    simp only [backingField, String.toList_append, fixedFields, List.map_cons, List.map_nil] at hlist
    apply String.toList_injective
    simpa using hlist
  · intro h
    simp [backingField, h, fixedFields]

theorem backingField_ne_compositor (b : Binding) : backingField b ≠ "_c" := by
  intro h
  have hname := (backingField_fixed_iff b).1 (by simp [h, fixedFields])
  rw [backingField, hname] at h
  exact absurd h (by decide)

end Plan

end Scenograph
