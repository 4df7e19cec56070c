import Scenograph.Json.Decode
import Scenograph.Proofs.Json.Text
import Scenograph.Proofs.Outcome

namespace Scenograph

def Json.Format.Faithful (f : Json.Format) : Prop :=
  ∀ v : Json, v.Writable Json.maxDepth → f.parse (f.print v) = ⟨v, true⟩

theorem Json.Format.standard_faithful : Json.Format.standard.Faithful :=
  fun _ hv => Json.read_pretty hv

variable {α β : Type}

structure Decoder.Restores (decode : Decoder α) (depth : Nat) (v : Json) (a : α) : Prop where
  writable : v.Writable depth
  decodes : decode depth v = .ok a

def Decoder.Yields (decode : Decoder α) (P : α → Prop) : Prop :=
  ∀ depth v a, decode depth v = .ok a → P a

namespace Decoder

variable {depth : Nat}

theorem float_restores {x : Float} (hx : x.isFinite = true) : float.Restores depth (.float x) x :=
  ⟨.float hx, by simp [float, hx]⟩

theorem natBelow_restores {limit n : Nat} (hn : n < limit) (hlimit : limit ≤ Nat.pow 2 64) :
    (natBelow limit).Restores depth (.nat n) n := by
  refine ⟨.int ?_ (Int.ofNat_lt.2 (hn.trans_le hlimit)), by simp [natBelow, Json.nat, hn]⟩
  exact (Int.neg_nonpos_of_nonneg (Int.natCast_nonneg _)).trans (Int.natCast_nonneg n)

theorem bool_restores (b : Bool) : bool.Restores depth (.bool b) b :=
  ⟨.bool b, rfl⟩

theorem string_restores (s : String) : string.Restores depth (.text s) s :=
  ⟨.str s, rfl⟩

theorem Restores.map {decode : Decoder α} {v : Json} {a : α} (h : decode.Restores depth v a)
    (f : α → β) : (decode.map f).Restores depth v (f a) :=
  ⟨h.writable, by rw [Decoder.map, h.decodes]; rfl⟩

theorem nullable_restores {decode : Decoder α} {encode : α → Json} {o : Option α}
    (h : ∀ a ∈ o, decode.Restores depth (encode a) a) (hnull : ∀ a, encode a ≠ .null) :
    decode.nullable.Restores depth (.option encode o) o := by
  cases o with
  | none => exact ⟨.null, rfl⟩
  | some a =>
      have ha := h a rfl
      refine ⟨ha.writable, ?_⟩
      rw [Json.option, nullable, ha.decodes]
      · rfl
      · exact hnull a

theorem list_restores {decode : Decoder α} {encode : α → Json} {items : List α}
    (h : ∀ a ∈ items, decode.Restores depth (encode a) a) :
    (list decode).Restores (depth + 1) (.list encode items) items := by
  refine ⟨.arr fun v hv => ?_, mapM_eq_ok.2 ?_⟩
  · obtain ⟨a, ha, rfl⟩ := List.mem_map.1 hv
    exact (h a ha).writable
  · rw [List.forall₂_map_left_iff]
    exact List.forall₂_same.2 fun a ha => (h a ha).decodes

theorem oneOf_restores_plain {variants : List (String × Variant α)} {name : String} {a : α}
    (h : variants.lookup name = some (.plain a)) :
    (oneOf variants).Restores depth (.text name) a :=
  ⟨.str name, by simp only [Json.text, oneOf, h]⟩

theorem oneOf_restores_content {variants : List (String × Variant α)} {name : String}
    {decode : Decoder α} {v : Json} {a : α} (h : decode.Restores depth v a)
    (hname : variants.lookup name = some (.content decode)) :
    (oneOf variants).Restores (depth + 1) (.variant name v) a := by
  have hkeys : ([(name, v)].map (·.1)).Nodup := List.nodup_singleton name
  have hwritable : ∀ m ∈ [(name, v)], m.2.Writable depth := by simpa using h.writable
  refine ⟨.obj hkeys hwritable, ?_⟩
  simp [Json.variant, oneOf, hname, h.decodes]

end Decoder

namespace Fields

structure Restores (fields : Fields α) (depth : Nat) (members : List (String × Json)) (a : α) :
    Prop where
  keys : fields.keys = members.map (·.1)
  writable : ∀ m ∈ members, m.2.Writable depth
  reads : ∀ all : List (String × Json), members ⊆ all → (all.map (·.1)).Nodup →
    fields.read depth ⟨Json.keyed all, false⟩ = .ok a

theorem start_restores (make : α) (depth : Nat) : (start make).Restores depth [] make :=
  ⟨rfl, by simp, fun _ _ _ => rfl⟩

theorem lookup_keyed {members : List (String × Json)} (hnodup : (members.map (·.1)).Nodup)
    {key : String} {v : Json} (hmem : (key, v) ∈ members) (place : Nat) :
    ∃ found, lookup key place (Json.keyed members) = some (found, v) := by
  induction members generalizing place with
  | nil => cases hmem
  | cons m ms ih =>
      obtain ⟨hnew, hms⟩ := List.nodup_cons.1 hnodup
      rcases List.mem_cons.1 hmem with rfl | hmem
      · exact ⟨place, by simp [lookup]⟩
      · have hne : m.1 ≠ key := fun heq => hnew (List.mem_map.2 ⟨_, hmem, heq.symm⟩)
        obtain ⟨found, hfound⟩ := ih hms hmem (place + 1)
        exact ⟨found, by simpa [lookup, hne] using hfound⟩

theorem Restores.field {first : Fields (α → β)} {depth : Nat} {members : List (String × Json)}
    {f : α → β} {key : String} {decode : Decoder α} {absent : Members → Except Refusal α}
    {v : Json} {a : α} (hfirst : first.Restores depth members f)
    (hfield : decode.Restores depth v a) :
    (first.andThen (field key decode absent)).Restores depth (members ++ [(key, v)]) (f a) := by
  refine ⟨by simp [andThen, Fields.field, hfirst.keys], fun m hm => ?_, fun all hall hnodup => ?_⟩
  · rcases List.mem_append.1 hm with hm | hm
    · exact hfirst.writable m hm
    · rw [List.mem_singleton.1 hm]
      exact hfield.writable
  · obtain ⟨found, hfound⟩ :=
      lookup_keyed hnodup (hall (List.mem_append_right _ (List.mem_singleton_self _))) 0
    have hread := hfirst.reads all (fun m hm => hall (List.mem_append_left _ hm)) hnodup
    simp [andThen, Fields.field, hread, hfound, hfield.decodes, Located.placed, Located.both]

theorem stray_keyed {keys seen : List String} {members : List (String × Json)} (place : Nat)
    (hkeys : ∀ m ∈ members, m.1 ∈ keys) (hnodup : (members.map (·.1)).Nodup)
    (hseen : ∀ m ∈ members, m.1 ∉ seen) : stray keys seen place (Json.keyed members) = none := by
  induction members generalizing seen place with
  | nil => rfl
  | cons m ms ih =>
      obtain ⟨hnew, hms⟩ := List.nodup_cons.1 hnodup
      have hkey : keys.contains m.1 = true := by simpa using hkeys m (List.mem_cons_self ..)
      have hfresh : seen.contains m.1 = false := by simpa using hseen m (List.mem_cons_self ..)
      simp only [List.map_cons, stray, hkey, hfresh, if_true, Bool.false_eq_true, if_false]
      refine ih (place + 1) (fun m' hm' => hkeys m' (List.mem_cons_of_mem _ hm')) hms
        fun m' hm' => ?_
      simp only [List.mem_cons, not_or]
      exact ⟨fun heq => hnew (List.mem_map.2 ⟨m', hm', heq⟩), hseen m' (List.mem_cons_of_mem _ hm')⟩

end Fields

theorem Decoder.record_restores {fields : Fields α} {depth : Nat} {members : List (String × Json)}
    {v : Json} {a : α} (h : fields.Restores depth members a) (hnodup : fields.keys.Nodup)
    (hv : v = .record members) : (Decoder.record fields).Restores (depth + 1) v a := by
  subst hv
  rw [h.keys] at hnodup
  have hstray : Fields.stray fields.keys [] 0 (Json.keyed members) = none :=
    Fields.stray_keyed 0 (fun m hm => h.keys ▸ List.mem_map_of_mem hm) hnodup (by simp)
  have hreads := h.reads members (List.Subset.refl _) hnodup
  refine ⟨.obj hnodup h.writable, ?_⟩
  simp [Json.record, Decoder.record, Fields.finish, hstray, hreads, Located.both, Except.map]

namespace Decoder

theorem yields_any (decode : Decoder α) : decode.Yields fun _ => True :=
  fun _ _ _ _ => trivial

theorem Yields.decodeIn {decode : Decoder α} {P : α → Prop} (h : decode.Yields P) {f : Json.Format}
    {text : String} {a : α} (ha : decode.decodeIn f text = .ok a) : P a := by
  obtain ⟨a', ha', hread⟩ := bind_eq_ok.1 ha
  split at hread
  · cases hread
    exact h _ _ _ ha'
  · cases hread

theorem float_yields : float.Yields fun x => x.isFinite = true := by
  have hkept : ∀ {x y : Float},
      (if x.isFinite then .ok x else .error .malformed : Except Refusal Float) = .ok y →
        y.isFinite = true := by
    intro x y h
    split at h
    · next hfinite =>
        cases h
        exact hfinite
    · cases h
  intro depth v x h
  unfold float at h
  split at h
  · exact hkept h
  · exact hkept h
  · cases h

theorem natBelow_yields (limit : Nat) : (natBelow limit).Yields fun n => n < limit := by
  intro depth v n h
  unfold natBelow at h
  split at h
  · split at h
    · next hrange =>
        cases h
        omega
    · cases h
  · cases h

variable {P : α → Prop} {decode : Decoder α}

theorem map_yields {f : α → β} {Q : β → Prop} (h : decode.Yields fun a => Q (f a)) :
    (decode.map f).Yields Q := by
  intro depth v b hb
  rw [Decoder.map] at hb
  cases hdecode : decode depth v with
  | error e =>
      rw [hdecode] at hb
      cases hb
  | ok a =>
      rw [hdecode] at hb
      cases hb
      exact h depth v a hdecode

theorem nullable_yields (h : decode.Yields P) : decode.nullable.Yields fun o => ∀ a ∈ o, P a := by
  intro depth v o ho
  cases o with
  | none => simp
  | some a =>
      unfold nullable at ho
      split at ho
      · cases ho
      · cases hdecode : decode depth v with
        | error e =>
            rw [hdecode] at ho
            cases ho
        | ok a' =>
            rw [hdecode] at ho
            cases ho
            simpa using h depth v a hdecode

theorem list_yields (h : decode.Yields P) : (list decode).Yields fun items => ∀ a ∈ items, P a := by
  intro depth v items hitems
  unfold list at hitems
  split at hitems
  · intro a ha
    obtain ⟨w, -, hw⟩ := exists_of_mem_right (mapM_eq_ok.1 hitems) ha
    exact h _ w a hw
  · cases hitems

end Decoder

def Variant.Yields (P : α → Prop) : Variant α → Prop
  | .plain a => P a
  | .content decode => decode.Yields P

theorem Decoder.oneOf_yields {variants : List (String × Variant α)} {P : α → Prop}
    (h : ∀ entry ∈ variants, entry.2.Yields P) : (oneOf variants).Yields P := by
  have hfound : ∀ {name found}, variants.lookup name = some found → found.Yields P := by
    intro name found hname
    obtain ⟨before, after, rfl, -⟩ := List.lookup_eq_some_iff.1 hname
    exact h (name, found) (by simp)
  have hlone : ∀ {alone : Bool} {a b : α},
      (if alone then .ok a else .error .malformed : Except Refusal α) = .ok b → a = b := by
    intro alone a b h
    cases alone with
    | true => exact Except.ok.inj h
    | false => cases h
  intro depth v a ha
  unfold oneOf at ha
  split at ha
  · split at ha
    · next hname =>
        cases ha
        exact hfound hname
    · cases ha
  · dsimp only at ha
    split at ha
    · next hname =>
        exact hlone ha ▸ hfound hname
    · next hname =>
        obtain ⟨a', ha', ha⟩ := bind_eq_ok.1 ha
        exact hlone ha ▸ hfound hname _ _ _ ha'
    · cases ha
  · cases ha

theorem Located.both_eq_ok {f : Located (α → β)} {x : Located α} {b : β}
    (h : Located.both f x = .ok b) : ∃ g a, f = .ok g ∧ x = .ok a ∧ g a = b := by
  cases f with
  | error e => cases x <;> cases h
  | ok g =>
      cases x with
      | error e => cases h
      | ok a => exact ⟨g, a, rfl, rfl, Except.ok.inj h⟩

namespace Fields

def Yields (fields : Fields α) (P : α → Prop) : Prop :=
  ∀ depth members a, fields.read depth members = .ok a → P a

theorem start_yields {make : α} {P : α → Prop} (h : P make) : (start make).Yields P := by
  intro depth members a ha
  cases ha
  exact h

theorem andThen_yields {first : Fields (α → β)} {next : Fields α} {P : β → Prop} {Q : α → Prop}
    (hnext : next.Yields Q) (hfirst : first.Yields fun f => ∀ a, Q a → P (f a)) :
    (first.andThen next).Yields P := by
  intro depth members b hb
  obtain ⟨f, a, hf, ha, rfl⟩ := Located.both_eq_ok hb
  exact hfirst depth members f hf a (hnext depth members a ha)

theorem field_yields {key : String} {decode : Decoder α} {absent : Members → Except Refusal α}
    {P : α → Prop} (h : decode.Yields P) (habsent : ∀ members a, absent members = .ok a → P a) :
    (field key decode absent).Yields P := by
  have hplaced : ∀ {place : Nat} {r : Except Refusal α} {a : α},
      Located.placed place r = .ok a → r = .ok a := by
    intro place r a hr
    cases r with
    | error e => cases hr
    | ok a' =>
        cases hr
        rfl
  intro depth members a ha
  simp only [field] at ha
  split at ha
  · exact h _ _ a (hplaced ha)
  · exact habsent members a (hplaced ha)

theorem required_yields {key : String} {decode : Decoder α} {P : α → Prop}
    (h : decode.Yields P) : (required key decode).Yields P :=
  field_yields h fun _ _ ha => by cases ha

theorem defaulted_yields {key : String} {value : α} {decode : Decoder α} {P : α → Prop}
    (h : decode.Yields P) (hvalue : P value) : (defaulted key value decode).Yields P :=
  field_yields h fun _ _ ha => by
    cases ha
    exact hvalue

end Fields

theorem Decoder.record_yields {fields : Fields α} {P : α → Prop} (h : fields.Yields P) :
    (Decoder.record fields).Yields P := by
  have hfinish : ∀ {depth members a}, fields.finish depth members = .ok a → P a := by
    intro depth members a ha
    simp only [Fields.finish] at ha
    split at ha
    · next hboth =>
        cases ha
        obtain ⟨g, a', hchecked, hread, rfl⟩ := Located.both_eq_ok hboth
        split at hchecked
        · cases hchecked
        · cases hchecked
          exact h _ _ _ hread
    · cases ha
  intro depth v a ha
  unfold Decoder.record at ha
  split at ha
  · exact hfinish ha
  · exact hfinish ha
  · cases ha

end Scenograph
