import Mathlib.Data.List.Forall2
import Scenograph.Update

namespace Scenograph

variable {ε α β : Type}

@[simp] theorem ok_bind (a : α) (f : α → Except ε β) : (Except.ok a >>= f) = f a := rfl

@[simp] theorem error_bind (e : ε) (f : α → Except ε β) : (Except.error e >>= f) = .error e := rfl

@[simp] theorem pure_eq_ok (a : α) : (pure a : Except ε α) = .ok a := rfl

theorem bind_eq_ok {x : Except ε α} {f : α → Except ε β} {b : β} :
    x >>= f = .ok b ↔ ∃ a, x = .ok a ∧ f a = .ok b := by
  cases x with
  | error e => simp
  | ok a => simp

theorem bind_ok {x : Except ε α} {f : α → Except ε β} (hx : ∃ a, x = .ok a)
    (hf : ∀ a, x = .ok a → ∃ b, f a = .ok b) : ∃ b, x >>= f = .ok b := by
  obtain ⟨a, rfl⟩ := hx
  exact hf a rfl

theorem mapM_eq_ok {f : α → Except ε β} {l : List α} {bs : List β} :
    l.mapM f = .ok bs ↔ List.Forall₂ (fun a b => f a = .ok b) l bs := by
  induction l generalizing bs with
  | nil => simp [eq_comm]
  | cons a l ih =>
      rw [List.mapM_cons, bind_eq_ok]
      constructor
      · rintro ⟨b, hb, h⟩
        obtain ⟨rest, hrest, h⟩ := bind_eq_ok.1 h
        cases h
        exact .cons hb (ih.1 hrest)
      · intro h
        cases h with
        | cons hb hrest => exact ⟨_, hb, bind_eq_ok.2 ⟨_, ih.2 hrest, rfl⟩⟩

theorem mapM_ok {f : α → Except ε β} {l : List α} (h : ∀ a ∈ l, ∃ b, f a = .ok b) :
    ∃ bs, l.mapM f = .ok bs := by
  induction l with
  | nil => exact ⟨[], rfl⟩
  | cons a l ih =>
      have hrest := ih fun a' ha' => h a' (List.mem_cons_of_mem _ ha')
      rw [List.mapM_cons]
      exact bind_ok (h a (List.mem_cons_self ..)) fun b _ => bind_ok hrest fun bs _ => ⟨b :: bs, rfl⟩

theorem foldlM_ok {f : β → α → Except ε β} {l : List α} (h : ∀ b, ∀ a ∈ l, ∃ b', f b a = .ok b')
    (b : β) : ∃ b', l.foldlM f b = .ok b' := by
  induction l generalizing b with
  | nil => exact ⟨b, rfl⟩
  | cons a l ih =>
      rw [List.foldlM_cons]
      exact bind_ok (h b a (List.mem_cons_self ..)) fun b' _ =>
        ih (fun b a' ha' => h b a' (List.mem_cons_of_mem _ ha')) b'

theorem foldlM_congr {f g : β → α → Except ε β} {l : List α} (h : ∀ b, ∀ a ∈ l, f b a = g b a)
    (b : β) : l.foldlM f b = l.foldlM g b := by
  induction l generalizing b with
  | nil => rfl
  | cons a l ih =>
      rw [List.foldlM_cons, List.foldlM_cons, h b a (List.mem_cons_self ..)]
      exact congrArg (g b a >>= ·) (funext (ih fun b a' ha' => h b a' (List.mem_cons_of_mem _ ha')))

theorem exists_of_mem_right {R : α → β → Prop} {l : List α} {bs : List β} (h : List.Forall₂ R l bs)
    {b : β} (hb : b ∈ bs) : ∃ a ∈ l, R a b := by
  induction h with
  | nil => cases hb
  | @cons a b' l bs hr _ ih =>
      rcases List.mem_cons.1 hb with rfl | hb
      · exact ⟨a, List.mem_cons_self .., hr⟩
      · obtain ⟨a', ha', hr'⟩ := ih hb
        exact ⟨a', List.mem_cons_of_mem _ ha', hr'⟩

theorem exists_of_mem_left {R : α → β → Prop} {l : List α} {bs : List β} (h : List.Forall₂ R l bs)
    {a : α} (ha : a ∈ l) : ∃ b ∈ bs, R a b :=
  exists_of_mem_right h.flip ha

theorem nodup_map_of_forall₂ {γ : Type} {R : α → β → Prop} {l : List α} {bs : List β} {key : β → γ}
    (h : List.Forall₂ R l bs) (hl : l.Nodup)
    (hkey : ∀ a a' b b', R a b → R a' b' → key b = key b' → a = a') : (bs.map key).Nodup := by
  induction h with
  | nil => exact List.nodup_nil
  | @cons a b l bs hr hrest ih =>
      obtain ⟨hnew, hl⟩ := List.nodup_cons.1 hl
      refine List.nodup_cons.2 ⟨fun hmem => ?_, ih hl⟩
      obtain ⟨b', hb', heq⟩ := List.mem_map.1 hmem
      obtain ⟨a', ha', hr'⟩ := exists_of_mem_right hrest hb'
      exact hnew (hkey a a' b b' hr hr' heq.symm ▸ ha')

theorem mapM_congr {f g : α → Except ε β} {l : List α} (h : ∀ a ∈ l, f a = g a) :
    l.mapM f = l.mapM g := by
  induction l with
  | nil => rfl
  | cons a l ih =>
      have hl : l.mapM f = l.mapM g := ih fun b hb => h b (List.mem_cons_of_mem _ hb)
      rw [List.mapM_cons, List.mapM_cons, h a (List.mem_cons_self ..), hl]

namespace Update

variable {σ : Type} {u : Update ε σ Unit} {s s' : σ}

theorem attempt_eq_ok : u.attempt s = .ok s' ↔ u.run s = .ok () s' := by
  cases h : u.run s <;> simp [attempt, h]

theorem attempt_of_error {e : ε} (h : u.run s = .error e s') : u.attempt s = .error e := by
  rw [attempt, h]

theorem after_of_ok (h : u.run s = .ok () s') : u.after s = s' := by
  rw [after, h]

theorem after_of_error {e : ε} (h : u.run s = .error e s') : u.after s = s' := by
  rw [after, h]

variable {τ : Type} {t : τ} {part : τ → σ} {put : τ → σ → τ}

theorem run_within_of_ok (h : u.run (part t) = .ok () s') :
    (u.within part put).run t = .ok () (put t s') := by
  rw [EStateM.run, within, h]

theorem run_within_of_error {e : ε} (h : u.run (part t) = .error e s') :
    (u.within part put).run t = .error e (put t s') := by
  rw [EStateM.run, within, h]

end Update

end Scenograph
