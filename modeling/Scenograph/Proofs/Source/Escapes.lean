import Mathlib.Algebra.Ring.Parity
import Mathlib.Data.Char
import Mathlib.Data.List.DropRight
import Scenograph.Proofs.Source.LineEnds

namespace Scenograph

def unescapeChar? : Char → Option Char
  | '\\' => some '\\'
  | '"' => some '"'
  | 'n' => some '\n'
  | 'r' => some '\r'
  | 't' => some '\t'
  | _ => none

def unescape : List Char → Option (List Char)
  | [] => some []
  | ['\\'] => none
  | '\\' :: c :: rest => do return (← unescapeChar? c) :: (← unescape rest)
  | c :: rest => do return c :: (← unescape rest)

-- every second backslash of a run is escaped by the one in front of it
def Escaped (before : List Char) : Prop :=
  Odd (before.rtakeWhile (· == '\\')).length

structure ClosedBetween (text inside behind : List Char) : Prop where
  eq : text = inside ++ '"' :: behind
  bare : ¬Escaped inside
  first : ∀ before after, inside = before ++ '"' :: after → Escaped before

def scanStep (escaped : Bool) (c : Char) : Bool :=
  !escaped && c == '\\'

def scan (escaped : Bool) (text : List Char) : Bool :=
  text.foldl scanStep escaped

theorem scan_cons (escaped : Bool) (c : Char) (text : List Char) :
    scan escaped (c :: text) = scan (scanStep escaped c) text := rfl

theorem escaped_concat (before : List Char) (c : Char) :
    Escaped (before ++ [c]) ↔ ¬Escaped before ∧ c = '\\' := by
  rw [Escaped, Escaped, List.rtakeWhile_concat]
  by_cases hc : c = '\\'
  · simp [hc, Nat.odd_add_one]
  · simp [hc]

theorem escaped_iff_scan {before : List Char} : Escaped before ↔ scan false before = true := by
  induction before using List.reverseRecOn with
  | nil => simp [Escaped, scan]
  | append_singleton before c ih =>
      rw [escaped_concat, ih, scan, scan, List.foldl_concat, scanStep]
      simp

theorem ClosedBetween.inside_eq {text inside behind inside' behind' : List Char}
    (h : ClosedBetween text inside behind) (h' : ClosedBetween text inside' behind')
    (hle : inside <+: inside') : inside = inside' := by
  obtain ⟨a, rfl⟩ := hle
  have hrest : '"' :: behind = a ++ '"' :: behind' := by
    simpa using h.eq.symm.trans h'.eq
  cases a with
  | nil => rw [List.append_nil]
  | cons c a =>
      obtain ⟨rfl, -⟩ := List.cons.inj hrest
      exact absurd (h'.first inside a rfl) h.bare

theorem ClosedBetween.unique {text inside behind inside' behind' : List Char}
    (h : ClosedBetween text inside behind) (h' : ClosedBetween text inside' behind') :
    inside = inside' ∧ behind = behind' := by
  have hinside : inside = inside' := by
    rcases List.prefix_or_prefix_of_prefix ⟨_, h.eq.symm⟩ ⟨_, h'.eq.symm⟩ with hle | hle
    · exact h.inside_eq h' hle
    · exact (h'.inside_eq h hle).symm
  subst hinside
  exact ⟨rfl, by simpa using h.eq.symm.trans h'.eq⟩

theorem escapeChar_cases (c : Char) :
    (∃ d, unescapeChar? d = some c ∧ escapeChar c = ['\\', d])
      ∨ c ≠ '\\' ∧ c ≠ '"' ∧ escapeChar c = [c] := by
  unfold escapeChar
  split
  case h_6 hbackslash hquote _ _ _ => exact .inr ⟨hbackslash, hquote, rfl⟩
  all_goals exact .inl ⟨_, rfl, rfl⟩

theorem escape_cons (c : Char) (text : List Char) :
    escape (c :: text) = escapeChar c ++ escape text :=
  List.flatMap_cons

theorem unescape_escape (text : List Char) : unescape (escape text) = some text := by
  induction text with
  | nil => rfl
  | cons c text ih =>
      rw [escape_cons]
      rcases escapeChar_cases c with ⟨d, hd, hc⟩ | ⟨hbackslash, -, hc⟩
      · simp [hc, unescape, hd, ih]
      · simp [hc, unescape, hbackslash, ih]

theorem scan_escapeChar (c : Char) (rest : List Char) :
    scan false (escapeChar c ++ rest) = scan false rest := by
  rcases escapeChar_cases c with ⟨d, -, hc⟩ | ⟨hbackslash, -, hc⟩
  · simp [hc, scan_cons, scanStep]
  · simp [hc, scan_cons, scanStep, beq_false_of_ne hbackslash]

theorem scan_escape (text : List Char) : scan false (escape text) = false := by
  induction text with
  | nil => rfl
  | cons c text ih => rw [escape_cons, scan_escapeChar, ih]

theorem quote_in_escapeChar {c : Char} {before after : List Char}
    (h : escapeChar c = before ++ '"' :: after) : before = ['\\'] := by
  rcases escapeChar_cases c with ⟨d, -, hc⟩ | ⟨-, hquote, hc⟩
  · rw [hc, eq_comm, List.append_eq_cons_iff] at h
    rcases h with ⟨-, h⟩ | ⟨tail, rfl, h⟩
    · simp at h
    · obtain ⟨rfl, -⟩ : tail = [] ∧ _ := by simpa [List.append_eq_singleton_iff] using h.symm
      rfl
  · rw [hc, eq_comm, List.append_eq_singleton_iff] at h
    simp [hquote.symm] at h

theorem scan_before_quote {text before after : List Char}
    (h : escape text = before ++ '"' :: after) : scan false before = true := by
  induction text generalizing before with
  | nil => simp [escape] at h
  | cons c text ih =>
      rw [escape_cons] at h
      rcases List.append_eq_append_iff.1 h with ⟨rest, rfl, hrest⟩ | ⟨rest, hc, hrest⟩
      · rw [scan_escapeChar]
        exact ih hrest
      · cases rest with
        | nil =>
            have hstart : escape text = [] ++ '"' :: after := hrest.symm
            cases ih hstart
        | cons q rest =>
            obtain ⟨rfl, -⟩ := List.cons.inj hrest
            rw [quote_in_escapeChar hc]
            rfl

theorem closedBetween_escape (text behind : List Char) :
    ClosedBetween (escape text ++ '"' :: behind) (escape text) behind where
  eq := rfl
  bare := by simp [escaped_iff_scan, scan_escape]
  first := fun _ _ h => escaped_iff_scan.2 (scan_before_quote h)

theorem closedBetween_escape_iff {text behind inside after : List Char} :
    ClosedBetween (escape text ++ '"' :: behind) inside after
      ↔ inside = escape text ∧ after = behind := by
  constructor
  · exact fun h => h.unique (closedBetween_escape text behind)
  · rintro ⟨rfl, rfl⟩
    exact closedBetween_escape text _

theorem not_mem_escape {c : Char} (hc : c ∈ lineEnds) (hbare : c ∉ bareLineEnds)
    (text : List Char) : c ∉ escape text := by
  rw [escape, List.mem_flatMap]
  rintro ⟨d, -, hd⟩
  exact hbare ((mem_escapeChar hc).1 hd).2

theorem escape_injective : Function.Injective escape := by
  intro text other h
  have hsome : some text = some other := by rw [← unescape_escape, h, unescape_escape]
  exact Option.some.inj hsome

theorem quote_injective : Function.Injective quote := by
  intro s t h
  rw [quote, quote, String.append_left_inj, String.append_right_inj, String.ofList_inj] at h
  exact String.toList_inj.1 (escape_injective h)

theorem Language.literal_string_injective (language : Language) :
    Function.Injective fun s => language.literal (.string s) := by
  intro s t h
  cases language with
  | csharp => exact quote_injective h
  | cppWinRT | cppCX => exact quote_injective ((String.append_right_inj _).1 h)

theorem escape_decodable (s : String) (behind : List Char) :
    unescape (escape s.toList) = some s.toList
      ∧ (∀ inside after, ClosedBetween (escape s.toList ++ '"' :: behind) inside after
        ↔ inside = escape s.toList ∧ after = behind)
      ∧ (∀ c ∈ escape s.toList, c ≠ '\n' ∧ c ≠ '\r')
      ∧ ∀ (language : Language) (t : String),
        language.literal (.string s) = language.literal (.string t) ↔ s = t := by
  refine ⟨unescape_escape _, fun _ _ => closedBetween_escape_iff, fun c hc => ⟨?_, ?_⟩, ?_⟩
  · rintro rfl
    exact not_mem_escape (by decide) (by decide) _ hc
  · rintro rfl
    exact not_mem_escape (by decide) (by decide) _ hc
  · exact fun language t => language.literal_string_injective.eq_iff

end Scenograph
