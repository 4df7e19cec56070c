import Mathlib.Data.List.Basic
import Scenograph.Spelling.Literal

namespace Scenograph

-- behind a slash, which may open a comment, the lexer still reads code
inductive LexMode where
  | code
  | slash
  | comment
  | literal
  | escaped
  deriving DecidableEq, Repr

structure Lexer where
  mode : LexMode := .code
  opened : List Char := []
  deriving DecidableEq, Repr

namespace Lexer

def opening? : Char → Option Char
  | ')' => some '('
  | '\x7d' => some '\x7b'
  | _ => none

def close (opening : Char) : List Char → Option Lexer
  | [] => none
  | c :: opened => if c = opening then some ⟨.code, opened⟩ else none

def stepCode (opened : List Char) (c : Char) : Option Lexer :=
  if c = '"' then some ⟨.literal, opened⟩
  else if c = '(' ∨ c = '\x7b' then some ⟨.code, c :: opened⟩
  else match opening? c with
    | some opening => close opening opened
    | none => some ⟨.code, opened⟩

def step (l : Lexer) (c : Char) : Option Lexer :=
  match l.mode with
  | .code => if c = '/' then some ⟨.slash, l.opened⟩ else stepCode l.opened c
  | .slash => if c = '/' then some ⟨.comment, l.opened⟩ else stepCode l.opened c
  | .comment => some ⟨if c = '\n' then .code else .comment, l.opened⟩
  | .literal =>
      if c = '\n' then none
      else if c = '"' then some ⟨.code, l.opened⟩
      else if c = '\\' then some ⟨.escaped, l.opened⟩
      else some ⟨.literal, l.opened⟩
  | .escaped => if c = '\n' then none else some ⟨.literal, l.opened⟩

def run (l : Lexer) (text : List Char) : Option Lexer :=
  text.foldlM step l

end Lexer

def LexicallyClosed (text : String) : Prop :=
  ∃ l, Lexer.run {} text.toList = some l ∧ l.opened = [] ∧ l.mode ∉ [.literal, .escaped]

namespace Lexer

theorem run_append (l : Lexer) (text rest : List Char) :
    l.run (text ++ rest) = (l.run text).bind (·.run rest) :=
  List.foldlM_append

theorem run_append_of_eq {l l' : Lexer} {text : List Char} (h : l.run text = some l')
    (rest : List Char) : l.run (text ++ rest) = l'.run rest := by
  rw [run_append, h, Option.bind_some]

theorem run_cons_of_eq {l l' : Lexer} {c : Char} (h : l.step c = some l') (rest : List Char) :
    l.run (c :: rest) = l'.run rest := by
  rw [run, List.foldlM_cons, h]
  rfl

def within (l : Lexer) (outer : List Char) : Lexer :=
  ⟨l.mode, l.opened ++ outer⟩

theorem close_within {opening : Char} {opened : List Char} {l : Lexer}
    (h : close opening opened = some l) (outer : List Char) :
    close opening (opened ++ outer) = some (l.within outer) := by
  cases opened with
  | nil => cases h
  | cons c opened =>
      rw [close] at h
      split at h
      · next hc =>
          cases h
          rw [List.cons_append, close, if_pos hc]
          rfl
      · cases h

theorem stepCode_within {opened : List Char} {c : Char} {l : Lexer} (h : stepCode opened c = some l)
    (outer : List Char) : stepCode (opened ++ outer) c = some (l.within outer) := by
  unfold stepCode at h ⊢
  split_ifs at h ⊢
  · cases h
    rfl
  · cases h
    rfl
  · cases hopening : opening? c with
    | none =>
        rw [hopening] at h
        cases h
        rfl
    | some opening =>
        rw [hopening] at h
        exact close_within h outer

theorem step_within {l l' : Lexer} {c : Char} (h : l.step c = some l') (outer : List Char) :
    (l.within outer).step c = some (l'.within outer) := by
  obtain ⟨mode, opened⟩ := l
  cases mode <;> simp only [step, within] at h ⊢ <;> split_ifs at h ⊢ <;>
    first
    | exact stepCode_within h outer
    | (cases h; rfl)

theorem run_within {l l' : Lexer} {text : List Char} (h : l.run text = some l')
    (outer : List Char) : (l.within outer).run text = some (l'.within outer) := by
  induction text generalizing l with
  | nil =>
      cases h
      rfl
  | cons c text ih =>
      obtain ⟨l₁, hstep, hrest⟩ := Option.bind_eq_some_iff.1 h
      rw [run_cons_of_eq (step_within hstep outer)]
      exact ih hrest

end Lexer

/-- The text starts in code with some brackets open, and ends in code with others. -/
def Scans (text : String) (before after : List Char) : Prop :=
  Lexer.run ⟨.code, before⟩ text.toList = some ⟨.code, after⟩

instance (text : String) (before after : List Char) : Decidable (Scans text before after) :=
  inferInstanceAs (Decidable (_ = _))

def Neutral (text : String) : Prop :=
  Scans text [] []

instance (text : String) : Decidable (Neutral text) :=
  inferInstanceAs (Decidable (Scans text [] []))

namespace Scans

variable {text rest : String} {a b c : List Char}

theorem append (h : Scans text a b) (h' : Scans rest b c) : Scans (text ++ rest) a c := by
  rw [Scans, String.toList_append, Lexer.run_append_of_eq h]
  exact h'

theorem within (h : Scans text a b) (outer : List Char) : Scans text (a ++ outer) (b ++ outer) :=
  Lexer.run_within h outer

end Scans

namespace Neutral

variable {text rest : String}

theorem under (h : Neutral text) (opened : List Char) : Scans text opened opened :=
  Scans.within h opened

theorem append (h : Neutral text) (h' : Neutral rest) : Neutral (text ++ rest) :=
  Scans.append h h'

theorem enclosed {left right : String} {inside : List Char} (hleft : Scans left [] inside)
    (h : Neutral text) (hright : Scans right inside []) : Neutral (left ++ text ++ right) :=
  (hleft.append (h.under inside)).append hright

theorem parenthesised (h : Neutral text) : Neutral ("(" ++ text ++ ")") :=
  h.enclosed (by decide : Scans "(" [] ['(']) (by decide)

end Neutral

def rareLineEnds : List Char :=
  ['\r', '\u0085', '\u2028', '\u2029']

def specialChars : List Char :=
  ['"', '/', '(', ')', '\x7b', '\x7d'] ++ rareLineEnds

def isPlain (c : Char) : Bool :=
  !specialChars.contains c

theorem isPlain_of_class {p : Char → Bool} (hp : specialChars.any p = false) {c : Char}
    (h : p c = true) : isPlain c = true := by
  by_contra hspecial
  rw [isPlain, Bool.not_eq_true', Bool.not_eq_false, List.contains_iff_mem] at hspecial
  exact List.any_eq_false.1 hp c hspecial h

def PlainChars (text : List Char) : Prop :=
  ∀ c ∈ text, isPlain c = true

-- the numbers of the special characters, which are cheaper to compare
def specialCodes : List Nat :=
  [34, 47, 40, 41, 123, 125, 13, 133, 8232, 8233]

theorem specialCodes_eq : specialCodes = specialChars.map Char.toNat := by
  decide

def hasPlainCode (c : Char) : Bool :=
  specialCodes.all fun n => !n.beq c.toNat

theorem hasPlainCode_iff {c : Char} : hasPlainCode c = true ↔ isPlain c = true := by
  rw [hasPlainCode, specialCodes_eq, List.all_eq_true, List.forall_mem_map, isPlain,
    Bool.not_eq_true', ← Bool.not_eq_true, List.contains_iff_mem]
  constructor
  · intro h hmem
    simpa using h c hmem
  · intro h d hd
    have hne : d.toNat ≠ c.toNat := fun heq => h (Char.toNat_inj.1 heq ▸ hd)
    rwa [Bool.not_eq_true', ← Bool.not_eq_true, Nat.beq_eq]

instance (text : List Char) : Decidable (PlainChars text) :=
  decidable_of_iff (text.all hasPlainCode = true) (by
    simp only [List.all_eq_true, hasPlainCode_iff, PlainChars])

def PlainText (text : String) : Prop :=
  PlainChars text.toList

instance (text : String) : Decidable (PlainText text) :=
  inferInstanceAs (Decidable (PlainChars text.toList))

namespace Lexer

theorem stepCode_plain {c : Char} (h : isPlain c = true) (opened : List Char) :
    stepCode opened c = some ⟨.code, opened⟩ := by
  simp only [isPlain, specialChars, Bool.not_eq_true', List.contains_eq_mem,
    decide_eq_false_iff_not, List.mem_append, List.mem_cons, List.not_mem_nil, or_false,
    not_or] at h
  obtain ⟨⟨hquote, _, hopen, hclose, hopen', hclose'⟩, _⟩ := h
  have hnone : opening? c = none := by
    unfold opening?
    split <;> simp_all
  simp [stepCode, hquote, hopen, hopen', hnone]

theorem step_plain {c : Char} (h : isPlain c = true) {mode : LexMode}
    (hmode : mode = .code ∨ mode = .slash) (opened : List Char) :
    step ⟨mode, opened⟩ c = some ⟨.code, opened⟩ := by
  have hslash : c ≠ '/' := by
    rintro rfl
    exact absurd h (by decide)
  rcases hmode with rfl | rfl <;> simp [step, hslash, stepCode_plain h]

theorem run_plain {text : List Char} (h : PlainChars text) (opened : List Char) :
    run ⟨.code, opened⟩ text = some ⟨.code, opened⟩ := by
  induction text with
  | nil => rfl
  | cons c text ih =>
      rw [run_cons_of_eq (step_plain (h c (List.mem_cons_self ..)) (.inl rfl) opened)]
      exact ih fun c' hc' => h c' (List.mem_cons_of_mem _ hc')

theorem run_plain_behind_slash {text : List Char} (hne : text ≠ []) (h : PlainChars text)
    (opened : List Char) : run ⟨.slash, opened⟩ text = some ⟨.code, opened⟩ := by
  obtain ⟨c, rest, rfl⟩ := List.exists_cons_of_ne_nil hne
  obtain ⟨hc, hrest⟩ := List.forall_mem_cons.1 h
  rw [run_cons_of_eq (step_plain hc (.inr rfl) opened)]
  exact run_plain hrest opened

theorem run_literal {text : List Char} (h : ∀ c ∈ text, c ∉ ['"', '\\', '\n'])
    (opened : List Char) : run ⟨.literal, opened⟩ text = some ⟨.literal, opened⟩ := by
  induction text with
  | nil => rfl
  | cons c text ih =>
      have hc := h c (List.mem_cons_self ..)
      simp only [List.mem_cons, List.not_mem_nil, or_false, not_or] at hc
      obtain ⟨hquote, hbackslash, hfeed⟩ := hc
      have hstep : step ⟨.literal, opened⟩ c = some ⟨.literal, opened⟩ := by
        simp [step, hquote, hbackslash, hfeed]
      rw [run_cons_of_eq hstep]
      exact ih fun c' hc' => h c' (List.mem_cons_of_mem _ hc')

theorem run_escapeChar (c : Char) (opened : List Char) :
    run ⟨.literal, opened⟩ (escapeChar c) = some ⟨.literal, opened⟩ := by
  unfold escapeChar
  split
  case h_6 hbackslash hquote hline _ _ =>
    have hstep : step ⟨.literal, opened⟩ c = some ⟨.literal, opened⟩ := by
      simp only [step]
      rw [if_neg hline, if_neg hquote, if_neg hbackslash]
    exact run_cons_of_eq hstep []
  all_goals rfl

theorem run_escape (text opened : List Char) :
    run ⟨.literal, opened⟩ (escape text) = some ⟨.literal, opened⟩ := by
  induction text with
  | nil => rfl
  | cons c text ih =>
      rw [escape, List.flatMap_cons, run_append_of_eq (run_escapeChar c opened)]
      exact ih

end Lexer

namespace PlainChars

variable {text rest : List Char}

theorem append (h : PlainChars text) (h' : PlainChars rest) : PlainChars (text ++ rest) :=
  fun c hc => (List.mem_append.1 hc).elim (h c) (h' c)

theorem cons {c : Char} (hc : isPlain c = true) (h : PlainChars text) : PlainChars (c :: text) :=
  List.forall_mem_cons.2 ⟨hc, h⟩

theorem ofList (h : PlainChars text) : PlainText (String.ofList text) := by
  rw [PlainText, String.toList_ofList]
  exact h

end PlainChars

namespace PlainText

variable {text rest : String}

theorem neutral (h : PlainText text) : Neutral text :=
  Lexer.run_plain h []

theorem append (h : PlainText text) (h' : PlainText rest) : PlainText (text ++ rest) := by
  rw [PlainText, String.toList_append]
  exact PlainChars.append h h'

end PlainText

def ScansLine (text : String) (before after : List Char) : Prop :=
  Lexer.run ⟨.code, before⟩ (text.toList ++ ['\n']) = some ⟨.code, after⟩

theorem Scans.line {text : String} {a b : List Char} (h : Scans text a b) : ScansLine text a b :=
  (Lexer.run_append_of_eq h _).trans (Lexer.run_plain (by decide) b)

theorem Neutral.line {text : String} (h : Neutral text) (opened : List Char) :
    ScansLine text opened opened :=
  (h.under opened).line

theorem Lexer.run_comment {text : List Char} (h : '\n' ∉ text) (opened : List Char) :
    run ⟨.comment, opened⟩ text = some ⟨.comment, opened⟩ := by
  induction text with
  | nil => rfl
  | cons c text ih =>
      obtain ⟨hc, htext⟩ := not_or.1 (List.mem_cons.not.1 h)
      have hstep : step ⟨.comment, opened⟩ c = some ⟨.comment, opened⟩ := by
        simp [step, Ne.symm hc]
      rw [run_cons_of_eq hstep]
      exact ih htext

theorem Lexer.run_commentLine {text : List Char} (h : '\n' ∉ text) (opened : List Char) :
    run ⟨.code, opened⟩ ('/' :: '/' :: text ++ ['\n']) = some ⟨.code, opened⟩ :=
  (run_append_of_eq (run_comment h opened) ['\n']).trans rfl

theorem Lexer.mode_of_step_feed {l l' : Lexer} (h : l.step '\n' = some l') : l'.mode = .code := by
  obtain ⟨mode, opened⟩ := l
  cases mode <;> cases h <;> rfl

theorem Lexer.mode_of_line {l l' : Lexer} {text : List Char}
    (h : l.run (text ++ ['\n']) = some l') : l'.mode = .code := by
  rw [run_append] at h
  obtain ⟨l₁, _, hfeed⟩ := Option.bind_eq_some_iff.1 h
  obtain ⟨l₂, hstep, hend⟩ := Option.bind_eq_some_iff.1 hfeed
  cases hend
  exact mode_of_step_feed hstep

theorem scansLine_comment {text : String} (h : '\n' ∉ text.toList) (opened : List Char) :
    ScansLine ("// " ++ text) opened opened := by
  have htext : ("// " ++ text).toList = '/' :: '/' :: ' ' :: text.toList := by simp
  rw [ScansLine, htext]
  exact Lexer.run_commentLine (by simpa using h) opened

theorem neutral_quote (s : String) : Neutral (quote s) := by
  have hopen : Lexer.run ⟨.code, []⟩ ['"'] = some ⟨.literal, []⟩ := by decide
  have hclose : Lexer.run ⟨.literal, []⟩ ['"'] = some ⟨.code, []⟩ := by decide
  have hinside := Lexer.run_escape s.toList []
  have htext : (quote s).toList = ['"'] ++ (escape s.toList ++ ['"']) := by simp [quote]
  rw [Neutral, Scans, htext]
  exact (Lexer.run_append_of_eq hopen _).trans ((Lexer.run_append_of_eq hinside _).trans hclose)

theorem neutral_commaList {args : List String} (h : ∀ a ∈ args, Neutral a) :
    Neutral (commaList args) := by
  have hcomma : Neutral ", " := by decide
  induction args with
  | nil => exact (by decide : Neutral "")
  | cons a args ih =>
      have ha := h a (List.mem_cons_self ..)
      have hrest := ih fun a' ha' => h a' (List.mem_cons_of_mem _ ha')
      cases args with
      | nil => simpa [commaList] using ha
      | cons b args =>
          rw [commaList, String.intercalate_cons_cons]
          exact (ha.append hcomma).append hrest

theorem neutral_applied {function : String} {args : List String} (hfunction : Neutral function)
    (hargs : ∀ a ∈ args, Neutral a) : Neutral (applied function args) := by
  have hopen : Scans "(" [] ['('] := by decide
  have hclose : Scans ")" ['('] [] := by decide
  exact ((Scans.append hfunction hopen).append ((neutral_commaList hargs).under _)).append hclose

end Scenograph
