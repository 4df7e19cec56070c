import Scenograph.Proofs.Lowering.Texts
import Scenograph.Proofs.Source.Files

namespace Scenograph

def lineEnds : List Char :=
  '\n' :: rareLineEnds

def bareLineEnds : List Char :=
  ['\u0085', '\u2028', '\u2029']

def OneLine (s : String) : Prop :=
  ∀ c ∈ bareLineEnds, c ∉ s.toList

def asFeed (c : Char) : Char :=
  if c ∈ lineEnds then '\n' else c

def withFeeds (text : String) : String :=
  String.ofList (text.toList.map asFeed)

theorem asFeed_of_not_mem {c : Char} (h : c ∉ rareLineEnds) : asFeed c = c := by
  rw [asFeed]
  split
  · next hmem => exact ((List.mem_cons.1 hmem).resolve_right h).symm
  · rfl

theorem map_asFeed {text : List Char} (h : ∀ c ∈ text, c ∉ rareLineEnds) :
    text.map asFeed = text := by
  conv_rhs => rw [← List.map_id text]
  exact List.map_congr_left fun c hc => asFeed_of_not_mem (h c hc)

theorem mem_lineEnds {c : Char} : c ∈ lineEnds ↔ c = '\n' ∨ c = '\r' ∨ c ∈ bareLineEnds := by
  simp only [lineEnds, rareLineEnds, bareLineEnds, List.mem_cons]

theorem mem_lineEnds_of_rare {c : Char} (h : c ∈ rareLineEnds) : c ∈ lineEnds :=
  List.mem_cons_of_mem _ h

theorem mem_escapeChar {c d : Char} (hc : c ∈ lineEnds) :
    c ∈ escapeChar d ↔ c = d ∧ c ∈ bareLineEnds := by
  unfold escapeChar
  split
  case h_6 hfeed hreturn _ =>
    rw [List.mem_singleton, iff_self_and]
    rintro rfl
    exact ((mem_lineEnds.1 hc).resolve_left hfeed).resolve_left hreturn
  all_goals
    simp only [lineEnds, rareLineEnds, List.mem_cons, List.not_mem_nil, or_false] at hc
    rcases hc with rfl | rfl | rfl | rfl | rfl <;> simp [bareLineEnds]

theorem mem_quote {c : Char} (hc : c ∈ lineEnds) (s : String) :
    c ∈ (quote s).toList ↔ c ∈ s.toList ∧ c ∈ bareLineEnds := by
  have hquote : c ≠ '"' := by
    rintro rfl
    simp [lineEnds, rareLineEnds] at hc
  have htext : (quote s).toList = '"' :: (escape s.toList ++ ['"']) := by simp [quote]
  simp [htext, hquote, escape, mem_escapeChar hc]

theorem OneLine.map_quote {s : String} (h : OneLine s) :
    (quote s).toList.map asFeed = (quote s).toList := by
  refine map_asFeed fun c hc hrare => ?_
  obtain ⟨hmem, hbare⟩ := (mem_quote (mem_lineEnds_of_rare hrare) s).1 hc
  exact h c hbare hmem

namespace Lexer

theorem run_broken_escape {text : List Char} {c : Char} (hc : c ∈ bareLineEnds) (hmem : c ∈ text)
    (opened rest : List Char) :
    run ⟨.literal, opened⟩ ((escape text).map asFeed ++ rest) = none := by
  induction text with
  | nil => cases hmem
  | cons d text ih =>
      rw [escape, List.flatMap_cons, List.map_append, List.append_assoc]
      by_cases hd : d ∈ bareLineEnds
      · -- the literal is still open when its line ends
        have hfeed : (escapeChar d).map asFeed = ['\n'] := by
          simp only [bareLineEnds, List.mem_cons, List.not_mem_nil, or_false] at hd
          rcases hd with rfl | rfl | rfl <;> simp [escapeChar, asFeed, lineEnds, rareLineEnds]
        rw [hfeed]
        rfl
      · have hkept : (escapeChar d).map asFeed = escapeChar d := by
          refine map_asFeed fun e he hrare => ?_
          obtain ⟨rfl, hbare⟩ := (mem_escapeChar (mem_lineEnds_of_rare hrare)).1 he
          exact hd hbare
        have htext : c ∈ text := by
          refine (List.mem_cons.1 hmem).resolve_left ?_
          rintro rfl
          exact hd hc
        rw [hkept, run_append_of_eq (run_escapeChar d opened)]
        exact ih htext

theorem run_broken_quote {s : String} (h : ¬OneLine s) (opened rest : List Char) :
    run ⟨.code, opened⟩ ((quote s).toList.map asFeed ++ rest) = none := by
  simp only [OneLine, not_forall, not_not] at h
  obtain ⟨c, hc, hmem⟩ := h
  have htext : (quote s).toList.map asFeed ++ rest
      = '"' :: ((escape s.toList).map asFeed ++ (asFeed '"' :: rest)) := by
    simp [quote, asFeed_of_not_mem, rareLineEnds]
  have hopen : step ⟨.code, opened⟩ '"' = some ⟨.literal, opened⟩ := by simp [step, stepCode]
  rw [htext, run_cons_of_eq hopen]
  exact run_broken_escape hc hmem opened _

theorem mode_of_code {opened : List Char} {c : Char} (hquote : c ≠ '"') (hslash : c ≠ '/')
    {l : Lexer} (h : step ⟨.code, opened⟩ c = some l) : l.mode = .code := by
  simp only [step, if_neg hslash, stepCode, if_neg hquote] at h
  split_ifs at h
  · cases h
    rfl
  · split at h
    · unfold close at h
      split at h
      · cases h
      · split_ifs at h
        cases h
        rfl
    · cases h
      rfl

end Lexer

def isCode (c : Char) : Bool :=
  !(['"', '/'] ++ rareLineEnds).contains c

inductive Woven : List Char → List String → Prop where
  | nil : Woven [] []
  | code {c : Char} {rest : List Char} {texts : List String} (hc : isCode c = true)
      (h : Woven rest texts) : Woven (c :: rest) texts
  | literal (s : String) {rest : List Char} {texts : List String} (h : Woven rest texts) :
      Woven ((quote s).toList ++ rest) (s :: texts)
  | comment {line rest : List Char} {texts : List String} (hline : ∀ c ∈ line, c ∉ lineEnds)
      (h : Woven rest texts) : Woven ('/' :: '/' :: line ++ '\n' :: rest) texts

theorem isCode_iff {c : Char} : isCode c = true ↔ c ≠ '"' ∧ c ≠ '/' ∧ c ∉ rareLineEnds := by
  simp only [isCode, Bool.not_eq_true', List.contains_eq_mem, decide_eq_false_iff_not,
    List.mem_append, List.mem_cons, List.not_mem_nil, or_false, not_or, and_assoc]

namespace Woven

variable {text : List Char} {texts : List String}

theorem append (h : Woven text texts) {rest : List Char} {others : List String}
    (hrest : Woven rest others) : Woven (text ++ rest) (texts ++ others) := by
  induction h with
  | nil => exact hrest
  | code hc _ ih => exact .code hc ih
  | literal s _ ih =>
      rw [List.append_assoc]
      exact .literal s ih
  | comment hline _ ih =>
      rw [List.append_assoc]
      exact .comment hline ih

theorem before {start : List Char} (hstart : ∀ c ∈ start, isCode c = true)
    (h : Woven text texts) : Woven (start ++ text) texts := by
  induction start with
  | nil => exact h
  | cons c start ih =>
      obtain ⟨hc, hrest⟩ := List.forall_mem_cons.1 hstart
      exact .code hc (ih hrest)

theorem eq_nil (h : Woven text texts) (htext : text = []) : texts = [] := by
  cases h with
  | nil => rfl
  | code => cases htext
  | literal s => simp [quote] at htext
  | comment => cases htext

theorem map_comment {line : List Char} (hline : ∀ c ∈ line, c ∉ lineEnds) :
    ('/' :: '/' :: line ++ ['\n']).map asFeed = '/' :: '/' :: line ++ ['\n'] := by
  refine map_asFeed fun c hc hrare => ?_
  rcases List.mem_append.1 hc with hc | hc
  · simp only [List.mem_cons] at hc
    rcases hc with rfl | rfl | hc
    · simp [rareLineEnds] at hrare
    · simp [rareLineEnds] at hrare
    · exact hline c hc (mem_lineEnds_of_rare hrare)
  · rw [List.mem_singleton.1 hc] at hrare
    simp [rareLineEnds] at hrare

theorem map_eq (h : Woven text texts) (hlines : ∀ s ∈ texts, OneLine s) :
    text.map asFeed = text := by
  induction h with
  | nil => rfl
  | code hc _ ih => rw [List.map_cons, asFeed_of_not_mem (isCode_iff.1 hc).2.2, ih hlines]
  | literal s _ ih =>
      obtain ⟨hs, hrest⟩ := List.forall_mem_cons.1 hlines
      rw [List.map_append, hs.map_quote, ih hrest]
  | @comment line rest _ hline _ ih =>
      rw [List.append_cons, List.map_append, map_comment hline, ih hlines]

theorem run_none (h : Woven text texts) {s : String} (hs : s ∈ texts) (hbroken : ¬OneLine s)
    (opened : List Char) : Lexer.run ⟨.code, opened⟩ (text.map asFeed) = none := by
  induction h generalizing opened with
  | nil => cases hs
  | @code c rest _ hc _ ih =>
      obtain ⟨hquote, hslash, hrare⟩ := isCode_iff.1 hc
      rw [List.map_cons, asFeed_of_not_mem hrare]
      cases hnext : Lexer.step ⟨.code, opened⟩ c with
      | none =>
          rw [Lexer.run, List.foldlM_cons, hnext]
          rfl
      | some l =>
          obtain ⟨mode, opened'⟩ := l
          cases Lexer.mode_of_code hquote hslash hnext
          rw [Lexer.run_cons_of_eq hnext]
          exact ih hs opened'
  | literal s' _ ih =>
      rw [List.map_append]
      by_cases hfirst : OneLine s'
      · have hquote := (neutral_quote s').under opened
        rw [hfirst.map_quote, Lexer.run_append_of_eq hquote]
        refine ih ((List.mem_cons.1 hs).resolve_left ?_) opened
        rintro rfl
        exact hbroken hfirst
      · exact Lexer.run_broken_quote hfirst opened _
  | @comment line rest _ hline _ ih =>
      have hfeed : '\n' ∉ line := fun hmem => hline _ hmem (List.mem_cons_self ..)
      rw [List.append_cons, List.map_append, map_comment hline,
        Lexer.run_append_of_eq (Lexer.run_commentLine hfeed opened)]
      exact ih hs opened

end Woven

theorem lexicallyClosed_withFeeds_iff {text : String} {texts : List String}
    (h : Woven text.toList texts) (hclosed : LexicallyClosed text) :
    LexicallyClosed (withFeeds text) ↔ ∀ s ∈ texts, OneLine s := by
  constructor
  · rintro ⟨l, hrun, -⟩ s hs
    by_contra hbroken
    rw [withFeeds, String.toList_ofList, h.run_none hs hbroken []] at hrun
    cases hrun
  · intro hlines
    rw [withFeeds, h.map_eq hlines, String.ofList_toList]
    exact hclosed

def IsCode (text : String) : Prop :=
  ∀ c ∈ text.toList, isCode c = true

instance (text : String) : Decidable (IsCode text) :=
  List.decidableBAll (fun c => isCode c = true) text.toList

theorem isCode_append {text rest : String} (h : IsCode text) (hrest : IsCode rest) :
    IsCode (text ++ rest) := by
  rw [IsCode, String.toList_append]
  exact List.forall_mem_append.2 ⟨h, hrest⟩

theorem PlainText.isCode {text : String} (h : PlainText text) : IsCode text := by
  intro c hc
  have hplain := h c hc
  simp only [isPlain, specialChars, Bool.not_eq_true', List.contains_eq_mem,
    decide_eq_false_iff_not, List.mem_append, List.mem_cons, List.not_mem_nil, or_false,
    not_or] at hplain
  exact isCode_iff.2 ⟨hplain.1.1, hplain.1.2.1, hplain.2⟩

def Weaves (text : String) (texts : List String) : Prop :=
  Woven text.toList texts

namespace Weaves

variable {text rest : String} {texts others : List String}

theorem append (h : Weaves text texts) (hrest : Weaves rest others) :
    Weaves (text ++ rest) (texts ++ others) := by
  rw [Weaves, String.toList_append]
  exact Woven.append h hrest

theorem before (hcode : IsCode text) (h : Weaves rest texts) : Weaves (text ++ rest) texts := by
  rw [Weaves, String.toList_append]
  exact Woven.before hcode h

theorem code (hcode : IsCode text) : Weaves text [] := by
  have hempty : Weaves "" [] := .nil
  simpa using before hcode hempty

theorem behind (h : Weaves text texts) (hcode : IsCode rest) : Weaves (text ++ rest) texts := by
  simpa using h.append (code hcode)

end Weaves

theorem isCode_commaList {args : List String} (h : ∀ a ∈ args, IsCode a) :
    IsCode (commaList args) := by
  induction args with
  | nil => exact (by decide : IsCode "")
  | cons a args ih =>
      obtain ⟨ha, hrest⟩ := List.forall_mem_cons.1 h
      cases args with
      | nil => simpa [commaList] using ha
      | cons b args =>
          rw [commaList, String.intercalate_cons_cons]
          exact isCode_append (isCode_append ha (by decide)) (ih hrest)

theorem isCode_applied {function : String} {args : List String} (hfunction : IsCode function)
    (hargs : ∀ a ∈ args, IsCode a) : IsCode (applied function args) :=
  isCode_append (isCode_append (isCode_append hfunction (by decide)) (isCode_commaList hargs))
    (by decide)

theorem weaves_commaList_cons {text : String} {args texts others : List String}
    (h : Weaves text texts) (hargs : Weaves (commaList args) others) :
    Weaves (commaList (text :: args)) (texts ++ others) := by
  cases args with
  | nil =>
      rw [Woven.eq_nil hargs rfl, List.append_nil]
      simpa [commaList] using h
  | cons b args =>
      rw [commaList, String.intercalate_cons_cons]
      exact (h.behind (by decide)).append hargs

theorem weaves_applied {function : String} {args texts others : List String}
    (hfunction : Weaves function texts) (hargs : Weaves (commaList args) others) :
    Weaves (applied function args) (texts ++ others) :=
  ((hfunction.behind (by decide)).append hargs).behind (by decide)

namespace Language

theorem isCode_csharpVector (type : BuiltIn) (components : List Float) :
    IsCode (csharp.vector type components) := by
  refine isCode_append (by decide) (isCode_applied (csharp.plainText_builtInName type).isCode ?_)
  exact List.forall_mem_map.2 fun x _ => (csharp.plainText_float x).isCode

theorem weaves_literal (value : Literal) :
    Weaves (csharp.literal value) value.text?.toList := by
  cases value with
  | null => exact .code (by decide : IsCode "null")
  | boolean value =>
      cases value with
      | false => exact .code (by decide : IsCode "false")
      | true => exact .code (by decide : IsCode "true")
  | float x => exact .code (csharp.plainText_float x).isCode
  | int32 n => exact .code (plainText_signed n).isCode
  | int64 n => exact .code ((plainText_signed n).append (by decide)).isCode
  | string s =>
      have hquoted := Woven.literal s .nil
      rw [List.append_nil] at hquoted
      exact hquoted
  | vector2 v => exact .code (isCode_csharpVector _ _)
  | vector3 v => exact .code (isCode_csharpVector _ _)
  | vector4 v => exact .code (isCode_csharpVector _ _)
  | color c =>
      have hhex : ∀ b, IsCode (hexConstant b) := fun b => (plainText_hexConstant b).isCode
      exact .code (isCode_applied (by decide) (by simp [hhex]))
  | timeSpan ticks =>
      exact .code (isCode_append (isCode_append (by decide) (plainText_signed ticks).isCode)
        (by decide))

mutual

theorem weaves_expression : (e : Expr) → e.PlainNames → Weaves (csharp.expression e) e.texts
  | .var name, h => Weaves.code (PlainText.isCode h)
  | .lit value, _ => weaves_literal value
  | .call receiver method args, ⟨hreceiver, hmethod, hargs⟩ => by
      rw [expression, Expr.texts]
      exact weaves_applied (((weaves_expression receiver hreceiver).behind (by decide)).behind
        hmethod.isCode) (weaves_expressions args hargs)
  | .selfCall method args, ⟨hmethod, hargs⟩ => by
      rw [expression, Expr.texts]
      exact weaves_applied (.code hmethod.isCode) (weaves_expressions args hargs)
  | .staticCall type method args, ⟨htype, hmethod, hargs⟩ => by
      have hname := (csharp.plainText_typeName htype).append
        (PlainText.append (by decide : PlainText ".") hmethod)
      rw [expression, Expr.texts, String.append_assoc]
      exact weaves_applied (.code hname.isCode) (weaves_expressions args hargs)
  | .property receiver name, ⟨hreceiver, hname⟩ => by
      rw [expression, Expr.texts]
      exact ((weaves_expression receiver hreceiver).behind (by decide)).behind hname.isCode
  | .field receiver name, ⟨hreceiver, hname⟩ => by
      rw [expression, Expr.texts]
      exact ((weaves_expression receiver hreceiver).behind (by decide)).behind hname.isCode
  | .construct type args, ⟨htype, hargs⟩ => by
      have hmade := weaves_applied (.code (csharp.plainText_typeName htype).isCode)
        (weaves_expressions args hargs)
      rw [expression, Expr.texts]
      exact hmade.before (by decide : IsCode "new ")
  | .enumMember type member, ⟨htype, hmember⟩ => by
      rw [expression, Expr.texts]
      exact .code (((csharp.plainText_typeName htype).append (by decide)).append hmember).isCode
  | .notNull inner, h => by
      rw [expression, Expr.texts]
      exact ((weaves_expression inner h).behind (by decide)).behind (by decide)

theorem weaves_expressions : (es : List Expr) → Expr.AllPlainNames es →
    Weaves (commaList (csharp.expressions es)) (Expr.allTexts es)
  | [], _ => by
      rw [expressions, Expr.allTexts]
      exact .nil
  | e :: rest, ⟨he, hrest⟩ => by
      rw [expressions, Expr.allTexts]
      exact weaves_commaList_cons (weaves_expression e he) (weaves_expressions rest hrest)

end

end Language

def WeavesLine (text : String) (texts : List String) : Prop :=
  Woven (text.toList ++ ['\n']) texts

theorem Weaves.line {text : String} {texts : List String} (h : Weaves text texts) :
    WeavesLine text texts := by
  simpa [WeavesLine] using Woven.append h (.code (by decide) .nil)

theorem weavesLine_comment {line : List Char} (h : ∀ c ∈ line, c ∉ lineEnds) :
    WeavesLine (String.ofList ('/' :: '/' :: line)) [] := by
  rw [WeavesLine, String.toList_ofList]
  exact .comment h .nil

namespace Language

theorem weavesLine_statement {s : Statement} (h : s.PlainNames) :
    WeavesLine (csharp.statement s) s.texts := by
  have hend : IsCode ";" := by decide
  cases s with
  | declare type name value =>
      have hstart : IsCode (csharp.localWord ++ " " ++ name ++ " = ") :=
        isCode_append (isCode_append (by decide) h.2.1.isCode) (by decide)
      exact (((weaves_expression value h.2.2).before hstart).behind hend).line
  | assign target value =>
      have hstart : IsCode (target ++ " = ") := isCode_append h.1.isCode (by decide)
      exact (((weaves_expression value h.2).before hstart).behind hend).line
  | setProperty receiver name value =>
      have hreceiver := ((weaves_expression receiver h.1).behind (by decide : IsCode ".")).behind
        h.2.1.isCode
      exact (((hreceiver.behind (by decide)).append (weaves_expression value h.2.2)).behind
        hend).line
  | eval value => exact ((weaves_expression value h).behind hend).line
  | ret value =>
      cases value with
      | none => exact (Weaves.code (by decide : IsCode "return;")).line
      | some value =>
          exact (((weaves_expression value h).before (by decide : IsCode "return ")).behind
            hend).line
  | comment text =>
      have htext : csharp.statement (.comment text)
          = String.ofList ('/' :: '/' :: ' ' :: text.toList) := by
        apply String.toList_injective
        simp [statement]
      rw [htext]
      refine weavesLine_comment (List.forall_mem_cons.2 ⟨by simp [lineEnds, rareLineEnds], ?_⟩)
      exact fun c hc hend => h c hend hc

theorem isCode_csharpSignature {className : String} (hclass : PlainText className) (site : Site)
    {m : Method} (h : m.PlainNames) : IsCode (csharp.signature className site m) := by
  have hparameters : IsCode ("(" ++ csharp.parameters m ++ ")") := by
    refine isCode_append (isCode_append (by decide) (isCode_commaList ?_)) (by decide)
    refine List.forall_mem_map.2 fun p hp => ?_
    obtain ⟨hname, htype⟩ := h.parameters p hp
    exact (((csharp.plainText_typeText htype).append (by decide)).append hname).isCode
  have hvisible := plainText_visibilityWord m.visibility
  rw [signature]
  split
  · exact isCode_append (hvisible.append hclass).isCode hparameters
  · have hstart := ((hvisible.append (plainText_staticWord m)).append
      (csharp.plainText_typeText h.returns)).append (by decide : PlainText " ")
    exact isCode_append (hstart.append h.name).isCode hparameters

theorem weaves_fieldLine {f : Field} (h : f.PlainNames) :
    Weaves (csharp.fieldLine f) (Node.guardTexts f.init) := by
  have hstart : IsCode (csharp.typeText f.type ++ " " ++ f.name) :=
    (((csharp.plainText_typeText h.type).append (by decide)).append h.name).isCode
  cases hinit : f.init with
  | none =>
      simp only [fieldLine, hinit]
      exact .code (isCode_append hstart (by decide))
  | some init =>
      simp only [fieldLine, hinit, Node.guardTexts, Option.toList_some, List.flatMap_cons,
        List.flatMap_nil, List.append_nil]
      exact ((weaves_expression init (h.init init hinit)).before
        (isCode_append hstart (by decide))).behind (by decide)

end Language

def Line.moved (k : Nat) (l : Line) : Line :=
  { l with level := k + l.level }

theorem Line.woven {l : Line} {texts : List String} (h : WeavesLine l.text texts) (k : Nat) :
    Woven (l.moved k).render texts := by
  rw [render, moved]
  split
  · next hempty =>
      rw [WeavesLine, String.isEmpty_iff.1 hempty] at h
      exact h
  · refine .before (fun c hc => ?_) h
    rw [List.eq_of_mem_replicate hc]
    decide

theorem mem_of_mem_linesFrom {acc text : List Char} :
    ∀ line ∈ linesFrom acc text, ∀ c ∈ line, c ∈ acc ++ text := by
  fun_induction linesFrom acc text with
  | case1 acc hempty => simp
  | case2 acc hempty => simp
  | case3 acc rest ih =>
      refine List.forall_mem_cons.2
        ⟨fun c hc => List.mem_append_left _ ?_, fun line hline c hc => ?_⟩
      · unfold dropReturn at hc
        split at hc
        · exact List.dropLast_subset acc hc
        · exact hc
      · simpa using .inr (.inr (by simpa using ih line hline c hc))
  | case4 acc c rest hc ih =>
      intro line hline d hd
      simpa using ih line hline d hd

namespace Page

/-- The page is woven of code and the literals for the texts, at whatever level it is put. -/
def Weaves (p : Page) (texts : List String) : Prop :=
  ∀ k, Woven ((p.lines.map (Line.moved k)).flatMap Line.render) texts

variable {p : Page} {texts others : List String} {text : String}

theorem weaves_empty : Page.empty.Weaves [] :=
  fun _ => .nil

namespace Weaves

theorem render (h : p.Weaves texts) : Woven p.render.toList texts := by
  have hlines : p.lines.map (Line.moved 0) = p.lines :=
    List.map_id'' (fun l => by rw [Line.moved, Nat.zero_add]) _
  rw [Page.render, String.toList_ofList, ← hlines]
  exact h 0

theorem line (h : p.Weaves texts) (htext : WeavesLine text others) :
    (p.line text).Weaves (texts ++ others) := by
  intro k
  simp only [Page.line, List.map_append, List.flatMap_append, List.map_cons, List.map_nil,
    List.flatMap_cons, List.flatMap_nil, List.append_nil]
  exact (h k).append (Line.woven htext k)

theorem codeLine (h : p.Weaves texts) (htext : IsCode text) : (p.line text).Weaves texts := by
  simpa using h.line (Scenograph.Weaves.code htext).line

theorem blank (h : p.Weaves texts) : p.blank.Weaves texts :=
  h.codeLine (by decide)

theorem openScope (h : p.Weaves texts) : p.openScope.Weaves texts :=
  h.codeLine (by decide)

theorem closeScopeWith (h : p.Weaves texts) (htext : IsCode text) :
    (p.closeScopeWith text).Weaves texts :=
  codeLine (p := p.unindent) h htext

theorem closeScope (h : p.Weaves texts) : p.closeScope.Weaves texts :=
  h.closeScopeWith (by decide)

theorem append (h : p.Weaves texts) {other : Page} (hother : other.Weaves others) :
    (p.append other).Weaves (texts ++ others) := by
  intro k
  have hmoved : (other.lines.map fun l => { l with level := p.level + l.level }).map (Line.moved k)
      = other.lines.map (Line.moved (k + p.level)) := by
    simp [Line.moved, Function.comp_def, Nat.add_assoc]
  simp only [Page.append, List.map_append, List.flatMap_append, hmoved]
  exact (h k).append (hother (k + p.level))

theorem foldl {α : Type} {f : Page → α → Page} {textsOf : α → List String} {items : List α}
    (hf : ∀ item ∈ items, ∀ {out : Page} {texts : List String}, out.Weaves texts →
      (f out item).Weaves (texts ++ textsOf item))
    (h : p.Weaves texts) : (items.foldl f p).Weaves (texts ++ items.flatMap textsOf) := by
  induction items generalizing p texts with
  | nil => simpa using h
  | cons item items ih =>
      obtain ⟨hitem, hrest⟩ := List.forall_mem_cons.1 hf
      rw [List.foldl_cons, List.flatMap_cons, ← List.append_assoc]
      exact ih hrest (hitem h)

theorem linesOf {α : Type} {lineOf : α → String} {textsOf : α → List String} {items : List α}
    (hlines : ∀ item ∈ items, WeavesLine (lineOf item) (textsOf item)) (h : p.Weaves texts) :
    (p.linesOf (items.map lineOf)).Weaves (texts ++ items.flatMap textsOf) := by
  rw [Page.linesOf, List.foldl_map]
  exact h.foldl fun item hitem _ _ hout => hout.line (hlines item hitem)

theorem codeLines (h : p.Weaves texts) {lines : List String} (hlines : ∀ l ∈ lines, IsCode l) :
    (p.linesOf lines).Weaves texts :=
  List.foldlRecOn (motive := fun out => out.Weaves texts) lines Page.line h
    fun _ hout l hl => hout.codeLine (hlines l hl)

theorem comment (h : p.Weaves texts) (htext : PlainText text) : (p.comment text).Weaves texts := by
  have hlines : (p.comment text).Weaves (texts ++ (textLines text).flatMap fun _ => []) := by
    refine h.linesOf fun l hl => ?_
    rw [trimEnd_cons_of_not_blank (by decide), trimEnd_cons_of_not_blank (by decide)]
    refine weavesLine_comment fun c hc hend => ?_
    rcases List.mem_cons.1 (trimEnd_subset _ hc) with rfl | hc
    · simp [lineEnds, rareLineEnds] at hend
    · rcases List.mem_cons.1 hend with rfl | hrare
      · exact feed_not_mem_linesFrom (by simp) l hl hc
      · have hmem : c ∈ text.toList := by simpa using mem_of_mem_linesFrom l hl c hc
        exact (isCode_iff.1 (htext.isCode c hmem)).2.2 hrare
  rwa [List.flatMap_eq_nil_iff.2 fun _ _ => rfl, List.append_nil] at hlines

end Weaves

end Page

namespace Language

variable {out : Page} {texts : List String}

mutual

theorem weaves_writeNode : (n : Node) → n.PlainNames → {out : Page} → {texts : List String} →
    out.Weaves texts → (csharp.writeNode n out).Weaves (texts ++ n.texts)
  | .stmt s, hn, out, texts, hout => by
      rw [writeNode, Node.texts]
      exact hout.line (weavesLine_statement hn)
  | .block none nodes, hn, out, texts, hout => by
      rw [writeNode, Node.texts]
      exact (weaves_writeNodes nodes hn.2 hout.openScope).closeScope
  | .block (some guard) nodes, hn, out, texts, hout => by
      have hguard : Scenograph.Weaves (csharp.guardLine guard) guard.texts :=
        ((weaves_expression guard (hn.1 guard rfl)).before (by decide)).behind (by decide)
      have hnodes := weaves_writeNodes nodes hn.2 (hout.line hguard.line).openScope
      rw [List.append_assoc] at hnodes
      rw [writeNode, Node.texts]
      simpa [Node.guardTexts] using hnodes.closeScope

theorem weaves_writeNodes : (nodes : List Node) → Node.AllPlainNames nodes → {out : Page} →
    {texts : List String} → out.Weaves texts →
    (csharp.writeNodes nodes out).Weaves (texts ++ Node.allTexts nodes)
  | [], _, out, texts, hout => by
      rw [writeNodes, Node.allTexts, List.append_nil]
      exact hout
  | n :: rest, hn, out, texts, hout => by
      rw [writeNodes, Node.allTexts, ← List.append_assoc]
      exact weaves_writeNodes rest hn.2 (weaves_writeNode n hn.1 hout)

end

theorem weaves_writeMethod {className : String} (hclass : PlainText className) (site : Site)
    {m : Method} (hm : m.PlainNames) (hcomment : ∀ text ∈ m.comment, PlainText text)
    (hout : out.Weaves texts) :
    (csharp.writeMethod className site m out).Weaves (texts ++ m.body.texts) := by
  have hwritten : ∀ {start : Page}, start.Weaves texts →
      (csharp.writeTree m.body
        (start.line (csharp.signature className site m)).openScope).closeScope.Weaves
          (texts ++ m.body.texts) := by
    intro start hstart
    have hsignature := hstart.codeLine (isCode_csharpSignature hclass site hm)
    exact (weaves_writeNodes m.body.nodes hm.body.2 hsignature.openScope).closeScope
  unfold writeMethod
  split
  · next text htext => exact hwritten (hout.comment (hcomment text htext))
  · exact hwritten hout

theorem weaves_writeAccessor {className : String} (site : Site) {a : Accessor} (ha : a.PlainNames)
    (hout : out.Weaves texts) :
    (csharp.writeAccessor className site a out).Weaves (texts ++ a.setter.texts) := by
  have hsetter : (csharp.treePage a.setter).Weaves a.setter.texts :=
    weaves_writeNodes a.setter.nodes ha.setter.2 Page.weaves_empty
  have htype := csharp.plainText_typeText ha.type
  have hname : PlainText ("public " ++ csharp.typeText a.type ++ " " ++ a.name) :=
    ((PlainText.append (by decide) htype).append (by decide)).append ha.name
  have hget : PlainText ("get => " ++ a.field ++ ";") :=
    (PlainText.append (by decide) ha.field).append (by decide)
  have hopened := (hout.codeLine hname.isCode).openScope.codeLine hget.isCode
  exact ((hopened.codeLine (by decide)).openScope.append hsetter).closeScope.closeScope

end Language

theorem ClassUnit.weaves_singleFile {u : ClassUnit} {t : Target} (hu : u.PlainNames)
    (hcomments : ∀ m ∈ u.methods, ∀ text ∈ m.comment, PlainText text)
    (hclass : PlainText t.className) (hspace : PlainText t.space) :
    (u.singleFile t .csharp).Weaves u.texts := by
  have himports : ∀ l ∈ (u.namespaces .csharp).map Language.csharp.namespaceImport, IsCode l :=
    List.forall_mem_map.2 fun space hmem =>
      (Language.csharp.plainText_namespaceImport (plainText_namespaces hu _ space hmem)).isCode
  have hbanner : WeavesLine banner [] :=
    Language.weavesLine_statement (s := .comment "Generated by LottieGen. Do not edit.")
      (by simp [Statement.PlainNames, rareLineEnds])
  have hstart := (Page.weaves_empty.line hbanner).codeLines himports
  have hnamespace := (hstart.blank.codeLine
    (Language.csharp.plainText_namespaceLine hspace).isCode).openScope
  have hscope := (hnamespace.codeLine (Language.csharp.plainText_classLine hclass).isCode).openScope
  have hfields := hscope.linesOf fun f hf => (Language.weaves_fieldLine (hu.fields f hf)).line
  have haccessors := Page.Weaves.foldl
    (f := fun out a => Language.csharp.writeAccessor t.className .inline a out.blank)
    (fun a ha _ _ hout => Language.weaves_writeAccessor .inline (hu.accessors a ha) hout.blank)
    hfields
  have hmethods := Page.Weaves.foldl
    (f := fun out m => Language.csharp.writeMethod t.className .inline m out.blank)
    (fun m hm _ _ hout => Language.weaves_writeMethod hclass .inline (hu.methods m hm)
      (hcomments m hm) hout.blank) haccessors
  exact (hmethods.closeScopeWith (by decide : IsCode Language.csharp.classClose)).closeScope

theorem Parts.plainText_comments {x : Parts} {g : Graph} {t : Target} (hx : x.Of g t) :
    ∀ m ∈ x.unit.methods, ∀ text ∈ m.comment, PlainText text := by
  have hgetters : ∀ m ∈ x.plan.getterMethods x.ticks, ∀ text ∈ m.comment, PlainText text := by
    simp only [Plan.getterMethods, Plan.getterMethod, List.forall_mem_cons, Option.mem_some_iff,
      forall_eq']
    exact ⟨by decide, by decide, by decide, by simp⟩
  have htheme : ∀ m ∈ x.plan.themeMethodList x.usesTheme, m.comment = none := by
    unfold Plan.themeMethodList
    split
    · refine List.forall_mem_cons.2 ⟨rfl, ?_⟩
      split
      · exact List.forall_mem_singleton.2 rfl
      · simp
    · simp
  have hfactories : ∀ m ∈ x.factories, m.comment = none := by
    intro m hm
    obtain ⟨i, -, hfactory⟩ := exists_of_mem_right hx.factories hm
    obtain ⟨o, name, body, -, -, -, rfl⟩ := Plan.factory_eq_ok hfactory
    rfl
  refine List.forall_mem_cons.2 ⟨by simp [Plan.constructorMethod], List.forall_mem_append.2
    ⟨List.forall_mem_append.2 ⟨hgetters, ?_⟩, ?_⟩⟩
  · simp +contextual [htheme]
  · simp +contextual [hfactories]

theorem oneLine_of_isIdentifier {name : String} (h : isIdentifier name = true) : OneLine name := by
  have hnone : bareLineEnds.any isIdentifierPart = false := by decide
  exact fun c hc hmem => List.any_eq_false.1 hnone c hc (isIdentifierPart_of_mem h c hmem)

theorem ClassUnit.files_csharp (u : ClassUnit) (t : Target) :
    (u.write t .csharp).files
      = [⟨t.className ++ "." ++ "cs", (u.singleFile t .csharp).render⟩] :=
  rfl

theorem Parts.Of.closed_csharp_iff {x : Parts} {g : Graph} {t : Target} (hx : x.Of g t)
    (hclass : isIdentifier t.className = true) (hspace : isDottedIdentifier t.space = true)
    (hnames : ∀ b ∈ g.bindings.values, isIdentifier b.name = true) :
    LexicallyClosed (withFeeds (x.unit.singleFile t .csharp).render)
      ↔ ∀ o, g.Reaches o → ∀ s ∈ o.texts, OneLine s := by
  have hclass := plainText_of_isIdentifier hclass
  have hspace := plainText_of_isDottedIdentifier hspace
  have hplain := plainNames_unit hx hclass fun b hb => plainText_of_isIdentifier (hnames b hb)
  have hclosed := lexicallyClosed_render (ClassUnit.leaves_singleFile .csharp hplain hclass hspace)
  have hwoven := ClassUnit.weaves_singleFile hplain (plainText_comments hx) hclass hspace
  rw [lexicallyClosed_withFeeds_iff hwoven.render hclosed]
  constructor
  · exact fun hall o ho s hs => hall s ((mem_texts hx s).2 (.inl ⟨o, ho, hs⟩))
  · intro hall s hs
    rcases (mem_texts hx s).1 hs with ⟨o, ho, hs⟩ | hs
    · exact hall o ho s hs
    · obtain ⟨b, hb, rfl⟩ := List.mem_map.1 hs
      exact oneLine_of_isIdentifier (hnames b hb)

/-- Of the five line ends, three get into the literals of C#, and a file whose texts have one of
them breaks a literal. -/
theorem csharp_oneLine_iff (s : String) {c : Char} (hc : c ∈ lineEnds) :
    (c ∈ (Language.csharp.literal (.string s)).toList ↔ c ∈ s.toList ∧ c ∈ bareLineEnds)
    ∧ ∀ (g : Graph) (t : Target) (bs : List Binding) (r : Generated),
      Bindings.ofList bs = .ok g.bindings → g.generate t .csharp = .ok r →
      ∃ f, r.files = [f] ∧ (LexicallyClosed (withFeeds f.text)
        ↔ ∀ o, g.Reaches o → ∀ text ∈ o.texts, OneLine text) := by
  refine ⟨mem_quote hc s, fun g t bs r hbs h => ?_⟩
  rw [Graph.generate] at h
  obtain ⟨_, hcheck, h⟩ := bind_eq_ok.1 h
  obtain ⟨u, hu, h⟩ := bind_eq_ok.1 h
  cases h
  obtain ⟨_, hclass, hspace, _⟩ := Target.check_eq_ok hcheck
  obtain ⟨x, hx, rfl⟩ := Graph.lower_parts hu
  exact ⟨_, x.unit.files_csharp t, hx.closed_csharp_iff hclass hspace
    fun b hb => Bindings.isIdentifier_of_ofList hbs hb⟩

def separatedScene : Graph where
  objects := [.spriteVisual {} none [⟨"Opacity", 1⟩], .expressionAnimation "a\u2028b" []]
  root := some 0
  bindings := ⟨[]⟩

def separatedTarget : Target where
  language := .csharp
  size := ⟨1, 1⟩
  nanoseconds := 100

def separatedPlan : Plan :=
  ⟨separatedTarget, separatedScene, [0, 1],
    [(0, "SpriteVisual_0"), (1, "ExpressionAnimation_0")], []⟩

theorem ofGraph_separatedScene :
    Plan.ofGraph separatedTarget separatedScene = .ok separatedPlan := by
  have hvalid : separatedScene.validate = .ok () := Graph.validate_of_checks rfl rfl (by cbv)
  exact Plan.ofGraph_eq hvalid (by cbv) (by decide) rfl

theorem generate_separatedScene : ∃ r, separatedScene.generate separatedTarget .csharp = .ok r := by
  have hcheck : separatedPlan.checkBindings = .ok () := by decide +kernel
  obtain ⟨u, hu⟩ := Graph.lower_ok ofGraph_separatedScene hcheck ⟨1, rfl⟩
  have htarget : separatedTarget.check .csharp = .ok () := by decide +kernel
  exact ⟨_, by rw [Graph.generate, htarget, ok_bind, hu]; rfl⟩

theorem csharp_oneLine_iff_separatedScene :
    '\u2028' ∈ lineEnds ∧ '\u2028' ∈ (Language.csharp.literal (.string "a\u2028b")).toList
      ∧ ∃ r f, Bindings.ofList [] = .ok separatedScene.bindings
        ∧ separatedScene.generate separatedTarget .csharp = .ok r ∧ r.files = [f]
        ∧ ¬LexicallyClosed (withFeeds f.text) := by
  obtain ⟨r, hr⟩ := generate_separatedScene
  have hend : '\u2028' ∈ lineEnds := by simp [lineEnds, rareLineEnds]
  have hbare : '\u2028' ∈ bareLineEnds := by simp [bareLineEnds]
  have hmem : '\u2028' ∈ "a\u2028b".toList := by simp
  have hreaches : separatedScene.Reaches (.expressionAnimation "a\u2028b" []) := by
    have hreachable := (Plan.ofGraph_planned ofGraph_separatedScene).mem_order (i := 1)
    exact ⟨1, hreachable.1 (by simp [separatedPlan]), rfl⟩
  have hbs : Bindings.ofList [] = .ok separatedScene.bindings := rfl
  obtain ⟨hliteral, hgraphs⟩ := csharp_oneLine_iff "a\u2028b" hend
  obtain ⟨f, hf, hclosed⟩ := hgraphs separatedScene separatedTarget [] r hbs hr
  refine ⟨hend, hliteral.2 ⟨hmem, hbare⟩, r, f, hbs, hr, hf, fun h => ?_⟩
  exact hclosed.1 h _ hreaches _ (List.mem_cons_self ..) _ hbare hmem

end Scenograph
