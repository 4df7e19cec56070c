import Mathlib.Data.List.Basic
import Scenograph.Proofs.Source.Spelling
import Scenograph.Source.Print

namespace Scenograph

theorem Line.run_render (l : Line) (opened : List Char) :
    Lexer.run ⟨.code, opened⟩ l.render = Lexer.run ⟨.code, opened⟩ (l.text.toList ++ ['\n']) := by
  rw [Line.render]
  split
  · next hempty =>
      rw [String.isEmpty_iff.1 hempty]
      rfl
  · have hblanks : PlainChars (List.replicate (4 * l.level) ' ') := by
      intro c hc
      rw [List.eq_of_mem_replicate hc]
      decide
    exact Lexer.run_append_of_eq (Lexer.run_plain hblanks opened) _

namespace Page

def Leaves (p : Page) (before after : List Char) : Prop :=
  Lexer.run ⟨.code, before⟩ (p.lines.flatMap Line.render) = some ⟨.code, after⟩

variable {p : Page} {a b c : List Char}

theorem leaves_empty (a : List Char) : Page.empty.Leaves a a :=
  rfl

theorem leaves_startingAt (level : Nat) (a : List Char) : (Page.startingAt level).Leaves a a :=
  rfl

theorem Leaves.within (h : p.Leaves a b) (outer : List Char) : p.Leaves (a ++ outer) (b ++ outer) :=
  Lexer.run_within h outer

theorem Leaves.line (h : p.Leaves a b) {text : String} (htext : ScansLine text b c) :
    (p.line text).Leaves a c := by
  have hlines : (p.line text).lines.flatMap Line.render
      = p.lines.flatMap Line.render ++ Line.render ⟨p.level, text⟩ := by
    simp [Page.line]
  rw [Leaves, hlines, Lexer.run_append_of_eq h, Line.run_render]
  exact htext

theorem Leaves.neutralLine (h : p.Leaves a b) {text : String} (htext : Neutral text) :
    (p.line text).Leaves a b :=
  h.line (htext.line b)

theorem Leaves.blank (h : p.Leaves a b) : p.blank.Leaves a b :=
  h.neutralLine (by decide)

theorem Leaves.linesOf (h : p.Leaves a b) {texts : List String}
    (htexts : ∀ text ∈ texts, ScansLine text b b) : (p.linesOf texts).Leaves a b :=
  List.foldlRecOn (motive := fun out => out.Leaves a b) texts Page.line h
    fun _ hout text htext => hout.line (htexts text htext)

theorem Leaves.neutralLines (h : p.Leaves a b) {texts : List String}
    (htexts : ∀ text ∈ texts, Neutral text) : (p.linesOf texts).Leaves a b :=
  h.linesOf fun text htext => (htexts text htext).line b

theorem Leaves.openScope (h : p.Leaves a b) : p.openScope.Leaves a ('\x7b' :: b) :=
  h.line (((by decide : Scans "\x7b" [] ['\x7b']).within b).line)

theorem Leaves.closeScopeWith (h : p.Leaves a ('\x7b' :: b)) {text : String}
    (htext : Scans text ['\x7b'] []) : (p.closeScopeWith text).Leaves a b :=
  Leaves.line (p := p.unindent) h (htext.within b).line

theorem Leaves.closeScope (h : p.Leaves a ('\x7b' :: b)) : p.closeScope.Leaves a b :=
  h.closeScopeWith (by decide)

theorem leaves_moved (level : Nat) {lines : List Line} {a b : List Char}
    (h : Lexer.run ⟨.code, a⟩ (lines.flatMap Line.render) = some ⟨.code, b⟩) :
    Lexer.run ⟨.code, a⟩ ((lines.map fun l => { l with level := level + l.level }).flatMap
      Line.render) = some ⟨.code, b⟩ := by
  induction lines generalizing a with
  | nil => exact h
  | cons l lines ih =>
      rw [List.flatMap_cons, Lexer.run_append, Line.run_render] at h
      obtain ⟨⟨mode, opened⟩, hline, hrest⟩ := Option.bind_eq_some_iff.1 h
      cases Lexer.mode_of_line hline
      rw [List.map_cons, List.flatMap_cons, Lexer.run_append, Line.run_render, hline]
      exact ih hrest

theorem Leaves.append (h : p.Leaves a b) {other : Page} (hother : other.Leaves b c) :
    (p.append other).Leaves a c := by
  have hlines : (p.append other).lines.flatMap Line.render
      = p.lines.flatMap Line.render
        ++ (other.lines.map fun l => { l with level := p.level + l.level }).flatMap Line.render := by
    simp [Page.append]
  rw [Leaves, hlines, Lexer.run_append_of_eq h]
  exact leaves_moved p.level hother

end Page

theorem feed_not_mem_linesFrom {acc text : List Char} (hacc : '\n' ∉ acc) :
    ∀ line ∈ linesFrom acc text, '\n' ∉ line := by
  fun_induction linesFrom acc text with
  | case1 acc hempty => simp
  | case2 acc hempty => simpa using hacc
  | case3 acc rest ih =>
      have hdropped : '\n' ∉ dropReturn acc := by
        unfold dropReturn
        split
        · exact fun hmem => hacc (List.dropLast_subset acc hmem)
        · exact hacc
      exact List.forall_mem_cons.2 ⟨hdropped, ih (by simp)⟩
  | case4 acc c rest hc ih =>
      refine ih fun hmem => ?_
      rcases List.mem_append.1 hmem with hmem | hmem
      · exact hacc hmem
      · exact hc (List.mem_singleton.1 hmem).symm

theorem trimEnd_cons_of_not_blank {c : Char} (hc : isBlank c = false) (text : List Char) :
    trimEnd (c :: text) = c :: trimEnd text := by
  rw [trimEnd, trimEnd, List.reverse_cons, List.dropWhile_append]
  split
  · next hempty => simp [List.isEmpty_iff.1 hempty, hc]
  · simp

theorem trimEnd_subset (text : List Char) : trimEnd text ⊆ text := by
  intro c hc
  rw [trimEnd, List.mem_reverse] at hc
  exact List.mem_reverse.1 ((List.dropWhile_sublist _).subset hc)

theorem Page.Leaves.comment {p : Page} {a b : List Char} (h : p.Leaves a b) (text : String) :
    (p.comment text).Leaves a b := by
  refine h.linesOf fun line hline => ?_
  obtain ⟨chars, hchars, rfl⟩ := List.mem_map.1 hline
  have hfeed : '\n' ∉ chars := feed_not_mem_linesFrom (by simp) chars hchars
  have htrimmed : '\n' ∉ trimEnd (' ' :: chars) :=
    fun hmem => by simpa [hfeed] using trimEnd_subset _ hmem
  rw [ScansLine, String.toList_ofList, trimEnd_cons_of_not_blank (by decide),
    trimEnd_cons_of_not_blank (by decide)]
  exact Lexer.run_commentLine htrimmed b

namespace Language

variable (language : Language) {out : Page} {a b : List Char}

mutual

theorem leaves_writeNode : (n : Node) → n.PlainNames → {out : Page} → {b : List Char} →
    out.Leaves a b → (language.writeNode n out).Leaves a b
  | .stmt s, hn, out, b, hout => by
      rw [writeNode]
      exact hout.line (language.scansLine_statement hn b)
  | .block none nodes, hn, out, b, hout => by
      rw [writeNode]
      exact (leaves_writeNodes nodes hn.2 hout.openScope).closeScope
  | .block (some guard) nodes, hn, out, b, hout => by
      have hguard := language.neutral_guardLine (hn.1 guard rfl)
      rw [writeNode]
      exact (leaves_writeNodes nodes hn.2 (hout.neutralLine hguard).openScope).closeScope

theorem leaves_writeNodes : (nodes : List Node) → Node.AllPlainNames nodes → {out : Page} →
    {b : List Char} → out.Leaves a b → (language.writeNodes nodes out).Leaves a b
  | [], _, out, b, hout => by
      rw [writeNodes]
      exact hout
  | n :: rest, hn, out, b, hout => by
      rw [writeNodes]
      exact leaves_writeNodes rest hn.2 (leaves_writeNode n hn.1 hout)

end

theorem leaves_treePage {t : Tree} (h : t.PlainNames) (opened : List Char) :
    (language.treePage t).Leaves opened opened :=
  language.leaves_writeNodes t.nodes h.2 (Page.leaves_empty opened)

theorem leaves_writeMethod {className : String} (hclass : PlainText className) (site : Site)
    {m : Method} (hm : m.PlainNames) (hout : out.Leaves a b) :
    (language.writeMethod className site m out).Leaves a b := by
  have hwritten : ∀ {start : Page}, start.Leaves a b →
      (language.writeTree m.body
        (start.line (language.signature className site m)).openScope).closeScope.Leaves a b := by
    intro start hstart
    have hsignature := hstart.neutralLine (language.neutral_signature hclass site hm)
    exact (language.leaves_writeNodes m.body.nodes hm.body.2 hsignature.openScope).closeScope
  unfold writeMethod
  split
  · exact hwritten (hout.comment _)
  · exact hwritten hout

theorem leaves_setterBlock {firstLine : String} {setter : Page} (hline : Neutral firstLine)
    (hsetter : ∀ opened, setter.Leaves opened opened) (hout : out.Leaves a b) :
    (setterBlock out firstLine setter).Leaves a b :=
  ((hout.neutralLine hline).openScope.append (hsetter _)).closeScope

section Accessors

variable {className head type field : String} {setter : Page} {x : Accessor}

theorem neutral_reading {opening : String} (hhead : PlainText head)
    (hopening : Scans opening [] ['\x7b']) (hfield : PlainText field) :
    Neutral (head ++ opening ++ field ++ "; \x7d") :=
  hfield.neutral.enclosed (Scans.append hhead.neutral hopening) (by decide)

theorem neutral_writing {opening : String} (hhead : PlainText head)
    (hopening : Scans opening [] ['(']) (htype : PlainText type) :
    Neutral (head ++ opening ++ type ++ " value)") :=
  htype.neutral.enclosed (Scans.append hhead.neutral hopening) (by decide)

theorem neutral_propertyDeclaration {name : String} (htype : PlainText type)
    (hname : PlainText name) :
    Neutral ("property " ++ type ++ " " ++ name ++ " \x7b " ++ type ++ " get(); void set(" ++ type
      ++ " value); \x7d") := by
  have hhead : PlainText ("property " ++ type ++ " " ++ name) :=
    ((PlainText.append (by decide) htype).append (by decide)).append hname
  have hopen : Scans " \x7b " [] ['\x7b'] := by decide
  have hread : Scans " get(); void set(" ['\x7b'] ['(', '\x7b'] := by decide
  have hclose : Scans " value); \x7d" ['(', '\x7b'] [] := by decide
  exact ((((Scans.append hhead.neutral hopen).append (htype.neutral.under _)).append hread).append
    (htype.neutral.under _)).append hclose

theorem leaves_accessor_csharp (hx : x.PlainNames) (site : Site)
    (hsetter : ∀ opened, setter.Leaves opened opened) (hout : out.Leaves a b) :
    (Language.csharp.accessor className site x setter out).Leaves a b := by
  have htype := csharp.plainText_typeText hx.type
  have hname : PlainText ("public " ++ csharp.typeText x.type ++ " " ++ x.name) :=
    ((PlainText.append (by decide) htype).append (by decide)).append hx.name
  have hget : PlainText ("get => " ++ x.field ++ ";") :=
    (PlainText.append (by decide) hx.field).append (by decide)
  have hopened := (hout.neutralLine hname.neutral).openScope.neutralLine hget.neutral
  exact (leaves_setterBlock (by decide) hsetter hopened).closeScope

theorem leaves_accessor_cppWinRT (hclass : PlainText className) (hx : x.PlainNames) (site : Site)
    (hsetter : ∀ opened, setter.Leaves opened opened) (hout : out.Leaves a b) :
    (Language.cppWinRT.accessor className site x setter out).Leaves a b := by
  have htype := cppWinRT.plainText_typeText hx.type
  have hspace : PlainText " " := by decide
  have hvoid : PlainText "void " := by decide
  have hbodies : ∀ owner, PlainText owner → (setterBlock
      (out.line (cppWinRT.typeText x.type ++ " " ++ owner ++ x.name ++ "() const \x7b return "
        ++ x.field ++ "; \x7d")).blank
      ("void " ++ owner ++ x.name ++ "(" ++ cppWinRT.typeText x.type ++ " value)")
      setter).Leaves a b := by
    intro owner howner
    have hread := neutral_reading (((htype.append hspace).append howner).append hx.name)
      (by decide : Scans "() const \x7b return " [] ['\x7b']) hx.field
    have hwrite := neutral_writing ((hvoid.append howner).append hx.name)
      (by decide : Scans "(" [] ['(']) htype
    exact leaves_setterBlock hwrite hsetter (hout.neutralLine hread).blank
  cases site with
  | inline => exact hbodies "" (by decide)
  | definition => exact hbodies (className ++ "::") (hclass.append (by decide))
  | declaration =>
      have hread := ((htype.append hspace).append hx.name).neutral.append
        (by decide : Neutral "() const;")
      have hwrite := htype.neutral.enclosed (Scans.append (hvoid.append hx.name).neutral
        (by decide : Scans "(" [] ['('])) (by decide : Scans " value);" ['('] [])
      exact (hout.neutralLine hread).neutralLine hwrite

theorem leaves_accessor_cppCX (hclass : PlainText className) (hx : x.PlainNames) (site : Site)
    (hsetter : ∀ opened, setter.Leaves opened opened) (hout : out.Leaves a b) :
    (Language.cppCX.accessor className site x setter out).Leaves a b := by
  have htype := cppCX.plainText_typeText hx.type
  have hspace : PlainText " " := by decide
  have hvoid : PlainText "void " := by decide
  have hcolons : PlainText "::" := by decide
  have hread := neutral_reading
    ((((htype.append hspace).append hclass).append hcolons).append hx.name)
    (by decide : Scans "::get() \x7b return " [] ['\x7b']) hx.field
  have hwrite := neutral_writing (((hvoid.append hclass).append hcolons).append hx.name)
    (by decide : Scans "::set(" [] ['(']) htype
  have hbodies := leaves_setterBlock hwrite hsetter (hout.neutralLine hread).blank
  cases site with
  | inline => exact hbodies
  | definition => exact hbodies
  | declaration => exact hout.neutralLine (neutral_propertyDeclaration htype hx.name)

theorem leaves_writeAccessor (hclass : PlainText className) (site : Site) (hx : x.PlainNames)
    (hout : out.Leaves a b) : (language.writeAccessor className site x out).Leaves a b := by
  have hsetter := language.leaves_treePage hx.setter
  cases language with
  | csharp => exact leaves_accessor_csharp hx site hsetter hout
  | cppWinRT => exact leaves_accessor_cppWinRT hclass hx site hsetter hout
  | cppCX => exact leaves_accessor_cppCX hclass hx site hsetter hout

end Accessors

end Language

end Scenograph
