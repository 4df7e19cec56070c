import Mathlib.Data.List.Basic
import Scenograph.Source.Header

namespace Scenograph

namespace Page

inductive Edit where
  | line (text : String)
  | lines (texts : List String)
  | blank
  | comment (text : String)
  | indent
  | unindent
  | openScope
  | closeScope
  | closeScopeWith (text : String)
  | append (other : Page)

namespace Edit

def apply (p : Page) : Edit → Page
  | .line text => p.line text
  | .lines texts => p.linesOf texts
  | .blank => p.blank
  | .comment text => p.comment text
  | .indent => p.indent
  | .unindent => p.unindent
  | .openScope => p.openScope
  | .closeScope => p.closeScope
  | .closeScopeWith text => p.closeScopeWith text
  | .append other => p.append other

def texts : Edit → List String
  | .line text | .closeScopeWith text => [text]
  | .lines texts => texts
  | .blank => [""]
  | .comment text =>
      (textLines text).map fun l => String.ofList (trimEnd ('/' :: '/' :: ' ' :: l))
  | .indent | .unindent => []
  | .openScope => ["\x7b"]
  | .closeScope => ["\x7d"]
  | .append other => other.lines.map (·.text)

end Edit

def edited (p : Page) (edits : List Edit) : Page :=
  edits.foldl Edit.apply p

theorem texts_linesOf (p : Page) (texts : List String) :
    (p.linesOf texts).lines.map (·.text) = p.lines.map (·.text) ++ texts := by
  induction texts generalizing p with
  | nil => simp [linesOf]
  | cons text texts ih =>
      rw [linesOf, List.foldl_cons]
      exact (ih (p.line text)).trans (by simp [line])

theorem texts_apply (p : Page) (e : Edit) :
    (e.apply p).lines.map (·.text) = p.lines.map (·.text) ++ e.texts := by
  cases e with
  | lines texts => exact p.texts_linesOf texts
  | comment text => exact p.texts_linesOf _
  | append other => simp [Edit.apply, append, Edit.texts, Function.comp_def]
  | _ =>
      simp [Edit.apply, Edit.texts, line, blank, indent, unindent, openScope, closeScope,
        closeScopeWith]

theorem texts_edited (p : Page) (edits : List Edit) :
    (p.edited edits).lines.map (·.text) = p.lines.map (·.text) ++ edits.flatMap Edit.texts := by
  induction edits generalizing p with
  | nil => simp [edited]
  | cons e edits ih =>
      rw [edited, List.foldl_cons, List.flatMap_cons, ← List.append_assoc, ← texts_apply]
      exact ih (e.apply p)

theorem lineCount_edited (p : Page) (edits : List Edit) :
    (p.edited edits).lineCount = p.lineCount + (edits.flatMap Edit.texts).length := by
  have htexts := congrArg List.length (p.texts_edited edits)
  simpa [lineCount] using htexts

end Page

namespace Header

open Page

theorem get_write (h : Header) (s s' : Section) (f : Page → Page) :
    (h.write s f).get s' = if s' = s then f (h.get s') else h.get s' := by
  cases s <;> cases s' <;> rfl

def edited (h : Header) (steps : List (Section × Edit)) : Header :=
  steps.foldl (fun h step => h.write step.1 step.2.apply) h

def editsOf (s : Section) (steps : List (Section × Edit)) : List Edit :=
  (steps.filter fun step => s = step.1).map (·.2)

theorem get_edited (h : Header) (steps : List (Section × Edit)) (s : Section) :
    (h.edited steps).get s = (h.get s).edited (editsOf s steps) := by
  induction steps generalizing h with
  | nil => rfl
  | cons step steps ih =>
      have hstep : (h.edited (step :: steps)).get s
          = ((h.write step.1 step.2.apply).get s).edited (editsOf s steps) := ih _
      rw [hstep, get_write]
      by_cases hs : s = step.1
      · simp [editsOf, hs, Page.edited]
      · simp [editsOf, hs]

theorem render_eq (h : Header) :
    h.render = (h.get .preamble).render
      ++ (if (h.get .hidden).lineCount ≤ 1 then "" else (h.get .hidden).render)
      ++ (if (h.get .internal).lineCount ≤ 1 then "" else (h.get .internal).render)
      ++ (h.get .exposed).render ++ (h.get .postamble).render := by
  by_cases hhidden : h.hidden.lineCount ≤ 1 <;> by_cases hinternal : h.internal.lineCount ≤ 1 <;>
    simp [render, order, omits, get, hhidden, hinternal, String.join, String.append_assoc]

def silent (edits : List Edit) : Prop :=
  ∀ e ∈ edits, e.texts = []

instance (edits : List Edit) : Decidable (silent edits) :=
  inferInstanceAs (Decidable (∀ e ∈ edits, e.texts = []))

theorem lineCount_labelled {level : Nat} {label : String} {edits : List Edit} :
    ((labelled level label).edited edits).lineCount ≤ 1 ↔ silent edits := by
  have hlabel : (labelled level label).lineCount = 1 := rfl
  have hnone : (edits.flatMap Edit.texts).length = 0 ↔ silent edits := by
    rw [List.length_eq_zero_iff, List.flatMap_eq_nil_iff]
    rfl
  rw [lineCount_edited, hlabel, ← hnone]
  omega

def membersText (level : Nat) (label : String) (edits : List Edit) : String :=
  if silent edits then "" else ((labelled level label).edited edits).render

theorem render_edited (level : Nat) (hidden internal exposed : String)
    (steps : List (Section × Edit)) :
    ((start level hidden internal exposed).edited steps).render
      = (Page.empty.edited (editsOf .preamble steps)).render
        ++ membersText level hidden (editsOf .hidden steps)
        ++ membersText level internal (editsOf .internal steps)
        ++ ((labelled level exposed).edited (editsOf .exposed steps)).render
        ++ ((Page.startingAt level).edited (editsOf .postamble steps)).render := by
  simp only [render_eq, get_edited]
  simp only [start, get, lineCount_labelled, membersText]

theorem render_free_of_order (level : Nat) (hidden internal exposed : String)
    {steps steps' : List (Section × Edit)} (hsame : ∀ s, editsOf s steps = editsOf s steps') :
    ((start level hidden internal exposed).edited steps).render
        = ((start level hidden internal exposed).edited steps').render
      ∧ ((start level hidden internal exposed).edited steps).render
        = (Page.empty.edited (editsOf .preamble steps)).render
          ++ membersText level hidden (editsOf .hidden steps)
          ++ membersText level internal (editsOf .internal steps)
          ++ ((labelled level exposed).edited (editsOf .exposed steps)).render
          ++ ((Page.startingAt level).edited (editsOf .postamble steps)).render := by
  refine ⟨?_, render_edited level hidden internal exposed steps⟩
  simp only [render_edited, hsame]

def orderlySteps : List (Section × Edit) :=
  [(.preamble, .line "class C"), (.preamble, .openScope), (.hidden, .indent),
    (.hidden, .comment ""), (.internal, .line "C();"),
    (.exposed, .lines ["void A();", "void B();"]), (.exposed, .blank),
    (.exposed, .append ((Page.startingAt 1).line "int D;")),
    (.postamble, .closeScopeWith "\x7d;")]

def scatteredSteps : List (Section × Edit) :=
  [(.postamble, .closeScopeWith "\x7d;"), (.exposed, .lines ["void A();", "void B();"]),
    (.hidden, .indent), (.preamble, .line "class C"), (.exposed, .blank), (.hidden, .comment ""),
    (.preamble, .openScope), (.exposed, .append ((Page.startingAt 1).line "int D;")),
    (.internal, .line "C();")]

theorem editsOf_scatteredSteps (s : Section) :
    editsOf s orderlySteps = editsOf s scatteredSteps := by
  cases s <;> rfl

theorem render_free_of_order_scatteredSteps :
    ((start 1 "private:" "internal:" "public:").edited orderlySteps).render
        = ((start 1 "private:" "internal:" "public:").edited scatteredSteps).render
      ∧ ((start 1 "private:" "internal:" "public:").edited scatteredSteps).render
        = "class C\n\x7b\n    internal:\n        C();\n    public:\n        void A();\n"
          ++ "        void B();\n\n            int D;\n\x7d;\n" := by
  have h := (render_free_of_order 1 "private:" "internal:" "public:" editsOf_scatteredSteps).1
  exact ⟨h, by decide +kernel⟩

end Header

end Scenograph
