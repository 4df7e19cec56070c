import Mathlib.Data.List.Basic
import Scenograph.Proofs.Source.Lexer
import Scenograph.Spelling.Member

namespace Scenograph

theorem plainChars_digits (n : Nat) : PlainChars (Nat.toDigits 10 n) :=
  fun _ hc => isPlain_of_class (by decide) (Nat.isDigit_of_mem_toDigits (by decide) (by decide) hc)

theorem plainChars_withSign {text : List Char} (negative : Bool) (h : PlainChars text) :
    PlainChars (withSign negative text) := by
  cases negative with
  | false => exact h
  | true => exact .cons (by decide) h

theorem plainChars_zeros (n : Nat) : PlainChars (Decimal.zeros n) := by
  intro c hc
  rw [List.eq_of_mem_replicate hc]
  decide

theorem plainChars_positional (showFraction : Bool) (d : Decimal) :
    PlainChars (d.positional showFraction) := by
  have hdigits : PlainChars d.digits := plainChars_digits _
  have hpoint : PlainChars ['.', '0'] := by decide
  have hwhole : PlainChars
      (if d.coefficient = 0 then d.digits else d.digits ++ Decimal.zeros d.exponent.toNat) := by
    split
    · exact hdigits
    · exact hdigits.append (plainChars_zeros _)
  unfold Decimal.positional
  dsimp only
  split
  · split
    · exact hwhole.append hpoint
    · exact hwhole
  · split
    · refine .append (fun c hc => hdigits c (List.mem_of_mem_take hc)) (.cons (by decide) ?_)
      exact fun c hc => hdigits c (List.mem_of_mem_drop hc)
    · exact .cons (by decide) (.cons (by decide) ((plainChars_zeros _).append hdigits))

theorem plainText_plainSingleText (content : Binary) : PlainText content.plainSingleText := by
  have hinfinite : ∀ negative, PlainText (String.ofList (withSign negative ['i', 'n', 'f'])) :=
    fun negative => (plainChars_withSign negative (by decide)).ofList
  unfold Binary.plainSingleText
  split
  · decide
  · exact hinfinite _
  · split
    · exact hinfinite _
    · exact (plainChars_withSign _ (plainChars_positional _ _)).ofList

theorem plainText_numeral (showFraction : Bool) (x : Float) :
    PlainText (numeral showFraction x) := by
  have hpoint : PlainChars (if showFraction then ['.', '0'] else []) := by
    cases showFraction <;> decide
  unfold numeral
  dsimp only
  split
  · split
    · exact (plainChars_withSign _ ((plainChars_digits _).append hpoint)).ofList
    · exact plainText_plainSingleText _
  · exact plainText_plainSingleText _

theorem plainText_signed (n : Int) : PlainText (signed n) :=
  (plainChars_withSign _ (plainChars_digits _)).ofList

theorem plainText_hexConstant (b : UInt8) : PlainText (Language.hexConstant b) := by
  have hdigit : ∀ d < 16, isPlain (Nat.digitChar d).toUpper = true := by decide
  have hb : b.toNat < 256 := b.toNat_lt
  refine PlainText.append (by decide) (PlainChars.ofList ?_)
  exact .cons (hdigit _ (by omega)) (.cons (hdigit _ (by omega)) (by simp [PlainChars]))

def TypeRef.PlainNames : TypeRef → Prop
  | .builtIn _ => True
  | .imported space name | .importedValue space name => PlainText space ∧ PlainText name
  | .generated name => PlainText name

mutual

def Expr.PlainNames : Expr → Prop
  | .var name => PlainText name
  | .lit _ => True
  | .call receiver method args =>
      Expr.PlainNames receiver ∧ PlainText method ∧ Expr.AllPlainNames args
  | .selfCall method args => PlainText method ∧ Expr.AllPlainNames args
  | .staticCall type method args => type.PlainNames ∧ PlainText method ∧ Expr.AllPlainNames args
  | .property receiver name | .field receiver name => Expr.PlainNames receiver ∧ PlainText name
  | .construct type args => type.PlainNames ∧ Expr.AllPlainNames args
  | .enumMember type member => type.PlainNames ∧ PlainText member
  | .notNull inner => Expr.PlainNames inner

def Expr.AllPlainNames : List Expr → Prop
  | [] => True
  | e :: rest => Expr.PlainNames e ∧ Expr.AllPlainNames rest

end

def Statement.PlainNames : Statement → Prop
  | .declare type name value => type.PlainNames ∧ PlainText name ∧ value.PlainNames
  | .assign target value => PlainText target ∧ value.PlainNames
  | .setProperty receiver name value => receiver.PlainNames ∧ PlainText name ∧ value.PlainNames
  | .eval value | .ret (some value) => value.PlainNames
  | .ret none => True
  | .comment text => ∀ c ∈ '\n' :: rareLineEnds, c ∉ text.toList

mutual

def Node.PlainNames : Node → Prop
  | .stmt s => s.PlainNames
  | .block guard nodes => (∀ e ∈ guard, e.PlainNames) ∧ Node.AllPlainNames nodes

def Node.AllPlainNames : List Node → Prop
  | [] => True
  | n :: rest => Node.PlainNames n ∧ Node.AllPlainNames rest

end

def Tree.PlainNames (t : Tree) : Prop :=
  (∀ e ∈ t.guard, e.PlainNames) ∧ Node.AllPlainNames t.nodes

structure Field.PlainNames (f : Field) : Prop where
  name : PlainText f.name
  type : f.type.PlainNames
  init : ∀ e ∈ f.init, e.PlainNames

structure Method.PlainNames (m : Method) : Prop where
  name : PlainText m.name
  parameters : ∀ p ∈ m.parameters, PlainText p.name ∧ p.type.PlainNames
  returns : m.returns.PlainNames
  body : m.body.PlainNames

structure Accessor.PlainNames (a : Accessor) : Prop where
  name : PlainText a.name
  type : a.type.PlainNames
  field : PlainText a.field
  setter : a.setter.PlainNames

structure ClassUnit.PlainNames (u : ClassUnit) : Prop where
  fields : ∀ f ∈ u.fields, f.PlainNames
  methods : ∀ m ∈ u.methods, m.PlainNames
  accessors : ∀ a ∈ u.accessors, a.PlainNames

namespace Language

variable (language : Language)

theorem plainText_builtInName (type : BuiltIn) : PlainText (language.builtInName type) := by
  cases language <;> cases type <;> decide

theorem plainText_typeName {type : TypeRef} (h : type.PlainNames) :
    PlainText (language.typeName type) := by
  cases type with
  | builtIn type => exact language.plainText_builtInName type
  | imported space name => exact h.2
  | importedValue space name => exact h.2
  | generated name => exact h

theorem plainText_typeText {type : TypeRef} (h : type.PlainNames) :
    PlainText (language.typeText type) := by
  have hname := language.plainText_typeName h
  cases language with
  | csharp => exact hname
  | cppWinRT => exact hname
  | cppCX =>
      rw [typeText]
      split
      · exact hname.append (by decide)
      · exact hname

theorem neutral_null : Neutral language.null := by
  cases language <;> decide

theorem plainText_float (x : Float) : PlainText (language.float x) := by
  cases language <;> exact (plainText_numeral _ x).append (by decide)

theorem neutral_vector (type : BuiltIn) (components : List Float) :
    Neutral (language.vector type components) := by
  have hmade : Neutral (applied (language.builtInName type) (components.map language.float)) := by
    refine neutral_applied (language.plainText_builtInName type).neutral fun a ha => ?_
    obtain ⟨x, _, rfl⟩ := List.mem_map.1 ha
    exact (language.plainText_float x).neutral
  cases language with
  | csharp => exact (by decide : Neutral "new ").append hmade
  | cppWinRT => exact hmade
  | cppCX => exact hmade

theorem neutral_color (c : Color) : Neutral (language.color c) := by
  have hhex : ∀ b, Neutral (hexConstant b) := fun b => (plainText_hexConstant b).neutral
  cases language <;> exact neutral_applied (by decide) (by simp [hhex])

theorem neutral_literal (value : Literal) : Neutral (language.literal value) := by
  cases value with
  | null => exact language.neutral_null
  | boolean value =>
      cases value with
      | false => exact (by decide : Neutral "false")
      | true => exact (by decide : Neutral "true")
  | float x => exact (language.plainText_float x).neutral
  | int32 n => exact (plainText_signed n).neutral
  | int64 n => cases language <;> exact ((plainText_signed n).append (by decide)).neutral
  | string s =>
      cases language with
      | csharp => exact neutral_quote s
      | cppWinRT => exact (by decide : Neutral "L").append (neutral_quote s)
      | cppCX => exact (by decide : Neutral "L").append (neutral_quote s)
  | vector2 v => exact language.neutral_vector _ _
  | vector3 v => exact language.neutral_vector _ _
  | vector4 v => exact language.neutral_vector _ _
  | color c => exact language.neutral_color c
  | timeSpan ticks =>
      have hticks := (plainText_signed ticks).neutral
      have hbraces : Neutral ("TimeSpan\x7b " ++ signed ticks ++ " \x7d") :=
        hticks.enclosed (by decide : Scans _ [] ['\x7b']) (by decide)
      cases language with
      | csharp => exact hticks.enclosed (by decide : Scans _ [] ['(']) (by decide)
      | cppWinRT => exact hbraces
      | cppCX => exact hbraces

theorem neutral_memberMark : Neutral language.memberMark := by
  cases language <;> decide

theorem neutral_staticMark : Neutral language.staticMark := by
  cases language <;> decide

theorem neutral_propertyGet {receiver name : String} (hreceiver : Neutral receiver)
    (hname : PlainText name) : Neutral (language.propertyGet receiver name) := by
  have hread : Neutral (receiver ++ "." ++ name) :=
    (hreceiver.append (by decide)).append hname.neutral
  cases language with
  | csharp => exact hread
  | cppWinRT => exact hread.append (by decide)
  | cppCX => exact (hreceiver.append (by decide)).append hname.neutral

theorem neutral_construction {type : TypeRef} {args : List String} (htype : type.PlainNames)
    (hargs : ∀ a ∈ args, Neutral a) : Neutral (language.construction type args) := by
  have hmade := neutral_applied (language.plainText_typeName htype).neutral hargs
  cases language with
  | csharp => exact (by decide : Neutral "new ").append hmade
  | cppWinRT => exact hmade
  | cppCX =>
      rw [construction]
      split
      · exact (by decide : Neutral "ref new ").append hmade
      · exact hmade

mutual

theorem neutral_expression : (e : Expr) → e.PlainNames → Neutral (language.expression e)
  | .var name, h => PlainText.neutral h
  | .lit value, _ => language.neutral_literal value
  | .call receiver method args, ⟨hreceiver, hmethod, hargs⟩ => by
      rw [expression]
      exact neutral_applied
        (((neutral_expression receiver hreceiver).append language.neutral_memberMark).append
          hmethod.neutral) (neutral_expressions args hargs)
  | .selfCall method args, ⟨hmethod, hargs⟩ => by
      rw [expression]
      exact neutral_applied hmethod.neutral (neutral_expressions args hargs)
  | .staticCall type method args, ⟨htype, hmethod, hargs⟩ => by
      rw [expression]
      exact neutral_applied
        (((language.plainText_typeName htype).neutral.append language.neutral_staticMark).append
          hmethod.neutral) (neutral_expressions args hargs)
  | .property receiver name, ⟨hreceiver, hname⟩ => by
      rw [expression]
      exact language.neutral_propertyGet (neutral_expression receiver hreceiver) hname
  | .field receiver name, ⟨hreceiver, hname⟩ => by
      rw [expression]
      exact ((neutral_expression receiver hreceiver).append (by decide)).append hname.neutral
  | .construct type args, ⟨htype, hargs⟩ => by
      rw [expression]
      exact language.neutral_construction htype (neutral_expressions args hargs)
  | .enumMember type member, ⟨htype, hmember⟩ => by
      rw [expression]
      exact ((language.plainText_typeName htype).neutral.append language.neutral_staticMark).append
        hmember.neutral
  | .notNull inner, h => by
      rw [expression]
      exact ((neutral_expression inner h).append (by decide)).append language.neutral_null

theorem neutral_expressions : (es : List Expr) → Expr.AllPlainNames es →
    ∀ text ∈ language.expressions es, Neutral text
  | [], _ => by
      rw [expressions]
      simp
  | e :: rest, ⟨he, hrest⟩ => by
      rw [expressions]
      exact List.forall_mem_cons.2 ⟨neutral_expression e he, neutral_expressions rest hrest⟩

end

theorem neutral_propertySet {receiver name value : String} (hreceiver : Neutral receiver)
    (hname : PlainText name) (hvalue : Neutral value) :
    Neutral (language.propertySet receiver name value) := by
  cases language with
  | csharp =>
      exact ((((hreceiver.append (by decide)).append hname.neutral).append (by decide)).append
        hvalue).append (by decide)
  | cppWinRT =>
      have hcall : Scans (receiver ++ "." ++ name ++ "(") [] ['('] :=
        Scans.append ((hreceiver.append (by decide)).append hname.neutral) (by decide)
      exact hvalue.enclosed hcall (by decide)
  | cppCX =>
      exact ((((hreceiver.append (by decide)).append hname.neutral).append (by decide)).append
        hvalue).append (by decide)

theorem neutral_localWord : Neutral language.localWord := by
  cases language <;> decide

theorem scansLine_statement {s : Statement} (h : s.PlainNames) (opened : List Char) :
    ScansLine (language.statement s) opened opened := by
  have hend : Neutral ";" := by decide
  cases s with
  | declare type name value =>
      have hvalue := language.neutral_expression value h.2.2
      exact (((((language.neutral_localWord.append (by decide)).append h.2.1.neutral).append
        (by decide)).append hvalue).append hend).line opened
  | assign target value =>
      have hvalue := language.neutral_expression value h.2
      exact (((h.1.neutral.append (by decide)).append hvalue).append hend).line opened
  | setProperty receiver name value =>
      exact (language.neutral_propertySet (language.neutral_expression receiver h.1) h.2.1
        (language.neutral_expression value h.2.2)).line opened
  | eval value => exact ((language.neutral_expression value h).append hend).line opened
  | ret value =>
      cases value with
      | none => exact (by decide : Neutral "return;").line opened
      | some value =>
          have hreturn : Neutral "return " := by decide
          exact ((hreturn.append (language.neutral_expression value h)).append hend).line opened
  | comment text => exact scansLine_comment (h '\n' (List.mem_cons_self ..)) opened

theorem neutral_guardLine {guard : Expr} (h : guard.PlainNames) :
    Neutral (language.guardLine guard) :=
  (language.neutral_expression guard h).enclosed (by decide : Scans "if (" [] ['(']) (by decide)

theorem neutral_parameters {m : Method} (h : m.PlainNames) : Neutral (language.parameters m) := by
  refine neutral_commaList fun text htext => ?_
  obtain ⟨p, hp, rfl⟩ := List.mem_map.1 htext
  obtain ⟨hname, htype⟩ := h.parameters p hp
  exact (((language.plainText_typeText htype).append (by decide)).append hname).neutral

theorem plainText_visibilityWord (visibility : Visibility) :
    PlainText (visibilityWord visibility) := by
  cases visibility <;> decide

theorem plainText_staticWord (m : Method) : PlainText (staticWord m) := by
  rw [staticWord]
  split <;> decide

theorem neutral_signature {className : String} (hclass : PlainText className) (site : Site)
    {m : Method} (h : m.PlainNames) : Neutral (language.signature className site m) := by
  have hparams := (language.neutral_parameters h).parenthesised
  have hreturns := language.plainText_typeText h.returns
  have hspace : PlainText " " := by decide
  have hcolons : PlainText "::" := by decide
  have hend : Neutral ";" := by decide
  have hvisible := plainText_visibilityWord m.visibility
  have hstatic := plainText_staticWord m
  have hdeclared : Neutral (staticWord m ++ language.typeText m.returns ++ " " ++ m.name
      ++ ("(" ++ language.parameters m ++ ")")) :=
    (((hstatic.append hreturns).append hspace).append h.name).neutral.append hparams
  cases language with
  | csharp =>
      rw [signature]
      split
      · exact (hvisible.append hclass).neutral.append hparams
      · exact ((((hvisible.append hstatic).append hreturns).append hspace).append
          h.name).neutral.append hparams
  | _ =>
      simp only [signature]
      split
      · cases site with
        | definition => exact ((hclass.append hcolons).append hclass).neutral.append hparams
        | declaration => exact (hclass.neutral.append hparams).append hend
        | inline => exact hclass.neutral.append hparams
      · cases site with
        | definition =>
            exact ((((hreturns.append hspace).append hclass).append hcolons).append
              h.name).neutral.append hparams
        | declaration => exact hdeclared.append hend
        | inline => exact hdeclared

theorem neutral_fieldLine {f : Field} (h : f.PlainNames) : Neutral (language.fieldLine f) := by
  have hstart : Neutral (language.typeText f.type ++ " " ++ f.name) :=
    (((language.plainText_typeText h.type).append (by decide)).append h.name).neutral
  have hassigned : ∀ init, init.PlainNames → Neutral
      (language.typeText f.type ++ " " ++ f.name ++ " = " ++ language.expression init ++ ";") :=
    fun init hinit => ((hstart.append (by decide)).append
      (language.neutral_expression init hinit)).append (by decide)
  have hbraces : Scans (language.typeText f.type ++ " " ++ f.name ++ "\x7b ") [] ['\x7b'] :=
    Scans.append hstart (by decide)
  cases hinit : f.init with
  | none =>
      cases language with
      | cppWinRT =>
          simp only [fieldLine, hinit]
          split
          · exact hstart.append (by decide)
          · exact hstart.append (by decide)
      | _ =>
          simp only [fieldLine, hinit]
          exact hstart.append (by decide)
  | some init =>
      have hvalue := h.init init hinit
      cases language with
      | cppWinRT =>
          simp only [fieldLine, hinit]
          exact (neutral_expression _ init hvalue).enclosed hbraces (by decide)
      | _ =>
          simp only [fieldLine, hinit]
          exact hassigned init hvalue

theorem plainText_colonPath {space : String} (h : PlainText space) :
    PlainText (colonPath space) := by
  refine PlainChars.ofList fun c hc => ?_
  obtain ⟨c', hc', hmem⟩ := List.mem_flatMap.1 hc
  split at hmem
  · exact (by decide : PlainChars [':', ':']) c hmem
  · rw [List.mem_singleton.1 hmem]
    exact h c' hc'

theorem plainText_namespaceImport {space : String} (h : PlainText space) :
    PlainText (language.namespaceImport space) := by
  have hpath := plainText_colonPath h
  cases language with
  | csharp => exact (PlainText.append (by decide) h).append (by decide)
  | cppWinRT => exact (PlainText.append (by decide) hpath).append (by decide)
  | cppCX => exact (PlainText.append (by decide) hpath).append (by decide)

theorem plainText_namespaceLine {space : String} (h : PlainText space) :
    PlainText (language.namespaceLine space) := by
  have hpath := plainText_colonPath h
  cases language with
  | csharp => exact PlainText.append (by decide) h
  | cppWinRT => exact PlainText.append (by decide) hpath
  | cppCX => exact PlainText.append (by decide) hpath

theorem plainText_classLine {name : String} (h : PlainText name) :
    PlainText (language.classLine name) := by
  cases language with
  | csharp => exact PlainText.append (by decide) h
  | cppWinRT => exact (PlainText.append (by decide) h).append (by decide)
  | cppCX => exact (PlainText.append (by decide) h).append (by decide)

theorem scans_classClose : Scans language.classClose ['\x7b'] [] := by
  cases language <;> decide

theorem neutral_accessLabel (visibility : Visibility) :
    Neutral (language.accessLabel visibility) := by
  cases language <;> cases visibility <;> decide

theorem neutral_headerInclude {space line : String} (h : PlainText space)
    (hline : language.headerInclude? space = some line) : Neutral line := by
  cases language with
  | csharp => cases hline
  | cppCX => cases hline
  | cppWinRT =>
      cases hline
      have hstart : Lexer.run {} "#include <winrt/".toList = some ⟨.slash, []⟩ := by decide
      have hrest : PlainText (space ++ ".h>") := h.append (by decide)
      rw [String.append_assoc, Neutral, Scans, String.toList_append]
      exact (Lexer.run_append_of_eq hstart _).trans
        (Lexer.run_plain_behind_slash (by simp) hrest [])

end Language

end Scenograph
