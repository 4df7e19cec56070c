import Scenograph.Proofs.Composition.Bindings
import Scenograph.Proofs.Lowering.PlainNames
import Scenograph.Proofs.Lowering.Scope
import Scenograph.Proofs.Source.Pages

namespace Scenograph

mutual

theorem Expr.types_plain : (e : Expr) → e.PlainNames → ∀ t ∈ e.types, t.PlainNames
  | .var name, _ => by simp [Expr.types]
  | .lit value, _ => by
      rw [Expr.types]
      intro t ht
      obtain ⟨type, _, rfl⟩ := List.mem_map.1 ht
      exact trivial
  | .call receiver method args, h => by
      rw [Expr.types]
      exact List.forall_mem_append.2
        ⟨Expr.types_plain receiver h.1, Expr.allTypes_plain args h.2.2⟩
  | .selfCall method args, h => by
      rw [Expr.types]
      exact Expr.allTypes_plain args h.2
  | .staticCall type method args, h => by
      rw [Expr.types]
      exact List.forall_mem_cons.2 ⟨h.1, Expr.allTypes_plain args h.2.2⟩
  | .property receiver name, h => by
      rw [Expr.types]
      exact Expr.types_plain receiver h.1
  | .field receiver name, h => by
      rw [Expr.types]
      exact Expr.types_plain receiver h.1
  | .construct type args, h => by
      rw [Expr.types]
      exact List.forall_mem_cons.2 ⟨h.1, Expr.allTypes_plain args h.2⟩
  | .enumMember type member, h => by
      rw [Expr.types]
      exact List.forall_mem_singleton.2 h.1
  | .notNull inner, h => by
      rw [Expr.types]
      exact Expr.types_plain inner h

theorem Expr.allTypes_plain : (es : List Expr) → Expr.AllPlainNames es →
    ∀ t ∈ Expr.allTypes es, t.PlainNames
  | [], _ => by simp [Expr.allTypes]
  | e :: rest, h => by
      rw [Expr.allTypes]
      exact List.forall_mem_append.2 ⟨Expr.types_plain e h.1, Expr.allTypes_plain rest h.2⟩

end

theorem Statement.types_plain {s : Statement} (h : s.PlainNames) :
    ∀ t ∈ s.types, t.PlainNames := by
  cases s with
  | declare type name value =>
      exact List.forall_mem_cons.2 ⟨h.1, Expr.types_plain value h.2.2⟩
  | assign target value => exact Expr.types_plain value h.2
  | setProperty receiver name value =>
      exact List.forall_mem_append.2
        ⟨Expr.types_plain receiver h.1, Expr.types_plain value h.2.2⟩
  | eval value => exact Expr.types_plain value h
  | ret value =>
      cases value with
      | none => simp [Statement.types]
      | some value => exact Expr.types_plain value h
  | comment text => simp [Statement.types]

theorem Node.guardTypes_plain {guard : Option Expr} (h : ∀ e ∈ guard, e.PlainNames) :
    ∀ t ∈ Node.guardTypes guard, t.PlainNames := by
  intro t ht
  obtain ⟨e, he, hmem⟩ := List.mem_flatMap.1 ht
  exact Expr.types_plain e (h e (Option.mem_toList.1 he)) t hmem

mutual

theorem Node.types_plain : (n : Node) → n.PlainNames → ∀ t ∈ n.types, t.PlainNames
  | .stmt s, h => by
      rw [Node.types]
      exact Statement.types_plain h
  | .block guard nodes, h => by
      rw [Node.types]
      exact List.forall_mem_append.2
        ⟨Node.guardTypes_plain h.1, Node.allTypes_plain nodes h.2⟩

theorem Node.allTypes_plain : (nodes : List Node) → Node.AllPlainNames nodes →
    ∀ t ∈ Node.allTypes nodes, t.PlainNames
  | [], _ => by simp [Node.allTypes]
  | n :: rest, h => by
      rw [Node.allTypes]
      exact List.forall_mem_append.2 ⟨Node.types_plain n h.1, Node.allTypes_plain rest h.2⟩

end

theorem Tree.types_plain {t : Tree} (h : t.PlainNames) : ∀ type ∈ t.types, type.PlainNames :=
  List.forall_mem_append.2 ⟨Node.guardTypes_plain h.1, Node.allTypes_plain t.nodes h.2⟩

theorem ClassUnit.types_plain {u : ClassUnit} (h : u.PlainNames) :
    ∀ type ∈ u.types, type.PlainNames := by
  have hfields : ∀ type ∈ u.fields.flatMap Field.types, type.PlainNames := by
    intro type htype
    obtain ⟨f, hf, hmem⟩ := List.mem_flatMap.1 htype
    have hplain := h.fields f hf
    exact List.forall_mem_cons.2 ⟨hplain.type, Node.guardTypes_plain hplain.init⟩ type hmem
  have hmethods : ∀ type ∈ u.methods.flatMap Method.types, type.PlainNames := by
    intro type htype
    obtain ⟨m, hm, hmem⟩ := List.mem_flatMap.1 htype
    have hplain := h.methods m hm
    have hparameters : ∀ type ∈ m.parameters.map (·.type), type.PlainNames := by
      intro type htype
      obtain ⟨p, hp, rfl⟩ := List.mem_map.1 htype
      exact (hplain.parameters p hp).2
    exact List.forall_mem_cons.2 ⟨hplain.returns,
      List.forall_mem_append.2 ⟨hparameters, Tree.types_plain hplain.body⟩⟩ type hmem
  have haccessors : ∀ type ∈ u.accessors.flatMap Accessor.types, type.PlainNames := by
    intro type htype
    obtain ⟨a, ha, hmem⟩ := List.mem_flatMap.1 htype
    have hplain := h.accessors a ha
    exact List.forall_mem_cons.2 ⟨hplain.type, Tree.types_plain hplain.setter⟩ type hmem
  exact List.forall_mem_append.2 ⟨List.forall_mem_append.2 ⟨hfields, hmethods⟩, haccessors⟩

theorem Language.plainText_namespaceOf {language : Language} {type : TypeRef} {space : String}
    (h : type.PlainNames) (hspace : language.namespaceOf? type = some space) :
    PlainText space := by
  cases type with
  | builtIn type =>
      have hbuiltIn : ∀ space ∈ language.builtInNamespace? type, PlainText space := by
        cases language <;> cases type <;> decide
      exact hbuiltIn space hspace
  | imported owner name =>
      cases hspace
      exact h.1
  | importedValue owner name =>
      cases hspace
      exact h.1
  | generated name => cases hspace

theorem ClassUnit.plainText_namespaces {u : ClassUnit} (h : u.PlainNames) (language : Language) :
    ∀ space ∈ u.namespaces language, PlainText space := by
  intro space hspace
  obtain ⟨type, htype, hnamespace⟩ :=
    List.mem_filterMap.1 (Catalog.mem_sortedTexts.1 hspace)
  exact Language.plainText_namespaceOf (ClassUnit.types_plain h type htype) hnamespace

theorem isIdentifierPart_of_mem {name : String} (h : isIdentifier name = true) :
    ∀ c ∈ name.toList, isIdentifierPart c = true := by
  rw [isIdentifier] at h
  split at h
  · cases h
  · next first rest htext =>
      rw [Bool.and_eq_true, List.all_eq_true] at h
      rw [htext]
      refine List.forall_mem_cons.2 ⟨?_, h.2⟩
      have hfirst := h.1
      simp only [isIdentifierStart, isIdentifierPart, Bool.or_eq_true, Char.isAlphanum] at hfirst ⊢
      exact hfirst.imp_left .inl

theorem plainText_of_isIdentifier {name : String} (h : isIdentifier name = true) :
    PlainText name :=
  fun c hc => isPlain_of_class (by decide) (isIdentifierPart_of_mem h c hc)

theorem mem_splitDots (acc text : List Char) :
    ∀ c ∈ acc ++ text, c = '.' ∨ ∃ part ∈ splitDots acc text, c ∈ part := by
  fun_induction splitDots acc text with
  | case1 acc => exact fun c hc => .inr ⟨acc, List.mem_singleton_self _, by simpa using hc⟩
  | case2 acc rest ih =>
      intro c hc
      rcases List.mem_append.1 hc with hc | hc
      · exact .inr ⟨acc, List.mem_cons_self .., hc⟩
      · rcases List.mem_cons.1 hc with rfl | hc
        · exact .inl rfl
        · obtain hdot | ⟨part, hpart, hmem⟩ := ih c (by simpa using hc)
          · exact .inl hdot
          · exact .inr ⟨part, List.mem_cons_of_mem _ hpart, hmem⟩
  | case3 acc c rest hc ih =>
      intro c' hc'
      exact ih c' (by simpa using hc')

theorem plainText_of_isDottedIdentifier {space : String} (h : isDottedIdentifier space = true) :
    PlainText space := by
  rw [isDottedIdentifier, List.all_eq_true] at h
  intro c hc
  obtain rfl | ⟨part, hpart, hmem⟩ := mem_splitDots [] space.toList c hc
  · decide
  · have hplain := plainText_of_isIdentifier (h part hpart)
    rw [PlainText, String.toList_ofList] at hplain
    exact hplain c hmem

namespace Header

structure MembersNeutral (base h : Header) : Prop where
  preamble : h.preamble = base.preamble
  postamble : h.postamble = base.postamble
  hidden : h.hidden.Leaves [] []
  internal : h.internal.Leaves [] []
  exposed : h.exposed.Leaves [] []

theorem MembersNeutral.write {base h : Header} (hh : MembersNeutral base h) (v : Visibility)
    {f : Page → Page} (hf : ∀ out : Page, out.Leaves [] [] → (f out).Leaves [] []) :
    MembersNeutral base (h.write (ClassUnit.sectionOf v) f) := by
  cases v with
  | hidden => exact { hh with hidden := hf _ hh.hidden }
  | internal => exact { hh with internal := hf _ hh.internal }
  | exposed => exact { hh with exposed := hf _ hh.exposed }

theorem run_sections {h : Header} {ss : List Section} (hss : ∀ s ∈ ss, (h.get s).Leaves [] [])
    (opened : List Char) :
    Lexer.run ⟨.code, opened⟩ (ss.flatMap fun s => (h.get s).render.toList)
      = some ⟨.code, opened⟩ := by
  induction ss with
  | nil => rfl
  | cons s ss ih =>
      have hs : Lexer.run ⟨.code, opened⟩ (h.get s).render.toList = some ⟨.code, opened⟩ := by
        rw [Page.render, String.toList_ofList]
        exact (hss s (List.mem_cons_self ..)).within opened
      rw [List.flatMap_cons, Lexer.run_append_of_eq hs]
      exact ih fun s' hs' => hss s' (List.mem_cons_of_mem _ hs')

theorem lexicallyClosed_render {h : Header} {opened : List Char}
    (hpreamble : h.preamble.Leaves [] opened)
    (hmembers : ∀ s ∈ [Section.hidden, .internal, .exposed], (h.get s).Leaves [] [])
    (hpostamble : h.postamble.Leaves opened []) : LexicallyClosed h.render := by
  let members := [Section.hidden, .internal, .exposed].filter fun s => !h.omits s
  have horder : order.filter (fun s => !h.omits s)
      = Section.preamble :: (members ++ [Section.postamble]) := by
    have hsplit : order = [Section.preamble]
        ++ ([Section.hidden, Section.internal, Section.exposed] ++ [Section.postamble]) := rfl
    rw [hsplit, List.filter_append, List.filter_append]
    rfl
  have hinside : Lexer.run ⟨.code, opened⟩ (members.flatMap fun s => (h.get s).render.toList)
      = some ⟨.code, opened⟩ :=
    run_sections (fun s hs => hmembers s (List.mem_filter.1 hs).1) opened
  have htext : h.render.toList = h.preamble.lines.flatMap Line.render
      ++ ((members.flatMap fun s => (h.get s).render.toList)
        ++ h.postamble.lines.flatMap Line.render) := by
    simp [render, horder, String.toList_join, List.flatMap_map, get, Page.render]
  refine ⟨⟨.code, []⟩, ?_, rfl, by decide⟩
  rw [htext]
  exact (Lexer.run_append_of_eq hpreamble _).trans
    ((Lexer.run_append_of_eq hinside _).trans hpostamble)

end Header

theorem lexicallyClosed_render {p : Page} (h : p.Leaves [] []) : LexicallyClosed p.render := by
  refine ⟨⟨.code, []⟩, ?_, rfl, by decide⟩
  rw [Page.render, String.toList_ofList]
  exact h

theorem scansLine_banner (opened : List Char) : ScansLine ClassUnit.banner opened opened :=
  scansLine_comment (by decide : '\n' ∉ "Generated by LottieGen. Do not edit.".toList) opened

theorem neutral_include {name extension : String} (hname : isIdentifier name = true)
    (hextension : isIdentifier extension = true) :
    Neutral ("#include \"" ++ (name ++ "." ++ extension) ++ "\"") := by
  have hidentifier : ∀ {text : String}, isIdentifier text = true →
      ∀ c ∈ text.toList, c ∉ ['"', '\\', '\n'] := by
    intro text htext c hc hmem
    have hspecial : ['"', '\\', '\n'].any isIdentifierPart = false := by decide
    exact List.any_eq_false.1 hspecial c hmem (isIdentifierPart_of_mem htext c hc)
  have hinside : ∀ c ∈ (name ++ "." ++ extension).toList, c ∉ ['"', '\\', '\n'] := by
    rw [String.toList_append, String.toList_append]
    refine List.forall_mem_append.2 ⟨List.forall_mem_append.2 ⟨hidentifier hname, by simp⟩,
      hidentifier hextension⟩
  have hopen : Lexer.run {} "#include \"".toList = some ⟨.literal, []⟩ := by decide
  have hclose : Lexer.run ⟨.literal, []⟩ "\"".toList = some {} := by decide
  rw [Neutral, Scans, String.toList_append, String.toList_append, List.append_assoc]
  exact (Lexer.run_append_of_eq hopen _).trans
    ((Lexer.run_append_of_eq (Lexer.run_literal hinside []) _).trans hclose)

namespace ClassUnit

variable {u : ClassUnit} {t : Target} (language : Language) {out : Page} {a b : List Char}

section Members

variable (hu : u.PlainNames) {className : String} (hclass : PlainText className)

include hu in
theorem neutral_namespaceImports :
    ∀ text ∈ (u.namespaces language).map language.namespaceImport, Neutral text := by
  intro text htext
  obtain ⟨space, hmem, rfl⟩ := List.mem_map.1 htext
  exact (language.plainText_namespaceImport (plainText_namespaces hu language space hmem)).neutral

include hu in
theorem neutral_headerIncludes :
    ∀ text ∈ (u.namespaces language).filterMap language.headerInclude?, Neutral text := by
  intro text htext
  obtain ⟨space, hmem, hline⟩ := List.mem_filterMap.1 htext
  exact language.neutral_headerInclude (plainText_namespaces hu language space hmem) hline

include hu in
theorem neutral_fieldLines : ∀ text ∈ u.fields.map language.fieldLine, Neutral text := by
  intro text htext
  obtain ⟨f, hf, rfl⟩ := List.mem_map.1 htext
  exact language.neutral_fieldLine (hu.fields f hf)

include hu hclass in
theorem leaves_accessors (site : Site) (hout : out.Leaves a b) :
    (u.accessors.foldl (fun out x => language.writeAccessor className site x out.blank)
      out).Leaves a b :=
  List.foldlRecOn (motive := fun out : Page => out.Leaves a b) u.accessors _ hout
    fun _ hout x hx => language.leaves_writeAccessor hclass site (hu.accessors x hx) hout.blank

include hclass in
theorem leaves_methods {ms : List Method} (hms : ∀ m ∈ ms, m.PlainNames) (site : Site)
    (hout : out.Leaves a b) :
    (ms.foldl (fun out m => language.writeMethod className site m out.blank) out).Leaves a b :=
  List.foldlRecOn (motive := fun out : Page => out.Leaves a b) ms _ hout
    fun _ hout m hm => language.leaves_writeMethod hclass site (hms m hm) hout.blank

include hclass in
theorem leaves_writeMethods {ms : List Method} (hms : ∀ m ∈ ms, m.PlainNames)
    (hout : out.Leaves a b) : (writeMethods language className ms out).Leaves a b := by
  cases ms with
  | nil => exact hout
  | cons m rest =>
      obtain ⟨hm, hrest⟩ := List.forall_mem_cons.1 hms
      exact leaves_methods language hclass hrest .definition
        (language.leaves_writeMethod hclass .definition hm hout)

end Members

section Files

variable (hu : u.PlainNames) (hclass : PlainText t.className) (hspace : PlainText t.space)

include hu hclass hspace in
theorem leaves_singleFile : (u.singleFile t language).Leaves [] [] := by
  have hstart := ((Page.leaves_empty []).line (scansLine_banner [])).neutralLines
    (neutral_namespaceImports language hu)
  have hnamespace := (hstart.blank.neutralLine
    (language.plainText_namespaceLine hspace).neutral).openScope
  have hscope := (hnamespace.neutralLine (language.plainText_classLine hclass).neutral).openScope
  have hfields := hscope.neutralLines (neutral_fieldLines language hu)
  have haccessors := leaves_accessors language hu hclass .inline hfields
  have hmethods := leaves_methods language hclass hu.methods .inline haccessors
  exact (hmethods.closeScopeWith language.scans_classClose).closeScope

include hu hclass hspace in
theorem leaves_headerPreamble :
    (u.headerPreamble t language .empty).Leaves [] ['\x7b', '\x7b'] := by
  have hpragma : ∀ text ∈ language.headerStart, Neutral text := by
    cases language <;> decide
  have hstart := (((Page.leaves_empty []).neutralLines hpragma).line
    (scansLine_banner [])).neutralLines (neutral_headerIncludes language hu)
  have hnamespace := (hstart.blank.neutralLine
    (language.plainText_namespaceLine hspace).neutral).openScope
  have himports : ∀ {out : Page}, out.Leaves [] ['\x7b'] →
      (if (u.namespaces language).isEmpty then out
        else (out.linesOf ((u.namespaces language).map language.namespaceImport)).blank).Leaves
          [] ['\x7b'] := by
    intro out hout
    split
    · exact hout
    · exact (hout.neutralLines (neutral_namespaceImports language hu)).blank
  exact ((himports hnamespace).neutralLine (language.plainText_classLine hclass).neutral).openScope

def headerStart (u : ClassUnit) (t : Target) (language : Language) : Header :=
  (Header.start 1 (language.accessLabel .hidden) (language.accessLabel .internal)
    (language.accessLabel .exposed)).write .preamble (u.headerPreamble t language)

theorem membersNeutral_headerStart :
    Header.MembersNeutral (u.headerStart t language) (u.headerStart t language) := by
  have hlabel : ∀ v, (Header.labelled 1 (language.accessLabel v)).Leaves [] [] :=
    fun v => (Page.leaves_startingAt 1 []).neutralLine (language.neutral_accessLabel v)
  exact ⟨rfl, rfl, hlabel .hidden, hlabel .internal, hlabel .exposed⟩

include hu hclass hspace in
theorem lexicallyClosed_header : LexicallyClosed (u.header t language).render := by
  let base := u.headerStart t language
  have hfields := List.foldlRecOn (motive := Header.MembersNeutral base) u.fields
    (fun h f => h.write .hidden (·.line (language.fieldLine f)))
    (membersNeutral_headerStart language)
    fun h hh f hf => hh.write .hidden fun out hout =>
      hout.neutralLine (language.neutral_fieldLine (hu.fields f hf))
  have hmethods := List.foldlRecOn (motive := Header.MembersNeutral base) u.methods
    (fun h m => h.write (sectionOf m.visibility)
      (·.line (language.signature t.className .declaration m))) hfields
    fun h hh m hm => hh.write m.visibility fun out hout =>
      hout.neutralLine (language.neutral_signature hclass .declaration (hu.methods m hm))
  have haccessors := List.foldlRecOn (motive := Header.MembersNeutral base) u.accessors
    (fun h x => h.write .exposed (language.writeAccessor t.className .declaration x)) hmethods
    fun h hh x hx => hh.write .exposed fun out hout =>
      language.leaves_writeAccessor hclass .declaration (hu.accessors x hx) hout
  have hpostamble : ((base.postamble.line language.classClose).unindent.line "\x7d").Leaves
      ['\x7b', '\x7b'] [] := by
    have hopened := (Page.leaves_startingAt 1 ['\x7b', '\x7b']).line
      (language.scans_classClose.within ['\x7b']).line
    exact hopened.closeScope
  rw [← haccessors.postamble] at hpostamble
  refine Header.lexicallyClosed_render ?_ ?_ hpostamble
  · have hpreamble := leaves_headerPreamble language hu hclass hspace
    exact haccessors.preamble ▸ hpreamble
  · simp only [List.mem_cons, List.not_mem_nil, or_false, forall_eq_or_imp, forall_eq]
    exact ⟨haccessors.hidden, haccessors.internal, haccessors.exposed⟩

include hu in
theorem leaves_definitions (hclass : isIdentifier t.className = true) (hspace : PlainText t.space)
    {extension : String} (hextension : isIdentifier extension = true) :
    (u.definitions t language (t.className ++ "." ++ extension)).Leaves [] [] := by
  have hplain := plainText_of_isIdentifier hclass
  have hincludes : ∀ text ∈ language.definitionIncludes (t.className ++ "." ++ extension),
      Neutral text := by
    have hpch : Neutral "#include \"pch.h\"" := by decide
    cases language <;>
      simp [Language.definitionIncludes, hpch, neutral_include hclass hextension]
  have hstart := ((Page.leaves_empty []).line (scansLine_banner [])).neutralLines hincludes
  have hnamespace := (hstart.blank.neutralLine
    (language.plainText_namespaceLine hspace).neutral).openScope
  have hmethods := leaves_writeMethods language hplain hu.methods hnamespace
  exact (leaves_accessors language hu hplain .definition hmethods).closeScope

end Files

theorem lexicallyClosed_write (hu : u.PlainNames) (hclass : isIdentifier t.className = true)
    (hspace : PlainText t.space) : ∀ f ∈ (u.write t language).files, LexicallyClosed f.text := by
  have hplain := plainText_of_isIdentifier hclass
  have hextension : isIdentifier "h" = true := by decide +kernel
  have hsingle := lexicallyClosed_render (leaves_singleFile language hu hplain hspace)
  have hheader := lexicallyClosed_header language hu hplain hspace
  have hdefinitions :=
    lexicallyClosed_render (leaves_definitions language hu hclass hspace hextension)
  cases language with
  | csharp => exact List.forall_mem_singleton.2 hsingle
  | _ => exact List.forall_mem_cons.2 ⟨hheader, List.forall_mem_singleton.2 hdefinitions⟩

end ClassUnit

theorem generate_lexicallyClosed {g : Graph} {t : Target} {writer : Language} {r : Generated}
    {bs : List Binding} (hbs : Bindings.ofList bs = .ok g.bindings)
    (h : g.generate t writer = .ok r) : ∀ f ∈ r.files, LexicallyClosed f.text := by
  rw [Graph.generate] at h
  obtain ⟨_, hcheck, h⟩ := bind_eq_ok.1 h
  obtain ⟨u, hu, h⟩ := bind_eq_ok.1 h
  cases h
  obtain ⟨_, hclass, hspace, _⟩ := Target.check_eq_ok hcheck
  obtain ⟨x, hx, rfl⟩ := Graph.lower_parts hu
  have hbindings : ∀ b ∈ g.bindings.values, PlainText b.name := fun b hb =>
    plainText_of_isIdentifier (Bindings.isIdentifier_of_ofList hbs hb)
  exact ClassUnit.lexicallyClosed_write writer
    (plainNames_unit hx (plainText_of_isIdentifier hclass) hbindings) hclass
    (plainText_of_isDottedIdentifier hspace)

theorem Page.render_infix {p : Page} {l : Line} (hl : l ∈ p.lines) :
    l.render <:+: p.render.toList := by
  rw [Page.render, String.toList_ofList, List.flatMap_def]
  exact List.infix_of_mem_flatten (List.mem_map_of_mem hl)

def quotedScene : Graph where
  objects := [.spriteVisual {} (some 1) [⟨"Opacity\"(", 3⟩], .surfaceBrush 2,
    .imageSurface "image" "//\"\n\\)", .expressionAnimation "\"\x7b" [⟨"the\nme", .theme⟩]]
  root := some 0
  bindings := ⟨[("Tint", tintBinding)]⟩

def quotedTarget : Target where
  language := .cppWinRT
  size := ⟨1, 1⟩
  nanoseconds := 100

def quotedPlan : Plan :=
  ⟨quotedTarget, quotedScene, [0, 1, 2, 3],
    [(0, "SpriteVisual_0"), (1, "CompositionSurfaceBrush_0"), (2, "LoadedImageSurface_0"),
      (3, "ExpressionAnimation_0")], []⟩

theorem ofList_tintBinding : Bindings.ofList [tintBinding] = .ok quotedScene.bindings :=
  Bindings.ofList_singleton (by decide +kernel) rfl rfl

def quotedParts : Parts where
  plan := quotedPlan
  usesTheme := true
  root := 0
  rootFactory := "SpriteVisual_0"
  ticks := 1
  factories := [0, 1, 2, 3].filterMap fun i => (quotedPlan.factory i).toOption
  sharedFields := []
  assets := ["image"]

theorem preorder_quotedScene : quotedScene.preorder = .ok quotedPlan.order := by
  cbv

theorem quotedParts_of : quotedParts.Of quotedScene quotedTarget where
  plan := by
    have hvalid : quotedScene.validate = .ok () := Graph.validate_of_checks rfl rfl (by cbv)
    exact Plan.ofGraph_eq hvalid preorder_quotedScene (by decide) rfl
  bindings := by decide +kernel
  theme := rfl
  root := rfl
  rootFactory := rfl
  ticks := rfl
  factories := .cons rfl (.cons rfl (.cons rfl (.cons rfl .nil)))
  sharedFields := .nil
  assets := by
    rw [Graph.referencedAssets, preorder_quotedScene]
    rfl

def quotedLine : Line :=
  ⟨2, "auto result = LoadedImageSurface::StartLoadFromUri(Uri(L\"//\\\"\\n\\\\)\"));"⟩

theorem generate_lexicallyClosed_quotedScene :
    ∃ r header source, Bindings.ofList [tintBinding] = .ok quotedScene.bindings
      ∧ quotedScene.generate quotedTarget .cppWinRT = .ok r ∧ r.files = [header, source]
      ∧ header.name = "AnimatedVisual.h" ∧ source.name = "AnimatedVisual.cpp"
      ∧ quotedLine.render <:+: source.text.toList
      ∧ LexicallyClosed header.text ∧ LexicallyClosed source.text := by
  have htarget : quotedTarget.check .cppWinRT = .ok () := by decide +kernel
  have hr : quotedScene.generate quotedTarget .cppWinRT
      = .ok (quotedParts.unit.write quotedTarget .cppWinRT) := by
    rw [Graph.generate, htarget, ok_bind, quotedParts_of.lower_eq]
    rfl
  have hline : quotedLine
      ∈ (quotedParts.unit.definitions quotedTarget .cppWinRT "AnimatedVisual.h").lines := by
    decide +kernel
  have hclosed := generate_lexicallyClosed ofList_tintBinding hr
  obtain ⟨hheader, hrest⟩ := List.forall_mem_cons.1 hclosed
  have hsource := hrest _ (List.mem_singleton_self _)
  exact ⟨_, _, _, ofList_tintBinding, hr, rfl, rfl, rfl, Page.render_infix hline, hheader, hsource⟩

end Scenograph
