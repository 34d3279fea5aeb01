import SourceModel.Proofs.Calc.Elements
import SourceModel.Proofs.Calc.Names

/-!
# What the outline of a text contains

Besides the element of the unit, the outline of a text has a declaration for every assignment and an
embedded part for every template, whether it stands by itself or at some depth of an expression.
The parts inside an assignment come below its declaration, the others and the declarations below the
unit, and the children of an element lie one behind the other.
-/

namespace SourceModel.Calc

open SourceModel.Outline (Rooted)
open SourceModel.Tree (NestedIn numbered)

/-! ## Statements of a text -/

def statementsOf (ast : Ast) : List (Nat × Tree) := ast.root.numberedChildren 0

section Statements

variable {source : String} {level : AstLevel} {ast : Ast} {n : Ast.Node} {s : Nat × Tree}

private theorem filter_nodes {p : SyntaxKind → Bool} (hroot : p ast.root.kind = false) :
    ast.nodes.filter (p ·.tree.kind) =
      (statementsOf ast).flatMap fun s => (s.2.nodesFrom s.1 [0]).filter (p ·.tree.kind) := by
  obtain ⟨astLanguage, data, children, foreign⟩ := ast
  have hdata : p data.kind = false := hroot
  rw [Ast.nodes, Tree.nodesFrom, Tree.nodesAmong_eq_flatMap, List.filter_cons, List.filter_flatMap]
  simp only [Tree.kind, Tree.data, hdata, Bool.false_eq_true, if_false]
  rfl

private theorem mem_nodes_of_mem (hs : s ∈ statementsOf ast) : ⟨s.1, s.2, [0]⟩ ∈ ast.nodes :=
  Tree.mem_nodesFrom_of_childOf (Ast.rootNode_mem ast) ⟨rfl, hs⟩

private theorem isStatement_of_mem (h : lower (parse source) level = .ok ast)
    (hs : s ∈ statementsOf ast) :
    IsStatement s.2 := isStatement_of_lower h s.2 (Tree.mem_of_mem_numbered hs)

private theorem filter_templates (h : lower (parse source) level = .ok ast) :
    ast.nodes.filter (isTemplateKind ·.tree.kind) = (statementsOf ast).flatMap templatesIn := by
  refine filter_nodes ?_
  rw [(firstNamed_of_lower h).1]
  rfl

private theorem filter_assignments (h : lower (parse source) level = .ok ast) :
    ast.nodes.filter (·.tree.kind = Kind.assignment) =
      ((statementsOf ast).filter (·.2.kind = Kind.assignment)).map fun s => ⟨s.1, s.2, [0]⟩ := by
  have hroot : decide (ast.root.kind = Kind.assignment) = false := by
    rw [(firstNamed_of_lower h).1]
    rfl
  have hss : ∀ s ∈ statementsOf ast, IsStatement s.2 := fun s hs => isStatement_of_mem h hs
  rw [filter_nodes (p := fun k => k = Kind.assignment) hroot]
  generalize statementsOf ast = ss at hss
  induction ss with
  | nil => rfl
  | cons s ss ih =>
    obtain ⟨hs, hss⟩ := List.forall_mem_cons.1 hss
    rw [List.flatMap_cons, ih hss, filter_assignment_nodesFrom hs, List.filter_cons]
    by_cases ha : s.2.kind = Kind.assignment
    · simp [ha]
    · simp [ha]

private theorem exists_of_assignment (h : lower (parse source) level = .ok ast) (hn : n ∈ ast.nodes)
    (ha : n.tree.kind = Kind.assignment) : ∃ s ∈ statementsOf ast, n = ⟨s.1, s.2, [0]⟩ := by
  have hmem : n ∈ ast.nodes.filter (·.tree.kind = Kind.assignment) :=
    List.mem_filter.2 ⟨hn, decide_eq_true ha⟩
  rw [filter_assignments h] at hmem
  obtain ⟨s, hs, heq⟩ := List.mem_map.1 hmem
  exact ⟨s, (List.mem_filter.1 hs).1, heq.symm⟩

end Statements

/-! ## Templates of a text -/

section Templates

variable {source : String} {level : AstLevel} {ast : Ast} {lo hi : Nat} {ts : List Token}
  {t : Token} {data : NodeData}

private theorem isTemplateKind_iff {k : SyntaxKind} {kind : TokenKind} (h : k ∈ kind.nodeKinds) :
    kind = .template ↔ isTemplateKind k = true := by
  have hall : ∀ k ∈ kind.nodeKinds, kind = .template ↔ isTemplateKind k = true := by
    cases kind <;> decide
  exact hall k h

theorem forall₂_templateNodes (h : lower (parse source) level = .ok ast) :
    List.Forall₂ (fun t n => StandsFor (lex source).tokens t n.tree.data)
      ((lex source).tokens.filter (·.kind = .template))
      (ast.nodes.filter (isTemplateKind ·.tree.kind)) := by
  refine forall₂_nodes h rfl (fun k hk => ?_) isTemplateKind_iff
  rcases of_decide_eq_true hk with rfl | rfl <;> rfl

private theorem StandsFor.stop_le (h : StandsFor ts t data) (hts : Tiles lo hi ts) :
    t.stop ≤ data.region.stop := by
  rcases h.stop_eq with hstop | ⟨-, us, blanks, s, vs, rfl, -, -, hstop⟩
  · exact Nat.le_of_eq hstop.symm
  · have hs : s ∈ blanks ++ s :: vs := List.mem_append_right _ List.mem_cons_self
    have hbehind := (List.pairwise_append.1 hts.pairwise).2.1
    have hle := (List.pairwise_cons.1 hbehind).1 s hs
    have hlt := (hts.mem (List.mem_append_right us (List.mem_cons_of_mem t hs))).2.1
    omega

private theorem spread_of_lower (h : lower (parse source) level = .ok ast) :
    ∀ s ∈ statementsOf ast, Spread s := by
  have htokens := (tiles_lex source).pairwise.filter (·.kind = .template)
  have hnodes := pairwise_of_forall₂ (forall₂_templateNodes h) htokens
    (Q := fun m n => m.tree.kind ≠ Kind.templateBlock →
      m.tree.region.stop ≤ n.tree.region.offset) (by
        intro t u m n hm hn hle hne
        have hstop := hm.stop_eq.resolve_right fun hb => hne hb.1
        change m.tree.data.region.stop ≤ n.tree.data.region.offset
        rwa [hstop, hn.offset_eq])
  rw [filter_templates h, List.pairwise_flatMap] at hnodes
  intro s hs
  have hstatement := isStatement_of_mem h hs
  by_cases hb : s.2.kind = Kind.templateBlock
  · rw [Spread, templatesIn_block hstatement hb]
    exact List.pairwise_singleton ..
  · refine (hnodes.1 s hs).imp_of_mem fun {m n} hm _ hle => hle ?_
    rw [templatesIn_eq hstatement hb] at hm
    rw [of_decide_eq_true (List.mem_filter.1 hm).2]
    decide

end Templates

/-! ## Outlines -/

/-- An element is the declaration for an assignment: it comes below the unit, lies where the
assignment lies, and has the name that the assignment has as its target in the text. -/
structure Declares (source : String) (n : Ast.Node) (e : Element) : Prop where
  parent?_eq : e.parent? = some OutlineBuilder.root
  range_eq : e.range = n.tree.region
  node?_eq : e.node? = some n.id
  name : ∃ target text, target? n.tree = some target ∧ target.text = some text ∧
    e.name = .simple text ∧ e.nameRange? = some target.region ∧
      target.region.slice? source = some text

def Token.LiesIn (t : Token) (r : Region) : Prop := r.offset ≤ t.start ∧ t.stop ≤ r.stop

/-- An element is the embedded part for a template: it stands for the template's node, and comes
below the declaration for the assignment in which the template lies, or else below the unit. -/
structure Embeds (source : String) (ast : Ast) (o : Outline) (t : Token) (e : Element) : Prop where
  name_eq : e.name = templateElementName
  nameRange?_eq : e.nameRange? = none
  node : ∃ n ∈ ast.nodes, e.node? = some n.id ∧ e.range = n.tree.region ∧
    StandsFor (lex source).tokens t n.tree.data
  inside : ∀ a ∈ ast.nodes, a.tree.kind = Kind.assignment → t.LiesIn a.tree.region →
    ∃ i d, e.parent? = some i ∧ o.get? i = some d ∧ d.type = .declaration ∧ d.node? = some a.id
  outside : (∀ a ∈ ast.nodes, a.tree.kind = Kind.assignment → ¬ t.LiesIn a.tree.region) →
    e.parent? = some OutlineBuilder.root

/-- An outline has an element for the unit, one for each assignment and one for each template, in
the order of the source. -/
structure Shows (source unit : String) (ast : Ast) (o : Outline) : Prop where
  unit : ∃ e es, o.elements = e :: es ∧ e.type = .sourceUnit ∧ e.name = .simple unit ∧
    e.parent? = none ∧ e.range.offset = 0 ∧ e.range.stop = Text.size source ∧
      ∀ d ∈ es, d.type = .declaration ∨ d.type = .embeddedPart
  declarations : List.Forall₂ (Declares source)
    (ast.nodes.filter (·.tree.kind = Kind.assignment)) (o.elements.filter (·.type = .declaration))
  embedded : List.Forall₂ (Embeds source ast o) ((lex source).tokens.filter (·.kind = .template))
    (o.elements.filter (·.type = .embeddedPart))
  mem_childrenOf_iff : ∀ i j, j ∈ o.childrenOf i ↔ ∃ e, o.get? j = some e ∧ e.parent? = some i
  childrenOf_apart : ∀ i, (o.childrenOf i).Pairwise fun j k =>
    (o.rangeOf j).stop ≤ (o.rangeOf k).offset

section Outlines

variable {source : String} {level : AstLevel} {ast : Ast} {o : Outline} {n : Ast.Node} {t : Token}
  {e : Element} {s s' : Nat × Tree}

private theorem exists_target (h : lower (parse source) level = .ok ast) (hn : n ∈ ast.nodes)
    (ha : n.tree.kind = Kind.assignment) :
    ∃ target text, target? n.tree = some target ∧ target.text = some text ∧
      target.region.slice? source = some text := by
  have hfirst := (firstNamed_of_lower h).2 n hn
  rw [FirstNamed, if_pos ha] at hfirst
  obtain ⟨name, rest, hchildren, hname, -⟩ := hfirst
  have htarget : target? n.tree = some name := by
    rw [target?, hchildren, List.head?_cons, Option.filter_some, if_pos (decide_eq_true hname)]
  have hchild : (⟨n.id + 1, name, n.id :: n.ancestors⟩ : Ast.Node) ∈ ast.nodes := by
    refine Tree.mem_nodesFrom_of_childOf hn ⟨rfl, ?_⟩
    rw [Tree.numberedChildren, hchildren]
    exact List.mem_cons_self
  have hkind : isNameKind name.kind = true := by
    rw [hname]
    rfl
  obtain ⟨t, ht, hs⟩ :=
    exists_of_mem_forall₂ (forall₂_nameNodes h) (List.mem_filter.2 ⟨hchild, hkind⟩)
  have hstop : name.region.stop = t.stop :=
    hs.stop_eq.resolve_right fun hb => absurd (hname.symm.trans hb.1) (by decide)
  have hoffset : name.region.offset = t.start := hs.offset_eq
  refine ⟨name, t.text, htarget, hs.text_eq, ?_⟩
  rw [Region.slice?, hoffset, hstop]
  exact slice?_lex source t (List.mem_filter.1 ht).1

private theorem declares_of_plain (h : lower (parse source) level = .ok ast) (hn : n ∈ ast.nodes)
    (ha : n.tree.kind = Kind.assignment) (he : e.plain = declaration n.id n.tree) :
    Declares source n e := by
  obtain ⟨target, text, htarget, htext, hslice⟩ := exists_target h hn ha
  have hname : e.name = .simple text := by
    refine (congrArg Element.name he).trans ?_
    rw [declaration, htarget, Option.bind_some, htext, Option.getD_some]
  have hrange : e.nameRange? = some target.region := by
    refine (congrArg Element.nameRange? he).trans ?_
    rw [declaration, htarget, Option.map_some]
  exact ⟨congrArg Element.parent? he, congrArg Element.range he, congrArg Element.node? he,
    target, text, htarget, htext, hname, hrange, hslice⟩

private theorem liesIn_of_mem (h : lower (parse source) level = .ok ast) (hs : s ∈ statementsOf ast)
    (hn : n ∈ templatesIn s) (hstands : StandsFor (lex source).tokens t n.tree.data) :
    t.LiesIn s.2.region := by
  obtain ⟨hlt, hl⟩ := lowered_of_lower h
  have hnested := ((Tree.nested_iff ast.root).1 hl.nested).mem (Tree.mem_of_mem_numbered hs)
  obtain ⟨hlo, hhi⟩ := (ordered_nodesFrom hnested.2.2 s.1 [0]).1 n (List.mem_filter.1 hn).1
  have hoffset : n.tree.region.offset = t.start := hstands.offset_eq
  have hstop : t.stop ≤ n.tree.region.stop := hstands.stop_le (tiles_lex source)
  exact ⟨by omega, by omega⟩

private theorem eq_of_liesIn (h : lower (parse source) level = .ok ast) (hs : s ∈ statementsOf ast)
    (hs' : s' ∈ statementsOf ast) (ht : t ∈ (lex source).tokens) (hlies : t.LiesIn s.2.region)
    (hlies' : t.LiesIn s'.2.region) : s = s' := by
  obtain ⟨hlt, hl⟩ := lowered_of_lower h
  have hnested := (Tree.nested_iff ast.root).1 hl.nested
  have hpos := ((tiles_lex source).mem ht).2.1
  obtain ⟨hlo, hhi⟩ := hlies
  obtain ⟨hlo', hhi'⟩ := hlies'
  rcases Nat.lt_trichotomy s.1 s'.1 with hid | hid | hid
  · have hle := hnested.stop_le_offset hs hs' hid
    omega
  · have heq := Ast.eq_of_id_eq (mem_nodes_of_mem hs) (mem_nodes_of_mem hs') hid
    exact Prod.ext hid (congrArg Ast.Node.tree heq)
  · have hle := hnested.stop_le_offset hs' hs hid
    omega

private theorem get?_of_plains {i : Nat} {d : Element} (h : o.plains[i]? = some d) :
    ∃ d', o.get? i = some d' ∧ d'.plain = d := by
  rw [Outline.plains, List.getElem?_map] at h
  exact Option.map_eq_some_iff.1 h

private theorem embeds_of_below (h : lower (parse source) level = .ok ast)
    (ht : t ∈ (lex source).tokens) (hstands : StandsFor (lex source).tokens t n.tree.data)
    (hbelow : Below o.plains (statementsOf ast) n e.plain) : Embeds source ast o t e := by
  obtain ⟨s, hs, hn, i, he, hparent⟩ := hbelow
  have hlies := liesIn_of_mem h hs hn hstands
  have hi : e.parent? = some i := congrArg Element.parent? he
  refine ⟨congrArg Element.name he, congrArg Element.nameRange? he, ?_, ?_, ?_⟩
  · have hmem := List.mem_flatMap.2 ⟨s, hs, hn⟩
    rw [← filter_templates h] at hmem
    exact ⟨n, (List.mem_filter.1 hmem).1, congrArg Element.node? he, congrArg Element.range he,
      hstands⟩
  · intro a ha hassign hlies'
    obtain ⟨s', hs', rfl⟩ := exists_of_assignment h ha hassign
    obtain rfl := eq_of_liesIn h hs hs' ht hlies hlies'
    rw [if_pos hassign] at hparent
    obtain ⟨d, hd, hplain⟩ := get?_of_plains hparent
    exact ⟨i, d, hi, hd, congrArg Element.type hplain, congrArg Element.node? hplain⟩
  · intro hnone
    have hne : s.2.kind ≠ Kind.assignment :=
      fun hassign => hnone _ (mem_nodes_of_mem hs) hassign hlies
    rw [if_neg hne] at hparent
    rw [hi, hparent]

variable {unit : String} {range : Region}

private theorem unit_of_plains {size : Nat} {es : List Element}
    (hrange : Region.make? 0 size = .ok range) (hplains : o.plains = unitElement unit range :: es)
    (hes : ∀ d ∈ es, d.type = .declaration ∨ d.type = .embeddedPart) :
    ∃ e es, o.elements = e :: es ∧ e.type = .sourceUnit ∧ e.name = .simple unit ∧
      e.parent? = none ∧ e.range.offset = 0 ∧ e.range.stop = size ∧
        ∀ d ∈ es, d.type = .declaration ∨ d.type = .embeddedPart := by
  obtain ⟨e, es', helements, he, rfl⟩ := List.map_eq_cons_iff.1 hplains
  obtain ⟨hoffset, hlength⟩ := Region.make?_eq_ok_iff.1 hrange
  have herange : e.range = range := congrArg Element.range he
  have hstop : range.stop = size := by
    rw [Region.stop, hoffset, hlength, Nat.zero_add]
  exact ⟨e, es', helements, congrArg Element.type he, congrArg Element.name he,
    congrArg Element.parent? he, herange ▸ hoffset, herange ▸ hstop,
    fun d hd => hes d.plain (List.mem_map_of_mem hd)⟩

private theorem declarations_of_plains (h : lower (parse source) level = .ok ast)
    (hplains : o.plains = unitElement unit range :: elementsFrom 1 (statementsOf ast)) :
    List.Forall₂ (Declares source) (ast.nodes.filter (·.tree.kind = Kind.assignment))
      (o.elements.filter (·.type = .declaration)) := by
  have hfilter : (o.elements.filter (·.type = .declaration)).map Element.plain =
      ((statementsOf ast).filter (·.2.kind = Kind.assignment)).map fun s =>
        declaration s.1 s.2 := by
    rw [← Outline.filter_type_plains, hplains, ← filter_declaration 1]
    rfl
  have hplain : List.Forall₂ (fun n e => Element.plain e = declaration n.id n.tree)
      (ast.nodes.filter (·.tree.kind = Kind.assignment))
      (o.elements.filter (·.type = .declaration)) := by
    rw [← List.forall₂_map_right_iff (f := Element.plain) (R := fun (n : Ast.Node) d =>
      d = declaration n.id n.tree), hfilter, filter_assignments h, List.forall₂_map_left_iff,
      List.forall₂_map_right_iff, List.forall₂_same]
    exact fun _ _ => rfl
  refine ((List.forall₂_and_left _ _).2 ⟨fun n hn => List.mem_filter.1 hn, hplain⟩).imp ?_
  rintro n e ⟨⟨hn, ha⟩, he⟩
  exact declares_of_plain h hn (of_decide_eq_true ha) he

private theorem embedded_of_plains (h : lower (parse source) level = .ok ast)
    (hplains : o.plains = unitElement unit range :: elementsFrom 1 (statementsOf ast)) :
    List.Forall₂ (Embeds source ast o) ((lex source).tokens.filter (·.kind = .template))
      (o.elements.filter (·.type = .embeddedPart)) := by
  have hfilter : (o.elements.filter (·.type = .embeddedPart)).map Element.plain =
      (elementsFrom 1 (statementsOf ast)).filter (·.type = .embeddedPart) := by
    rw [← Outline.filter_type_plains, hplains]
    rfl
  have hbelow := below_elementsFrom [unitElement unit range] (statementsOf ast)
  change List.Forall₂ (Below (unitElement unit range :: elementsFrom 1 (statementsOf ast)) _) _
    ((elementsFrom 1 (statementsOf ast)).filter (·.type = .embeddedPart)) at hbelow
  rw [← hplains, ← hfilter, List.forall₂_map_right_iff, ← filter_templates h] at hbelow
  have hboth := forall₂_trans (forall₂_templateNodes h) hbelow
  refine ((List.forall₂_and_left _ _).2 ⟨fun t ht => (List.mem_filter.1 ht).1, hboth⟩).imp ?_
  rintro t e ⟨ht, n, hstands, hn⟩
  exact embeds_of_below h ht hstands hn

/-- Whatever outline a syntax tree has, it shows the tree. -/
theorem shows_of_lower (h : lower (parse source) level = .ok ast)
    (ho : outline unit (Text.size source) ast = .ok o) : Shows source unit ast o := by
  obtain ⟨range, hrange, hplains⟩ := plains_outline (isStatement_of_lower h) ho
  change o.plains = unitElement unit range :: elementsFrom 1 (statementsOf ast) at hplains
  obtain ⟨hlt, hl⟩ := lowered_of_lower h
  have hmem : ∀ e ∈ elementsFrom 1 (statementsOf ast),
      e.parent? ≠ none ∧ (e.type = .declaration ∨ e.type = .embeddedPart) :=
    fun e he => of_mem_elementsFrom he
  have hrooted : Rooted o.plains := by
    rw [hplains]
    have hunit : Rooted [unitElement unit range] := by
      intro i j e he hp
      obtain rfl := List.mem_singleton.1 (List.mem_of_getElem? he)
      cases hp
    exact rooted_elementsFrom hunit Nat.one_pos _
  have hapart : o.plains.Pairwise Element.Apart := by
    rw [hplains]
    refine List.pairwise_cons.2 ⟨fun e he hp => absurd hp.symm (hmem e he).1, ?_⟩
    exact (apart_elementsFrom ((Tree.nested_iff ast.root).1 hl.nested) (spread_of_lower h)
      Nat.one_pos).2
  exact
    { unit := unit_of_plains hrange hplains fun d hd => (hmem d hd).2
      declarations := declarations_of_plains h hplains
      embedded := embedded_of_plains h hplains
      mem_childrenOf_iff := fun _ _ => Outline.mem_childrenOf_iff hrooted
      childrenOf_apart := Outline.pairwise_childrenOf hapart }

end Outlines

/-- Every text that has a syntax tree has an outline, which shows each assignment and each template
once, whatever faults there are. The lowering gives a tree for every text within the limits for
sizes. -/
theorem shows_outline (source unit : String) (level : AstLevel) :
    (Text.size source < halfWordLimit → (parse source).tree.nodeCount ≤ TreeBuilder.maxNodes →
      ∃ ast, lower (parse source) level = .ok ast) ∧
      ∀ ast, lower (parse source) level = .ok ast →
        ∃ o, outline unit (Text.size source) ast = .ok o ∧ Shows source unit ast o := by
  refine ⟨fun hsize hcount => exists_lower hsize hcount level, fun ast h => ?_⟩
  obtain ⟨hlt, hl⟩ := lowered_of_lower h
  obtain ⟨o, ho, -⟩ := exists_outline unit (make?_of_lower h) hl.nested (size_le_of_lower h)
  exact ⟨o, ho, shows_of_lower h ho⟩

/-- A template in an assignment, one that stands by itself, and one in an expression that lacks its
end. -/
theorem shows_outline_unclosed :
    ∃ ast o, lower (parse "x = 1 + {% a %}; {% b %} ({% c %} * ;") .full = .ok ast ∧
      outline "unit" (Text.size "x = 1 + {% a %}; {% b %} ({% c %} * ;") ast = .ok o ∧
        Shows "x = 1 + {% a %}; {% b %} ({% c %} * ;" "unit" ast o := by
  obtain ⟨hexists, hshows⟩ := shows_outline "x = 1 + {% a %}; {% b %} ({% c %} * ;" "unit" .full
  obtain ⟨ast, hl⟩ := hexists (by decide) (Nat.le_trans (nodeCount_parse_le _) (by decide))
  obtain ⟨o, ho, hs⟩ := hshows ast hl
  exact ⟨ast, o, hl, ho, hs⟩

end SourceModel.Calc
