import SourceModel.Proofs.Calc.Outline
import SourceModel.Proofs.Calc.Statements
import SourceModel.Proofs.Outline.Elements
import SourceModel.Proofs.Tree.Arranged

/-!
# Elements of the statements

The elements of an outline, from the statements of the syntax tree: behind the element of the unit
an assignment has a declaration with its templates below it, and every other statement has its
templates right below the unit.
-/

namespace SourceModel.Calc

open OutlineBuilder (root)
open SourceModel.Outline (Rooted)
open SourceModel.Tree (NestedIn numbered)

def isTemplateKind (kind : SyntaxKind) : Bool :=
  kind = Kind.templateBlock ∨ kind = Kind.templateExpr

/-- The templates in a statement, which is given with its number. -/
def templatesIn (s : Nat × Tree) : List Ast.Node :=
  (s.2.nodesFrom s.1 [0]).filter (isTemplateKind ·.tree.kind)

/-- The elements for a statement, where the first one gets the number `next`. -/
def elementsOf (next : Nat) (s : Nat × Tree) : List Element :=
  if s.2.kind = Kind.assignment then
    declaration s.1 s.2 :: (templatesIn s).map (templateElement next)
  else (templatesIn s).map (templateElement root)

def elementsFrom (next : Nat) : List (Nat × Tree) → List Element
  | [] => []
  | s :: ss => elementsOf next s ++ elementsFrom (next + (elementsOf next s).length) ss

def unitElement (unit : String) (range : Region) : Element where
  type := .sourceUnit
  name := .simple unit
  id := ""
  range := range

section Statements

variable {s : Nat × Tree}

private theorem IsStatement.nodes_eq (hs : IsStatement s.2) :
    ∃ ns, s.2.nodesFrom s.1 [0] = ⟨s.1, s.2, [0]⟩ :: ns ∧
      (∀ n ∈ ns, isStatementKind n.tree.kind = false) ∧
        (s.2.kind = Kind.templateBlock → ns = []) := by
  obtain ⟨id, data, children, foreign⟩ := s
  refine ⟨Tree.nodesAmong (id + 1) [id, 0] children, rfl, fun n hn => ?_, fun hb => ?_⟩
  · have hmem := List.mem_map_of_mem (f := Ast.Node.tree) hn
    rw [Tree.map_tree_nodesAmong] at hmem
    exact hs.inner n.tree hmem
  · have hnil : children = [] := hs.block hb
    rw [hnil]
    rfl

theorem templatesIn_eq (hs : IsStatement s.2) (hb : s.2.kind ≠ Kind.templateBlock) :
    templatesIn s = (s.2.nodesFrom s.1 [0]).filter (·.tree.kind = Kind.templateExpr) := by
  obtain ⟨ns, heq, hns, -⟩ := hs.nodes_eq
  refine List.filter_congr fun n hn => decide_eq_decide.2 (or_iff_right ?_)
  rw [heq] at hn
  rcases List.mem_cons.1 hn with rfl | hn
  · exact hb
  · exact (not_or.1 (of_decide_eq_false (hns n hn))).2

theorem templatesIn_block (hs : IsStatement s.2) (hb : s.2.kind = Kind.templateBlock) :
    templatesIn s = [⟨s.1, s.2, [0]⟩] := by
  obtain ⟨ns, heq, -, hnil⟩ := hs.nodes_eq
  rw [templatesIn, heq, hnil hb, List.filter_singleton, isTemplateKind, hb]
  rfl

theorem filter_assignment_nodesFrom (hs : IsStatement s.2) :
    (s.2.nodesFrom s.1 [0]).filter (·.tree.kind = Kind.assignment) =
      if s.2.kind = Kind.assignment then [⟨s.1, s.2, [0]⟩] else [] := by
  obtain ⟨ns, heq, hns, -⟩ := hs.nodes_eq
  have hnil : ns.filter (·.tree.kind = Kind.assignment) = [] := by
    refine List.filter_eq_nil_iff.2 fun n hn hk => ?_
    exact (not_or.1 (of_decide_eq_false (hns n hn))).1 (of_decide_eq_true hk)
  rw [heq, List.filter_cons, hnil]
  simp only [decide_eq_true_eq]

end Statements

/-! ## Additions -/

section Additions

variable {b b' : OutlineBuilder} {parent : Nat} {s : Nat × Tree} {ss : List (Nat × Tree)}

private theorem plains_outlineTemplate {n : Ast.Node} (h : outlineTemplate b parent n = .ok b') :
    b'.outline.plains = b.outline.plains ++ [templateElement parent n] := by
  obtain ⟨⟨k, b''⟩, hadd, hb⟩ := TreeBuilder.bind_eq_ok h
  cases hb
  exact (OutlineBuilder.add_ok hadd).2

private theorem plains_foldlM {ns : List Ast.Node}
    (h : ns.foldlM (fun b n => outlineTemplate b parent n) b = .ok b') :
    b'.outline.plains = b.outline.plains ++ ns.map (templateElement parent) := by
  induction ns generalizing b with
  | nil =>
    cases h
    rw [List.map_nil, List.append_nil]
  | cons n ns ih =>
    rw [List.foldlM_cons] at h
    obtain ⟨b'', hn, hns⟩ := TreeBuilder.bind_eq_ok h
    rw [ih hns, plains_outlineTemplate hn, List.map_cons, List.append_assoc, List.singleton_append]

private theorem plains_outlineStatement (hs : IsStatement s.2)
    (h : outlineStatement b s.1 s.2 = .ok b') :
    b'.outline.plains = b.outline.plains ++ elementsOf b.outline.size s := by
  unfold outlineStatement at h
  unfold elementsOf
  split at h
  · rename_i ha
    have hb : s.2.kind ≠ Kind.templateBlock := by
      rw [ha]
      decide
    obtain ⟨⟨k, b''⟩, hadd, htemplates⟩ := TreeBuilder.bind_eq_ok h
    obtain ⟨rfl, hplains⟩ := OutlineBuilder.add_ok hadd
    rw [if_pos ha, plains_foldlM htemplates, hplains, ← templatesIn_eq hs hb, List.append_assoc]
    rfl
  · rename_i ha
    rw [if_neg ha]
    split at h
    · rename_i hb
      rw [templatesIn_block hs hb]
      exact plains_outlineTemplate h
    · rename_i hb
      rw [plains_foldlM h, templatesIn_eq hs hb]

private theorem plains_statements (hss : ∀ s ∈ ss, IsStatement s.2)
    (h : ss.foldlM (fun b (id, t) => outlineStatement b id t) b = .ok b') :
    b'.outline.plains = b.outline.plains ++ elementsFrom b.outline.size ss := by
  induction ss generalizing b with
  | nil =>
    cases h
    rw [elementsFrom, List.append_nil]
  | cons s ss ih =>
    obtain ⟨hs, hss⟩ := List.forall_mem_cons.1 hss
    rw [List.foldlM_cons] at h
    obtain ⟨b'', hb, hrest⟩ := TreeBuilder.bind_eq_ok h
    have hplains := plains_outlineStatement hs hb
    have hsize : b''.outline.size = b.outline.size + (elementsOf b.outline.size s).length := by
      rw [← Outline.length_plains, hplains, List.length_append, Outline.length_plains]
    rw [ih hss hrest, hplains, hsize, elementsFrom, List.append_assoc]

theorem plains_outline {unit : String} {size : Nat} {ast : Ast} {o : Outline}
    (hss : ∀ t ∈ ast.root.children, IsStatement t) (h : outline unit size ast = .ok o) :
    ∃ range, Region.make? 0 size = .ok range ∧
      o.plains = unitElement unit range :: elementsFrom 1 (ast.root.numberedChildren 0) := by
  obtain ⟨range, hrange, h⟩ := TreeBuilder.bind_eq_ok h
  obtain ⟨b, hb, hfinish⟩ := TreeBuilder.bind_eq_ok h
  cases hfinish
  refine ⟨range, hrange, ?_⟩
  have hstatements : ∀ s ∈ ast.root.numberedChildren 0, IsStatement s.2 :=
    fun s hs => hss s.2 (Tree.mem_of_mem_numbered hs)
  rw [OutlineBuilder.finish, plains_statements hstatements hb, OutlineBuilder.plains_start,
    OutlineBuilder.size_start]
  rfl

end Additions

/-! ## Declarations and templates among the elements -/

section Elements

variable {next : Nat} {s : Nat × Tree} {ss : List (Nat × Tree)} {es : List Element}

private theorem filter_templateElement (parent : Nat) (ns : List Ast.Node) :
    (ns.map (templateElement parent)).filter (·.type = .declaration) = [] ∧
      (ns.map (templateElement parent)).filter (·.type = .embeddedPart) =
        ns.map (templateElement parent) := by
  constructor
  · refine List.filter_eq_nil_iff.2 fun e he => ?_
    obtain ⟨n, -, rfl⟩ := List.mem_map.1 he
    exact (by decide : ¬ decide (ElementType.embeddedPart = .declaration) = true)
  · refine List.filter_eq_self.2 fun e he => ?_
    obtain ⟨n, -, rfl⟩ := List.mem_map.1 he
    rfl

theorem filter_declaration (next : Nat) (ss : List (Nat × Tree)) :
    (elementsFrom next ss).filter (·.type = .declaration) =
      (ss.filter (·.2.kind = Kind.assignment)).map fun s => declaration s.1 s.2 := by
  induction ss generalizing next with
  | nil => rfl
  | cons s ss ih =>
    rw [elementsFrom, List.filter_append, ih, elementsOf]
    by_cases ha : s.2.kind = Kind.assignment
    · have hmap := List.filter_cons_of_pos (p := fun s : Nat × Tree => s.2.kind = Kind.assignment)
        (l := ss) (decide_eq_true ha)
      rw [if_pos ha, List.filter_cons_of_pos (by rfl), (filter_templateElement _ _).1, hmap]
      rfl
    · rw [if_neg ha, (filter_templateElement _ _).1,
        List.filter_cons_of_neg (by rwa [decide_eq_true_eq])]
      rfl

/-- Among elements `es` there is one for a template in one of the statements, below the declaration
if the statement is an assignment. -/
def Below (es : List Element) (ss : List (Nat × Tree)) (n : Ast.Node) (e : Element) : Prop :=
  ∃ s ∈ ss, n ∈ templatesIn s ∧ ∃ i, e = templateElement i n ∧
    if s.2.kind = Kind.assignment then es[i]? = some (declaration s.1 s.2) else i = root

theorem below_elementsFrom (front : List Element) (ss : List (Nat × Tree)) :
    List.Forall₂ (Below (front ++ elementsFrom front.length ss) ss) (ss.flatMap templatesIn)
      ((elementsFrom front.length ss).filter (·.type = .embeddedPart)) := by
  induction ss generalizing front with
  | nil => exact .nil
  | cons s ss ih =>
    have hlater := ih (front ++ elementsOf front.length s)
    rw [List.length_append, List.append_assoc] at hlater
    rw [elementsFrom, List.filter_append, List.flatMap_cons]
    refine List.rel_append ?_ (hlater.imp fun n e ⟨s', hs', hn⟩ => ⟨s', .tail _ hs', hn⟩)
    have hfilter : (elementsOf front.length s).filter (·.type = .embeddedPart) =
        (templatesIn s).map (templateElement
          (if s.2.kind = Kind.assignment then front.length else root)) := by
      unfold elementsOf
      split
      · exact (filter_templateElement _ _).2
      · exact (filter_templateElement _ _).2
    rw [hfilter, List.forall₂_map_right_iff, List.forall₂_same]
    refine fun n hn => ⟨s, .head _, hn, _, rfl, ?_⟩
    by_cases ha : s.2.kind = Kind.assignment
    · rw [if_pos ha, if_pos ha, List.getElem?_append_right (Nat.le_refl _), Nat.sub_self,
        elementsOf, if_pos ha]
      rfl
    · rw [if_neg ha, if_neg ha]

theorem mem_elementsOf {e : Element} (h : e ∈ elementsOf next s) :
    e = declaration s.1 s.2 ∨ ∃ parent, ∃ n ∈ templatesIn s, e = templateElement parent n := by
  have htemplate : ∀ {parent}, e ∈ (templatesIn s).map (templateElement parent) →
      ∃ parent, ∃ n ∈ templatesIn s, e = templateElement parent n := by
    intro parent he
    obtain ⟨n, hn, rfl⟩ := List.mem_map.1 he
    exact ⟨parent, n, hn, rfl⟩
  unfold elementsOf at h
  split at h
  · exact (List.mem_cons.1 h).imp_right htemplate
  · exact .inr (htemplate h)

theorem exists_of_mem_elementsFrom {e : Element} (h : e ∈ elementsFrom next ss) :
    ∃ s ∈ ss, ∃ next, e ∈ elementsOf next s := by
  induction ss generalizing next with
  | nil => cases h
  | cons s ss ih =>
    rcases List.mem_append.1 h with h | h
    · exact ⟨s, .head _, next, h⟩
    · obtain ⟨s', hs', he⟩ := ih h
      exact ⟨s', .tail _ hs', he⟩

theorem of_mem_elementsFrom {e : Element} (h : e ∈ elementsFrom next ss) :
    e.parent? ≠ none ∧ (e.type = .declaration ∨ e.type = .embeddedPart) := by
  obtain ⟨s, -, next, he⟩ := exists_of_mem_elementsFrom h
  rcases mem_elementsOf he with rfl | ⟨parent, n, -, rfl⟩
  · exact ⟨Option.some_ne_none root, .inl rfl⟩
  · exact ⟨Option.some_ne_none parent, .inr rfl⟩

end Elements

/-! ## Order of the elements -/

section Order

variable {next : Nat} {front : List Element} {e : Element} {s : Nat × Tree}
  {ss : List (Nat × Tree)}

private theorem rooted_elementsOf (h : Rooted front) (hpos : 0 < front.length) (s : Nat × Tree) :
    Rooted (front ++ elementsOf front.length s) := by
  have htemplate : ∀ {parent j : Nat} {ns : List Ast.Node} {e : Element},
      (ns.map (templateElement parent))[j]? = some e → e.parent? = some parent := by
    intro parent j ns e he
    rw [List.getElem?_map] at he
    obtain ⟨n, -, rfl⟩ := Option.map_eq_some_iff.1 he
    rfl
  refine Outline.rooted_append h fun i j e he hp => ?_
  unfold elementsOf at he
  split at he
  · cases j with
    | zero =>
      cases he
      cases hp
      exact hpos
    | succ j =>
      rw [List.getElem?_cons_succ] at he
      cases (htemplate he).symm.trans hp
      omega
  · cases (htemplate he).symm.trans hp
    exact Nat.lt_of_lt_of_le hpos (Nat.le_add_right _ _)

theorem rooted_elementsFrom (h : Rooted front) (hpos : 0 < front.length)
    (ss : List (Nat × Tree)) : Rooted (front ++ elementsFrom front.length ss) := by
  induction ss generalizing front with
  | nil =>
    rw [elementsFrom, List.append_nil]
    exact h
  | cons s ss ih =>
    have hs := ih (rooted_elementsOf h hpos s) (by rw [List.length_append]; omega)
    rwa [List.length_append, List.append_assoc] at hs

private theorem within_elementsOf (hs : s.2.Nested) (he : e ∈ elementsOf next s) :
    s.2.region.offset ≤ e.range.offset ∧ e.range.stop ≤ s.2.region.stop := by
  rcases mem_elementsOf he with rfl | ⟨parent, n, hn, rfl⟩
  · exact ⟨Nat.le_refl _, Nat.le_refl _⟩
  · exact (ordered_nodesFrom hs s.1 [0]).1 n (List.mem_filter.1 hn).1

def Spread (s : Nat × Tree) : Prop :=
  (templatesIn s).Pairwise fun m n => m.tree.region.stop ≤ n.tree.region.offset

private theorem apart_elementsOf (hs : Spread s) (hnext : 0 < next) :
    (elementsOf next s).Pairwise Element.Apart := by
  have htemplates : ∀ parent : Nat,
      ((templatesIn s).map (templateElement parent)).Pairwise Element.Apart := by
    intro parent
    rw [List.pairwise_map]
    refine List.Pairwise.imp ?_ hs
    intro m n hle _
    exact hle
  unfold elementsOf
  split
  · refine List.pairwise_cons.2 ⟨fun e he hp => ?_, htemplates next⟩
    obtain ⟨n, -, rfl⟩ := List.mem_map.1 he
    exact absurd (Option.some.inj hp) (Nat.ne_of_lt hnext)
  · exact htemplates root

theorem apart_elementsFrom {lo hi id : Nat} {ts : List Tree} (hts : NestedIn lo hi ts)
    (hs : ∀ s ∈ numbered id ts, Spread s) (hnext : 0 < next) :
    (∀ e ∈ elementsFrom next (numbered id ts), lo ≤ e.range.offset) ∧
      (elementsFrom next (numbered id ts)).Pairwise Element.Apart := by
  induction ts generalizing lo id next with
  | nil => exact ⟨List.forall_mem_nil _, .nil⟩
  | cons t ts ih =>
    obtain ⟨hlo, ht, hrest⟩ := hts
    obtain ⟨hspread, hspreads⟩ := List.forall_mem_cons.1 hs
    have hstop := t.region.offset_le_stop
    obtain ⟨hlater, hapart⟩ := ih hrest hspreads
      (Nat.lt_of_lt_of_le hnext (Nat.le_add_right next (elementsOf next (id, t)).length))
    rw [numbered, elementsFrom]
    constructor
    · refine List.forall_mem_append.2 ⟨fun e he => ?_, fun e he => ?_⟩
      · exact Nat.le_trans hlo (within_elementsOf (s := (id, t)) ht he).1
      · exact Nat.le_trans (Nat.le_trans hlo hstop) (hlater e he)
    · refine List.pairwise_append.2 ⟨apart_elementsOf hspread hnext, hapart, ?_⟩
      intro d hd e he _
      exact Nat.le_trans (within_elementsOf (s := (id, t)) ht hd).2 (hlater e he)

end Order

end SourceModel.Calc
