import SourceModel.Proofs.Tree.Embedding
import SourceModel.Proofs.Tree.Runs

/-!
# Assembled trees

A front end builds a syntax tree without foreign trees. Then foreign trees are attached to its
nodes, each of which may have come about in the same way, and some of them are refused. Whatever is
attached, everything down from the root lies inside everything on the way, and every node carries
the tree that was attached to it last, which has the language that the node asks for.
-/

namespace SourceModel

open SourceModel.Tree (Reaches foreignsAmong)

/-! ## Trees fresh from a builder -/

def OpenNode.foreigns (node : OpenNode) : List (Option Tree) := foreignsAmong node.children

namespace TreeBuilder

/-- Whether no node so far carries a foreign tree. -/
structure Unattached (b : TreeBuilder) : Prop where
  openNodes : ∀ foreigns ∈ b.openNodes.map OpenNode.foreigns, ∀ foreign ∈ foreigns, foreign = none
  root? : ∀ t ∈ b.root?, ∀ foreign ∈ t.foreigns, foreign = none

section Unattached

variable {b b' : TreeBuilder} {t : Tree}

private theorem unattached_new (language : String) : (new language).Unattached :=
  ⟨fun _ h => (nomatch h), fun _ h => (nomatch h)⟩

private theorem Unattached.add (h : b.Unattached) (ht : ∀ foreign ∈ t.foreigns, foreign = none) :
    (b.add t).Unattached := by
  obtain ⟨language, openNodes, root?⟩ := b
  cases openNodes with
  | nil =>
    refine ⟨h.openNodes, ?_⟩
    intro u hu
    cases hu
    exact ht
  | cons parent outer =>
    refine ⟨?_, h.root?⟩
    have hparent := h.openNodes parent.foreigns List.mem_cons_self
    intro foreigns hf
    rcases List.mem_cons.1 hf with rfl | hf
    · intro foreign hmem
      rw [OpenNode.foreigns, Tree.foreignsAmong_append, List.mem_append] at hmem
      rcases hmem with hmem | hmem
      · exact hparent foreign hmem
      · exact ht foreign (by simpa using hmem)
    · exact h.openNodes foreigns (List.mem_cons_of_mem _ hf)

private theorem Unattached.addLeaf {data : NodeData} {id : Nat} (h : b.Unattached)
    (hok : b.addLeaf data = .ok (id, b')) : b'.Unattached := by
  obtain ⟨-, -, rfl⟩ := addLeaf_eq_ok hok
  apply h.add
  simp [Tree.leaf]

private theorem map_foreigns_modifyOpen (above f : NodeData → NodeData) (id : Nat)
    (nodes : List OpenNode) :
    (modifyOpen above f id nodes).map OpenNode.foreigns = nodes.map OpenNode.foreigns := by
  induction nodes with
  | nil => rfl
  | cons node outer ih =>
    rw [modifyOpen]
    split
    · rw [List.map_cons, List.map_cons, ih]
    · split
      · rfl
      · simp only [List.map_cons, OpenNode.foreigns, Tree.foreignsAmong_modifyData]

private theorem Unattached.modifyData {above f : NodeData → NodeData} {id : Nat} (h : b.Unattached)
    (hok : b.modifyData above f id = .ok b') : b'.Unattached := by
  unfold TreeBuilder.modifyData at hok
  split at hok
  · cases hok
    constructor
    · rw [map_foreigns_modifyOpen]
      exact h.openNodes
    · intro t ht
      obtain ⟨u, hu, rfl⟩ := Option.map_eq_some_iff.1 ht
      rw [Tree.foreigns_modifyData]
      exact h.root? u hu
  · cases hok

private theorem Unattached.call (h : b.Unattached) (c : BuildCall) : (b.call c).2.Unattached := by
  cases c with
  | start kind offset =>
    simp only [TreeBuilder.call]
    cases hr : b.startNode kind offset with
    | error fault => exact h
    | ok answer =>
      obtain ⟨-, -, region, -, hb'⟩ := startNode_eq_ok hr
      simp only [adding, hb']
      refine ⟨?_, h.root?⟩
      intro foreigns hf
      rcases List.mem_cons.1 hf with rfl | hf
      · exact List.forall_mem_nil _
      · exact h.openNodes foreigns hf
  | finish stop =>
    simp only [TreeBuilder.call, finishNode]
    obtain ⟨language, openNodes, root?⟩ := b
    cases openNodes with
    | nil => exact h
    | cons node outer =>
      have houter : Unattached ⟨language, outer, root?⟩ :=
        ⟨fun foreigns hf => h.openNodes foreigns (List.mem_cons_of_mem _ hf), h.root?⟩
      apply houter.add
      intro foreign hf
      rw [Tree.foreigns_node] at hf
      rcases List.mem_cons.1 hf with rfl | hf
      · rfl
      · exact h.openNodes node.foreigns List.mem_cons_self foreign hf
  | leaf kind region =>
    simp only [TreeBuilder.call, leaf]
    cases hr : b.addLeaf { kind, region } with
    | error fault => exact h
    | ok answer => exact h.addLeaf hr
  | textLeaf kind region text =>
    simp only [TreeBuilder.call, textLeaf]
    cases hr : b.addLeaf { kind, region, text := some text } with
    | error fault => exact h
    | ok answer => exact h.addLeaf hr
  | setText id text =>
    simp only [TreeBuilder.call]
    cases hr : b.setText id text with
    | error fault => exact h
    | ok b' => exact h.modifyData hr
  | setStatus id status =>
    simp only [TreeBuilder.call]
    cases hr : b.setStatus id status with
    | error fault => exact h
    | ok b' => exact h.modifyData hr
  | markEmbedding id language flags =>
    simp only [TreeBuilder.call]
    cases hr : b.markEmbedding id language flags with
    | error fault => exact h
    | ok b' => exact h.modifyData hr

private theorem Unattached.after (h : b.Unattached) (calls : List BuildCall) :
    (b.after calls).Unattached := by
  induction calls generalizing b with
  | nil => exact h
  | cons c calls ih => exact ih (h.call c)

/-- In a tree that comes out of a run in which every close is accepted, all lies inside. -/
theorem embeds_of_finish {language : String} {calls : List BuildCall} {ast : Ast}
    (h : (new language).closes calls = true)
    (hok : ((new language).after calls).finish = .ok ast) :
    ast.root.Embeds ∧ ∀ foreign ∈ ast.root.foreigns, foreign = none := by
  obtain ⟨-, hroot, -⟩ := finish_eq_ok_iff.1 hok
  have hnested := ((builds_new language).after h).nested ast.root hroot
  have hnone := ((unattached_new language).after calls).root? ast.root hroot
  exact ⟨Tree.embeds_of_nested hnested hnone, hnone⟩

end Unattached

end TreeBuilder

/-! ## Histories -/

/-- How a syntax tree comes about: from a run of the builder, or from another one when a foreign
tree is attached to one of its nodes. A foreign tree that is refused leaves it as it is. -/
inductive Assembly where
  | built (language : String) (calls : List BuildCall)
  | attach (host : Assembly) (id : Nat) (foreign : Assembly)

namespace Assembly

def closes : Assembly → Bool
  | built language calls => (TreeBuilder.new language).closes calls
  | attach host _ foreign => host.closes && foreign.closes

def ast? : Assembly → Option Ast
  | built language calls => ((TreeBuilder.new language).after calls).finish.toOption
  | attach host id foreign => do
    let host ← host.ast?
    let foreign ← foreign.ast?
    return (host.attachForeign id foreign).toOption.getD host

def accepts (host : Assembly) (id : Nat) (foreign : Assembly) : Bool :=
  match host.ast?, foreign.ast? with
  | some host, some foreign => (host.attachForeign id foreign).isOk
  | _, _ => false

/-- The foreign tree that was accepted last at a node. -/
def carried? : Assembly → Nat → Option Assembly
  | built .., _ => none
  | attach host id foreign, i =>
    if i = id ∧ host.accepts id foreign then some foreign else host.carried? i

/-- Some node of a tree carries another one, or a node of that one does, and so on. -/
def Holds : Assembly → Assembly → Prop :=
  Relation.ReflTransGen fun a b => ∃ id, a.carried? id = some b

variable {a b host foreign : Assembly} {ast : Ast} {id : Nat}

private theorem closes_of_carried (h : a.closes = true) (hb : a.carried? id = some b) :
    b.closes = true := by
  induction a with
  | built language calls => cases hb
  | attach host i foreign ihhost ihforeign =>
    rw [closes, Bool.and_eq_true] at h
    rw [carried?] at hb
    split at hb
    · cases hb
      exact h.2
    · exact ihhost h.1 hb

private theorem closes_of_holds (h : a.closes = true) (hb : a.Holds b) : b.closes = true := by
  induction hb with
  | refl => exact h
  | tail _ hcarried ih =>
    obtain ⟨id, hid⟩ := hcarried
    exact closes_of_carried ih hid

/-- What all histories lead to: everything lies inside, and what a node carries was attached to it
last. -/
structure Upholds (a : Assembly) (ast : Ast) : Prop where
  embeds : ast.root.Embeds
  carries : ∀ i t, ast.root.get? i = some t → t.Carries ((a.carried? i).bind ast?)

private theorem upholds_built {language : String} {calls : List BuildCall}
    (h : (TreeBuilder.new language).closes calls = true)
    (hok : ((TreeBuilder.new language).after calls).finish = .ok ast) :
    (built language calls).Upholds ast := by
  obtain ⟨hembeds, hnone⟩ := TreeBuilder.embeds_of_finish h hok
  refine ⟨hembeds, ?_⟩
  intro i t ht
  exact hnone t.foreign (List.mem_map_of_mem (Tree.mem_of_get? ht))

private theorem Upholds.accepted {foreignAst : Ast} (h : host.Upholds ast)
    (hf : foreignAst.root.Embeds) (hforeign : foreign.ast? = some foreignAst)
    (hfits : ast.Fits id foreignAst) (haccepts : host.accepts id foreign = true) :
    (attach host id foreign).Upholds (ast.putForeign id foreignAst) := by
  obtain ⟨t, flags, ht, he, hin⟩ := hfits
  refine ⟨h.embeds.carry ht hin hf, ?_⟩
  intro i v hv
  obtain ⟨u, hu, hdata, hcarry⟩ := Tree.get?_carry hv
  rw [carried?, haccepts]
  by_cases hi : i = id
  · subst hi
    rw [ht, Option.some.injEq] at hu
    rw [if_pos rfl] at hcarry
    rw [if_pos ⟨rfl, rfl⟩, Option.bind_some, hforeign]
    exact ⟨hcarry, flags, by rw [hdata, ← hu, he]⟩
  · rw [if_neg hi] at hcarry
    rw [if_neg fun hc => hi hc.1]
    exact (h.carries i u hu).congr hdata hcarry

private theorem Upholds.refused (h : host.Upholds ast)
    (hrefused : host.accepts id foreign = false) : (attach host id foreign).Upholds ast := by
  refine ⟨h.embeds, ?_⟩
  intro i t ht
  rw [carried?, hrefused, if_neg fun hc => Bool.false_ne_true hc.2]
  exact h.carries i t ht

private theorem upholds (h : a.closes = true) (hok : a.ast? = some ast) : a.Upholds ast := by
  induction a generalizing ast with
  | built language calls =>
    rw [ast?] at hok
    cases hr : ((TreeBuilder.new language).after calls).finish with
    | error fault =>
      rw [hr] at hok
      cases hok
    | ok tree =>
      rw [hr] at hok
      cases hok
      exact upholds_built h hr
  | attach host id foreign ihhost ihforeign =>
    rw [closes, Bool.and_eq_true] at h
    simp only [ast?, Option.bind_eq_bind, Option.bind_eq_some_iff] at hok
    obtain ⟨hostAst, hhost, foreignAst, hforeign, hok⟩ := hok
    have haccepts : host.accepts id foreign = (hostAst.attachForeign id foreignAst).isOk := by
      simp only [accepts, hhost, hforeign]
    rcases hostAst.attachForeign_cases id foreignAst with ⟨hfits, hattach⟩ | ⟨-, fault, hrefused⟩
    · rw [hattach] at hok haccepts
      cases hok
      exact (ihhost h.1 hhost).accepted (ihforeign h.2 hforeign).embeds hforeign hfits haccepts
    · rw [hrefused] at hok haccepts
      cases hok
      exact (ihhost h.1 hhost).refused haccepts

private theorem exists_part {t : Tree} (h : a.closes = true) (hok : a.ast? = some ast)
    (hr : Reaches ast.root t) :
    ∃ b part id, a.Holds b ∧ b.ast? = some part ∧ part.root.get? id = some t ∧
      t.Carries ((b.carried? id).bind ast?) := by
  induction hr with
  | refl =>
    have hroot := ast.root.get?_zero
    exact ⟨a, ast, 0, .refl, hok, hroot, (upholds h hok).carries 0 ast.root hroot⟩
  | @tail t u _ hl ih =>
    obtain ⟨b, part, id, hholds, hpart, ht, hcarries⟩ := ih
    have hb := closes_of_holds h hholds
    cases hl with
    | child hu =>
      have hmem := Tree.mem_preorder_trans (Tree.mem_of_get? ht) (Tree.mem_preorder_of_child hu)
      obtain ⟨i, hi⟩ := Tree.exists_get?_of_mem hmem
      exact ⟨b, part, i, hholds, hpart, hi, (upholds hb hpart).carries i u hi⟩
    | foreign hu =>
      cases hc : (b.carried? id).bind ast? with
      | none =>
        rw [hc, Tree.Carries, hu] at hcarries
        cases hcarries
      | some foreign =>
        rw [hc, Tree.Carries, hu, Option.some.injEq] at hcarries
        obtain ⟨c, hcarried, hforeign⟩ := Option.bind_eq_some_iff.1 hc
        have hroot : foreign.root.get? 0 = some u := hcarries.1 ▸ foreign.root.get?_zero
        exact ⟨c, foreign, 0, hholds.tail ⟨id, hcarried⟩, hforeign, hroot,
          (upholds (closes_of_carried hb hcarried) hforeign).carries 0 u hroot⟩

/-- In a tree to which foreign trees have been attached in any way, what one gets to down from a
node lies inside that node, and each node carries what was attached to it last, which has the
language that the node asks for, or nothing. One more foreign tree is refused just if it does not
fit, and then the tree is as before, also in place. If it is accepted, nothing changes but what this
node carries. -/
theorem inside_of_reaches (h : a.closes = true) (hok : a.ast? = some ast) :
    (∀ t u, Reaches ast.root t → Reaches t u → t.region.containsRegion u.region = true) ∧
      (∀ t, Reaches ast.root t → ∃ b part id, a.Holds b ∧ b.ast? = some part ∧
        part.root.get? id = some t ∧ t.Carries ((b.carried? id).bind ast?)) ∧
      (∀ id foreign, (∃ fault, ast.attachForeign id foreign = .error fault) ↔
        ¬ ast.Fits id foreign) ∧
      (∀ id foreign, (Ast.attachInPlace id foreign).run ast =
        match ast.attachForeign id foreign with
        | .ok ast' => .ok () ast'
        | .error fault => .error fault ast) ∧
      (∀ id foreign ast', ast.attachForeign id foreign = .ok ast' →
        ast.Attaches id foreign ast') := by
  have hembeds := (upholds h hok).embeds
  refine ⟨?_, fun t => exists_part h hok, fun _ _ => Ast.attachForeign_eq_error_iff,
    Ast.attachInPlace_run ast, fun _ _ _ => Ast.attaches_of_eq_ok⟩
  intro t u ht hu
  exact ((hembeds.of_reaches ht).2.of_reaches hu).1

/-- A run that builds a node from `start` to `stop`, below it one that asks for a tree of the
language `inner`, and nothing else. -/
def hostCalls (language inner : String) (start stop : Nat) : List BuildCall :=
  [.start ⟨language, 0, "Block"⟩ start, .start ⟨language, 1, "Part"⟩ (start + 1),
    .markEmbedding 1 inner .chunk, .finish (stop - 1), .finish stop]

/-- A tree in a tree in a tree. The innermost one takes the place of an earlier one, and a tree is
refused because it does not lie inside, and another one because its node asks for nothing. -/
def threefold : Assembly :=
  let outer := built "outer" (hostCalls "outer" "middle" 0 20)
  let middle := built "middle" (hostCalls "middle" "inner" 2 12)
  let inner := built "inner" (hostCalls "inner" "none" 4 8)
  let large := built "inner" (hostCalls "inner" "none" 4 18)
  let middle := (((middle.attach 1 large).attach 1 inner).attach 0 inner).attach 1 inner
  outer.attach 1 middle

theorem inside_of_reaches_threefold :
    threefold.closes = true ∧ ∃ ast, threefold.ast? = some ast ∧
      (∀ t u, Reaches ast.root t → Reaches t u → t.region.containsRegion u.region = true) ∧
      ∃ t, Reaches ast.root t ∧ t.kind.language = "inner" ∧ t.region.display = "[4, 8)" := by
  have hcloses : threefold.closes = true := by decide
  have hinside := inside_of_reaches hcloses rfl
  refine ⟨hcloses, _, rfl, hinside.1, ?_⟩
  have hchild : ∀ {t u v : Tree}, Reaches t u → u.children.head? = some v → Reaches t v :=
    fun h hv => h.tail (.child (List.mem_of_mem_head? hv))
  have hforeign : ∀ {t u v : Tree}, Reaches t u → u.foreign = some v → Reaches t v :=
    fun h hv => h.tail (.foreign hv)
  exact ⟨_, hforeign (hchild (hforeign (hchild .refl rfl) rfl) rfl) rfl, rfl, rfl⟩

end Assembly

end SourceModel
