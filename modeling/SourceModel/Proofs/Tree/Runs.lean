import SourceModel.Proofs.Tree.Arranged
import SourceModel.Proofs.Tree.Building
import SourceModel.Proofs.Tree.Sketch

/-!
# Runs of the builder

A front end calls the builder in any order, and some of its calls are refused. As long as every
close is accepted, each open node lies behind what is finished around it and the finished nodes are
nested, and the nodes are numbered in the order in which they were added. So a tree that comes out
of a run is arranged, and its nodes are those that the accepted calls have added, in that order and
each below the node that was the innermost open one. Here the links follow from where a node stands
in the tree; `TreeArena` is the builder that writes them down.
-/

namespace SourceModel

open SourceModel.Tree (NestedIn nodesAmong sketches)

inductive BuildCall where
  | start (kind : SyntaxKind) (offset : Nat)
  | finish (stop : Nat)
  | leaf (kind : SyntaxKind) (region : Region)
  | textLeaf (kind : SyntaxKind) (region : Region) (text : String)
  | setText (id : Nat) (text : String)
  | setStatus (id : Nat) (status : Status)
  | markEmbedding (id : Nat) (language : String) (flags : EmbeddingFlags)

def BuildCall.isFinish : BuildCall → Bool
  | finish _ => true
  | _ => false

/-- A node as a call has added it: its number, its kind, where it starts, and the number of the node
above it. -/
structure Addition where
  id : Nat
  kind : SyntaxKind
  offset : Nat
  parent? : Option Nat
deriving DecidableEq, Repr

def Ast.Node.addition (n : Ast.Node) : Addition where
  id := n.id
  kind := n.tree.kind
  offset := n.tree.region.offset
  parent? := n.parent?

namespace TreeBuilder

/-! ## Calls and their answers -/

def adding (b : TreeBuilder) :
    Except Fault (Nat × TreeBuilder) → Except Fault (Option Nat) × TreeBuilder
  | .ok (id, b') => (.ok (some id), b')
  | .error fault => (.error fault, b)

def changing (b : TreeBuilder) :
    Except Fault TreeBuilder → Except Fault (Option Nat) × TreeBuilder
  | .ok b' => (.ok none, b')
  | .error fault => (.error fault, b)

def call (b : TreeBuilder) : BuildCall → Except Fault (Option Nat) × TreeBuilder
  | .start kind offset => b.adding (b.startNode kind offset)
  | .finish stop => ((b.finishNode stop).1.map some, (b.finishNode stop).2)
  | .leaf kind region => b.adding (b.leaf kind region)
  | .textLeaf kind region text => b.adding (b.textLeaf kind region text)
  | .setText id text => b.changing (b.setText id text)
  | .setStatus id status => b.changing (b.setStatus id status)
  | .markEmbedding id language flags => b.changing (b.markEmbedding id language flags)

def after (b : TreeBuilder) (calls : List BuildCall) : TreeBuilder :=
  calls.foldl (fun b c => (b.call c).2) b

/-- Whether every close of a run is accepted. -/
def closes (b : TreeBuilder) : List BuildCall → Bool
  | [] => true
  | c :: calls => (!c.isFinish || (b.call c).1.isOk) && (b.call c).2.closes calls

/-- The node that a call adds, with the number that it answers. -/
def addition? (b : TreeBuilder) (c : BuildCall) : Option Addition :=
  match c, (b.call c).1 with
  | .start kind offset, .ok (some id) => some ⟨id, kind, offset, b.current?⟩
  | .leaf kind region, .ok (some id) => some ⟨id, kind, region.offset, b.current?⟩
  | .textLeaf kind region _, .ok (some id) => some ⟨id, kind, region.offset, b.current?⟩
  | _, _ => none

def additions (b : TreeBuilder) : List BuildCall → List Addition
  | [] => []
  | c :: calls => (b.addition? c).toList ++ (b.call c).2.additions calls

/-! ## Open nodes -/

end TreeBuilder

namespace OpenNode

def sketch (g : NodeData → NodeData) (node : OpenNode) : OpenNode where
  data := g node.data
  children := sketches g node.children

end OpenNode

namespace TreeBuilder

/-- Whether open nodes, innermost first, lie one behind what is finished in the next one, and the
finished nodes are nested. -/
def Stacked : List OpenNode → Prop
  | [] => True
  | node :: outer => NestedIn node.data.region.offset node.reach node.children ∧
      (∀ parent ∈ outer.head?, parent.reach ≤ node.data.region.offset) ∧ Stacked outer

/-- Numbers of open nodes, innermost first. -/
def openIds : List OpenNode → List Nat
  | [] => []
  | _ :: outer => countOpen outer :: openIds outer

/-- The open nodes and the finished ones below them as they were added. -/
def openAdditions : List OpenNode → List Addition
  | [] => []
  | node :: outer => openAdditions outer ++
      ⟨countOpen outer, node.data.kind, node.data.region.offset, (openIds outer).head?⟩ ::
        (nodesAmong (countOpen outer + 1) (countOpen outer :: openIds outer) node.children).map
          Ast.Node.addition

private theorem current?_eq (b : TreeBuilder) : b.current? = (openIds b.openNodes).head? := by
  unfold current?
  cases b.openNodes <;> rfl

/-- What holds of a builder behind calls that have added the given nodes, if every close has been
accepted. -/
structure Builds (b : TreeBuilder) (log : List Addition) : Prop where
  stacked : Stacked b.openNodes
  nested : ∀ t ∈ b.root?, t.Nested
  alone : b.root? = none ∨ b.openNodes = []
  log_eq : log = openAdditions b.openNodes ++
    b.root?.elim [] fun t => (t.nodesFrom 0 []).map Ast.Node.addition

/-- A node may be added at an offset. -/
structure Admits (b : TreeBuilder) (offset : Nat) : Prop where
  reach_le : ∀ parent ∈ b.openNodes.head?, parent.reach ≤ offset
  unfinished : b.root? = none

section Builds

variable {b : TreeBuilder} {log : List Addition} {t : Tree} {ts : List Tree} {offset : Nat}

theorem builds_new (language : String) : (new language).Builds [] where
  stacked := trivial
  nested _ ht := nomatch ht
  alone := .inl rfl
  log_eq := rfl

theorem nodesAmong_append (id : Nat) (ancestors : List Nat) (ts us : List Tree) :
    nodesAmong id ancestors (ts ++ us) =
      nodesAmong id ancestors ts ++ nodesAmong (id + Tree.sizes ts) ancestors us := by
  induction ts generalizing id with
  | nil => simp [nodesAmong, Tree.sizes]
  | cons t ts ih =>
    simp only [List.cons_append, nodesAmong, ih, Tree.sizes, List.append_assoc, Nat.add_assoc]

private theorem Builds.add (h : b.Builds log) (ha : b.Admits t.region.offset) (ht : t.Nested) :
    (b.add t).Builds (log ++
      (t.nodesFrom b.size (openIds b.openNodes)).map Ast.Node.addition) := by
  obtain ⟨hstacked, -, -, hlog⟩ := h
  obtain ⟨hreach, hroot⟩ := ha
  obtain ⟨language, openNodes, root?⟩ := b
  simp only at hroot hlog hstacked hreach
  subst hroot
  rw [Option.elim_none, List.append_nil] at hlog
  cases openNodes with
  | nil =>
    refine ⟨trivial, fun u hu => ?_, .inr rfl, ?_⟩
    · cases hu
      exact ht
    · rw [hlog]
      rfl
  | cons parent outer =>
    obtain ⟨hchildren, hbehind, houter⟩ := hstacked
    have hle : parent.reach ≤ t.region.offset := hreach parent rfl
    have hlast : NestedIn parent.reach t.region.stop [t] := ⟨hle, ht, Nat.le_refl _⟩
    refine ⟨⟨?_, hbehind, houter⟩, by simp [TreeBuilder.add], .inl rfl, ?_⟩
    · simpa [OpenNode.reach] using hchildren.append hlast
    · have hsize : size ⟨language, parent :: outer, none⟩ =
          countOpen outer + 1 + Tree.sizes parent.children := by
        simp only [size, countOpen, OpenNode.size, Option.elim_none]
        omega
      simp only [TreeBuilder.add, openAdditions, openIds, hlog, hsize, nodesAmong_append,
        Option.elim_none, List.append_nil, nodesAmong, List.map_append, List.append_assoc,
        List.cons_append]

/-- A node that is opened goes to the end of what has been added. -/
theorem Builds.opened (h : b.Builds log) (data : NodeData)
    (ha : b.Admits data.region.offset) :
    (b.opened data).Builds (log ++ [⟨b.size, data.kind, data.region.offset, b.current?⟩]) where
  stacked := ⟨Nat.le_refl _, ha.reach_le, h.stacked⟩
  nested u hu := h.nested u hu
  alone := .inl ha.unfinished
  log_eq := by
    have hsize : b.size = countOpen b.openNodes := by simp [size, ha.unfinished]
    rw [h.log_eq, hsize, current?_eq]
    simp only [TreeBuilder.opened, openAdditions, ha.unfinished, Option.elim_none, List.append_nil,
      nodesAmong, List.map_nil]

/-- The node that is closed takes the place of the open one. -/
theorem Builds.finishNode {stop : Nat} (h : b.Builds log) (hok : (b.finishNode stop).1.isOk) :
    (b.finishNode stop).2.Builds log := by
  obtain ⟨language, openNodes, root?⟩ := b
  cases openNodes with
  | nil => cases hok
  | cons node outer =>
    have hroot : root? = none := h.alone.resolve_right (List.cons_ne_nil _ _)
    subst hroot
    obtain ⟨⟨hchildren, hbehind, houter⟩, -, -, hlog⟩ := h
    obtain ⟨data, hclose⟩ : ∃ data, closeData (countOpen outer) node stop = .ok data := by
      simp only [TreeBuilder.finishNode] at hok
      cases hc : closeData (countOpen outer) node stop with
      | error fault => rw [hc] at hok; cases hok
      | ok data => exact ⟨data, rfl⟩
    have hclosed := closeData_eq_ok hclose
    have hinner : Builds ⟨language, outer, none⟩ (openAdditions outer) :=
      ⟨houter, by simp, .inl rfl, (List.append_nil _).symm⟩
    have hnested : (Tree.node data node.children none).Nested := by
      rw [Tree.Nested, hclosed.offset_eq, hclosed.stop_eq]
      exact hchildren.mono (Nat.le_refl _) hclosed.reach_le
    have hadmits : Admits ⟨language, outer, none⟩ data.region.offset :=
      ⟨fun parent hp => hclosed.offset_eq ▸ hbehind parent hp, rfl⟩
    have hadd := hinner.add (t := .node data node.children none) hadmits hnested
    have hlog' : log = openAdditions outer ++
        ((Tree.node data node.children none).nodesFrom (countOpen outer) (openIds outer)).map
          Ast.Node.addition := by
      rw [hlog, openAdditions, Tree.nodesFrom, List.map_cons, Option.elim_none, List.append_nil,
        ← hclosed.kind_eq, ← hclosed.offset_eq]
      rfl
    simp only [TreeBuilder.finishNode, hclose]
    rw [hlog']
    exact hadd

private theorem Builds.admits {kind : SyntaxKind} (h : b.Builds log)
    (hc : b.checkStart kind offset = .ok ()) : b.Admits offset := by
  unfold checkStart at hc
  -- A call that is let through either finds nothing at all or lies behind the last child.
  cases ho : b.openNodes with
  | nil =>
    rw [ho] at hc
    refine ⟨fun parent hp => ?_, ?_⟩
    · rw [ho] at hp
      cases hp
    · cases hroot : b.root? with
      | none => rfl
      | some root =>
        rw [hroot] at hc
        cases hc
  | cons parent outer =>
    have hroot := h.alone.resolve_right (ho ▸ List.cons_ne_nil _ _)
    rw [ho] at hc
    refine ⟨fun p hp => ?_, hroot⟩
    rw [ho] at hp
    cases hp
    by_cases hparent : offset < parent.data.region.offset
    · simp only [if_pos hparent] at hc
      cases hc
    · simp only [if_neg hparent] at hc
      cases hl : parent.children.getLast? with
      | none =>
        simp only [OpenNode.reach, hl, Option.map_none, Option.getD_none]
        omega
      | some child =>
        by_cases hchild : offset < child.region.stop
        · simp only [hl, if_pos hchild] at hc
          cases hc
        · simp only [OpenNode.reach, hl, Option.map_some, Option.getD_some]
          omega

end Builds

/-! ## Changes of what nodes say -/

section Sketched

def placement (data : NodeData) : NodeData where
  kind := data.kind
  region := data.region

def sketched (b : TreeBuilder) : TreeBuilder where
  language := b.language
  openNodes := b.openNodes.map (OpenNode.sketch placement)
  root? := b.root?.map (Tree.sketch placement)

variable {b b' : TreeBuilder} {log : List Addition}

private theorem addition_mapTree (n : Ast.Node) :
    (n.mapTree (Tree.sketch placement)).addition = n.addition := by
  obtain ⟨id, ⟨data, children, foreign⟩, ancestors⟩ := n
  rfl

private theorem reach_sketch (node : OpenNode) : (node.sketch placement).reach = node.reach := by
  have hlast : (sketches placement node.children).getLast? =
      node.children.getLast?.map (Tree.sketch placement) := by
    rw [Tree.sketches_eq_map, List.getLast?_map]
  unfold OpenNode.reach
  simp only [OpenNode.sketch, hlast, Option.map_map]
  cases node.children.getLast? with
  | none => rfl
  | some t =>
    cases t
    rfl

private theorem stacked_sketch (nodes : List OpenNode) :
    Stacked (nodes.map (OpenNode.sketch placement)) ↔ Stacked nodes := by
  induction nodes with
  | nil => exact Iff.rfl
  | cons node outer ih =>
    have hbehind : (∀ p ∈ (outer.map (OpenNode.sketch placement)).head?,
        p.reach ≤ node.data.region.offset) ↔
        ∀ p ∈ outer.head?, p.reach ≤ node.data.region.offset := by
      cases outer with
      | nil => exact Iff.rfl
      | cons parent outer => simp [reach_sketch]
    have hchildren := Tree.nestedIn_sketches (g := placement) (fun _ => rfl)
      node.data.region.offset node.reach node.children
    rw [List.map_cons, Stacked, Stacked, ih, reach_sketch]
    exact and_congr hchildren (and_congr_left' hbehind)

theorem countOpen_sketch (nodes : List OpenNode) :
    countOpen (nodes.map (OpenNode.sketch placement)) = countOpen nodes := by
  induction nodes with
  | nil => rfl
  | cons node outer ih =>
    simp only [List.map_cons, countOpen, ih, OpenNode.size, OpenNode.sketch, Tree.sizes_sketches]

theorem openIds_sketch (nodes : List OpenNode) :
    openIds (nodes.map (OpenNode.sketch placement)) = openIds nodes := by
  induction nodes with
  | nil => rfl
  | cons node outer ih => simp only [List.map_cons, openIds, ih, countOpen_sketch]

private theorem openAdditions_sketch (nodes : List OpenNode) :
    openAdditions (nodes.map (OpenNode.sketch placement)) = openAdditions nodes := by
  induction nodes with
  | nil => rfl
  | cons node outer ih =>
    have hchildren : ∀ id ancestors,
        (nodesAmong id ancestors (sketches placement node.children)).map Ast.Node.addition =
          (nodesAmong id ancestors node.children).map Ast.Node.addition := by
      intro id ancestors
      rw [Tree.nodesAmong_sketches, List.map_map]
      exact List.map_congr_left fun n _ => addition_mapTree n
    simp only [List.map_cons, openAdditions, ih, countOpen_sketch, openIds_sketch, OpenNode.sketch,
      hchildren, placement]

private theorem builds_sketched : b.sketched.Builds log ↔ b.Builds log := by
  have hnested : (∀ t ∈ b.root?.map (Tree.sketch placement), t.Nested) ↔
      ∀ t ∈ b.root?, t.Nested := by
    cases b.root? with
    | none => simp
    | some root => simpa using Tree.nested_sketch (g := placement) (fun _ => rfl) root
  have hroot : ((b.root?.map (Tree.sketch placement)).elim [] fun t =>
      (t.nodesFrom 0 []).map Ast.Node.addition) =
      b.root?.elim [] fun t => (t.nodesFrom 0 []).map Ast.Node.addition := by
    cases b.root? with
    | none => rfl
    | some root =>
      simp only [Option.map_some, Option.elim_some, Tree.nodesFrom_sketch, List.map_map]
      exact List.map_congr_left fun n _ => addition_mapTree n
  constructor
  · rintro ⟨hs, hn, ha, hl⟩
    refine ⟨(stacked_sketch _).1 hs, hnested.1 hn, ?_, ?_⟩
    · simpa [sketched] using ha
    · simpa only [sketched, openAdditions_sketch, hroot] using hl
  · rintro ⟨hs, hn, ha, hl⟩
    refine ⟨(stacked_sketch _).2 hs, hnested.2 hn, ?_, ?_⟩
    · simpa [sketched] using ha
    · simpa only [sketched, openAdditions_sketch, hroot] using hl

section Modify

variable {above f : NodeData → NodeData}

private theorem sketch_mapData (hf : ∀ data, placement (f data) = placement data) (t : Tree) :
    (t.mapData f).sketch placement = t.sketch placement := by
  cases t
  simp only [Tree.mapData, Tree.sketch, hf]

private theorem map_sketch_modifyOpen (ha : ∀ data, placement (above data) = placement data)
    (hf : ∀ data, placement (f data) = placement data) (id : Nat) (nodes : List OpenNode) :
    (modifyOpen above f id nodes).map (OpenNode.sketch placement) =
      nodes.map (OpenNode.sketch placement) := by
  induction nodes with
  | nil => rfl
  | cons node outer ih =>
    rw [modifyOpen]
    split
    · rw [List.map_cons, List.map_cons, ih]
    · split
      · simp only [List.map_cons, OpenNode.sketch, hf]
      · simp only [List.map_cons, OpenNode.sketch, Tree.sketches_modifyAmong ha (sketch_mapData hf)]

theorem sketched_modifyData (ha : ∀ data, placement (above data) = placement data)
    (hf : ∀ data, placement (f data) = placement data) {id : Nat}
    (h : b.modifyData above f id = .ok b') : b'.sketched = b.sketched := by
  unfold modifyData at h
  split at h
  · cases h
    simp only [sketched, map_sketch_modifyOpen ha hf, Option.map_map, Function.comp_def,
      Tree.sketch_modify ha (sketch_mapData hf)]
  · cases h

end Modify

private theorem Builds.modifyData {above f : NodeData → NodeData} {id : Nat} (h : b.Builds log)
    (hok : b.modifyData above f id = .ok b')
    (ha : ∀ data, placement (above data) = placement data)
    (hf : ∀ data, placement (f data) = placement data) : b'.Builds log := by
  rw [← builds_sketched, sketched_modifyData ha hf hok, builds_sketched]
  exact h

end Sketched

/-! ## Runs -/

section Runs

variable {b b' : TreeBuilder} {log : List Addition} {id : Nat}

theorem startNode_eq_ok {kind : SyntaxKind} {offset : Nat}
    (h : b.startNode kind offset = .ok (id, b')) :
    b.checkStart kind offset = .ok () ∧ id = b.size ∧
      ∃ region : Region, region.offset = offset ∧ b' = b.opened { kind, region } := by
  obtain ⟨region, hr, hrest⟩ := bind_eq_ok h
  obtain ⟨⟨⟩, hcheck, hdone⟩ := bind_eq_ok hrest
  cases hdone
  exact ⟨hcheck, rfl, region, (Region.make?_eq_ok_iff.1 hr).1, rfl⟩

theorem addLeaf_eq_ok {data : NodeData} (h : b.addLeaf data = .ok (id, b')) :
    b.checkStart data.kind data.region.offset = .ok () ∧ id = b.size ∧ b' = b.add (.leaf data) := by
  obtain ⟨⟨⟩, hcheck, hdone⟩ := bind_eq_ok h
  cases hdone
  exact ⟨hcheck, rfl, rfl⟩

private theorem Builds.addLeaf {data : NodeData} (h : b.Builds log)
    (hok : b.addLeaf data = .ok (id, b')) :
    b'.Builds (log ++ [⟨id, data.kind, data.region.offset, b.current?⟩]) := by
  obtain ⟨hcheck, rfl, rfl⟩ := addLeaf_eq_ok hok
  rw [current?_eq]
  exact h.add (t := .leaf data) (h.admits hcheck) (Tree.nested_leaf data)

/-- A call other than a close may be refused; then it changes nothing. -/
theorem Builds.call (h : b.Builds log) (c : BuildCall)
    (hc : c.isFinish = true → (b.call c).1.isOk = true) :
    (b.call c).2.Builds (log ++ (b.addition? c).toList) := by
  have hsame : b.Builds (log ++ []) := by rwa [List.append_nil]
  cases c with
  | start kind offset =>
    simp only [TreeBuilder.call, addition?]
    cases hr : b.startNode kind offset with
    | error fault => exact hsame
    | ok answer =>
      obtain ⟨hcheck, hid, region, rfl, hb'⟩ := startNode_eq_ok hr
      simp only [adding, hid, hb', Option.toList_some]
      exact h.opened { kind, region } (h.admits hcheck)
  | finish stop =>
    simp only [TreeBuilder.call, addition?, Option.toList_none, List.append_nil]
    apply h.finishNode
    have hok : ((b.finishNode stop).1.map some).isOk = true := hc rfl
    cases hr : (b.finishNode stop).1 with
    | error fault => rw [hr] at hok; cases hok
    | ok id => rfl
  | leaf kind region =>
    simp only [TreeBuilder.call, addition?, leaf]
    cases hr : b.addLeaf { kind, region } with
    | error fault => exact hsame
    | ok answer => exact h.addLeaf hr
  | textLeaf kind region text =>
    simp only [TreeBuilder.call, addition?, textLeaf]
    cases hr : b.addLeaf { kind, region, text := some text } with
    | error fault => exact hsame
    | ok answer => exact h.addLeaf hr
  | setText id text =>
    simp only [TreeBuilder.call, addition?, Option.toList_none]
    cases hr : b.setText id text with
    | error fault => exact hsame
    | ok b' => exact hsame.modifyData hr (fun _ => rfl) fun _ => rfl
  | setStatus id status =>
    have habove : ∀ data : NodeData, placement (if status.hasAnyError then
        { data with status := data.status.markBelow } else data) = placement data := by
      intro data
      split <;> rfl
    simp only [TreeBuilder.call, addition?, Option.toList_none]
    cases hr : b.setStatus id status with
    | error fault => exact hsame
    | ok b' => exact hsame.modifyData hr habove fun _ => rfl
  | markEmbedding id language flags =>
    simp only [TreeBuilder.call, addition?, Option.toList_none]
    cases hr : b.markEmbedding id language flags with
    | error fault => exact hsame
    | ok b' => exact hsame.modifyData hr (fun _ => rfl) fun _ => rfl

/-- What a run builds as long as every close is accepted. -/
theorem Builds.after (h : b.Builds log) {calls : List BuildCall} (hc : b.closes calls = true) :
    (b.after calls).Builds (log ++ b.additions calls) := by
  induction calls generalizing b log with
  | nil => simpa [TreeBuilder.after, additions] using h
  | cons c calls ih =>
    simp only [closes, Bool.and_eq_true, Bool.or_eq_true, Bool.not_eq_true'] at hc
    obtain ⟨hclose, hrest⟩ := hc
    have hcall := h.call c fun hfinish => hclose.resolve_left (by simp [hfinish])
    rw [additions, ← List.append_assoc]
    exact ih hcall hrest

theorem finish_eq_ok_iff {ast : Ast} :
    b.finish = .ok ast ↔
      b.openNodes = [] ∧ b.root? = some ast.root ∧ b.language = ast.language := by
  obtain ⟨language, root⟩ := ast
  unfold finish
  cases b.openNodes with
  | cons node outer => simp
  | nil =>
    cases b.root? with
    | none => simp
    | some t => simp [Ast.mk.injEq, and_comm]

/-- A run gives a syntax tree just if it has added nodes and closed all that it has opened. -/
theorem exists_finish_iff (language : String) (calls : List BuildCall)
    (h : (new language).closes calls = true) :
    (∃ ast, ((new language).after calls).finish = .ok ast) ↔
      ((new language).after calls).current? = none ∧ (new language).additions calls ≠ [] := by
  have hlog := ((builds_new language).after h).log_eq
  rw [List.nil_append] at hlog
  rw [hlog]
  generalize (new language).after calls = b
  constructor
  · rintro ⟨ast, hok⟩
    obtain ⟨hopen, hroot, -⟩ := finish_eq_ok_iff.1 hok
    rw [current?_eq, hopen, hroot]
    refine ⟨rfl, fun hnil => ?_⟩
    have hsize := congrArg List.length hnil
    cases hr : ast.root
    rw [hr] at hsize
    simp [openAdditions, Tree.nodesFrom] at hsize
  · rintro ⟨hcurrent, hne⟩
    have hopen : b.openNodes = [] := by
      unfold current? at hcurrent
      cases ho : b.openNodes with
      | nil => rfl
      | cons node outer =>
        rw [ho] at hcurrent
        cases hcurrent
    cases hroot : b.root? with
    | none => exact absurd (by rw [hopen, hroot]; rfl) hne
    | some root => exact ⟨⟨b.language, root⟩, finish_eq_ok_iff.2 ⟨hopen, hroot, rfl⟩⟩

/-- A syntax tree that comes out of a run in which every close is accepted is arranged, and its
nodes are those that the run has added, with the numbers that were answered. -/
theorem arranged_of_finish (language : String) (calls : List BuildCall)
    (h : (new language).closes calls = true) (ast : Ast)
    (hok : ((new language).after calls).finish = .ok ast) :
    ast.Arranged ∧ ast.nodes.map Ast.Node.addition = (new language).additions calls := by
  have hbuilds := (builds_new language).after h
  obtain ⟨hopen, hroot, -⟩ := finish_eq_ok_iff.1 hok
  have hlog := hbuilds.log_eq
  rw [hopen, hroot] at hlog
  exact ⟨Ast.arranged (hbuilds.nested ast.root hroot), hlog.symm⟩

/-- A run with five calls that are refused: for a number that is not there yet, for an overlap, for
a node in front of the one above it, for a number that is not there, and for a second root. -/
def refusedCalls : List BuildCall :=
  let block : SyntaxKind := ⟨"test", 0, "Block"⟩
  let word : SyntaxKind := ⟨"test", 1, "Word"⟩
  [.setText 0 "early", .start block 0, .textLeaf word ⟨0, 5, by decide⟩ "hello",
    .leaf word ⟨3, 5, by decide⟩, .start block 6, .start block 2, .leaf word ⟨6, 3, by decide⟩,
    .setStatus 3 (Status.error 7), .setStatus 4 (Status.error 7), .finish 9,
    .markEmbedding 2 "Expr" .chunk, .finish 11, .leaf word ⟨12, 1, by decide⟩]

/-- Calls that are refused leave no trace in the tree. -/
theorem arranged_of_finish_refused :
    (new "test").closes refusedCalls = true ∧
      ∃ ast, ((new "test").after refusedCalls).finish = .ok ast ∧ ast.Arranged ∧
        ast.nodes.map (fun n => (n.id, n.tree.region.display, n.parent?)) =
          [(0, "[0, 11)", none), (1, "[0, 5)", some 0), (2, "[6, 9)", some 0),
            (3, "[6, 9)", some 2)] := by
  have hcloses : (new "test").closes refusedCalls = true := by decide
  have harranged := arranged_of_finish "test" refusedCalls hcloses
  exact ⟨hcloses, _, rfl, (harranged _ rfl).1, by decide⟩

end Runs

end TreeBuilder

end SourceModel
