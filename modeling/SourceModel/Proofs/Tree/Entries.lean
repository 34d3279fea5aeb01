import Mathlib.Data.List.Sort
import SourceModel.Proofs.Tree.Marks

/-!
# Nodes of a builder

The nodes that a builder has so far, open or finished, are numbered without a gap in the order in
which they were added. Every node but the first one comes below an earlier one, and where that is
open, so are all above it. A call adds one node at the end or changes what nodes say; which node
comes below which never changes.
-/

namespace SourceModel

open SourceModel.Tree (nodesAmong spansAmong numbered)

namespace TreeBuilder

/-- The open nodes, each with what is finished below it, and the nodes there. -/
def openTreeNodes : List OpenNode → List Ast.Node
  | [] => []
  | node :: outer =>
    openTreeNodes outer ++ node.toTree.nodesFrom (countOpen outer) (openIds outer)

def nodes (b : TreeBuilder) : List Ast.Node :=
  openTreeNodes b.openNodes ++ b.root?.elim [] (Tree.nodesFrom 0 [])

/-- Numbers of the nodes right below the one with number `i`. -/
def childrenOf (b : TreeBuilder) (i : Nat) : List Nat :=
  (b.entries.filter fun e => e.2.2 == some i).map Prod.fst

/-- The entry of a node that says something else about itself. -/
def restate (say : Nat → NodeData → NodeData) (e : Nat × NodeData × Option Nat) :
    Nat × NodeData × Option Nat :=
  (e.1, say e.1 e.2.1, e.2.2)

section Nodes

variable {b b' : TreeBuilder} {n m : Ast.Node} {e : Span} {i j : Nat} {nodes outer : List OpenNode}
  {node : OpenNode}

private theorem openEntries_eq (nodes : List OpenNode) :
    openEntries nodes = (openTreeNodes nodes).map Ast.Node.entry := by
  induction nodes with
  | nil => rfl
  | cons node outer ih => rw [openEntries, openTreeNodes, List.map_append, ih]

private theorem entries_eq (b : TreeBuilder) : b.entries = b.nodes.map Ast.Node.entry := by
  rw [entries, TreeBuilder.nodes, List.map_append, openEntries_eq]
  cases b.root? <;> rfl

/-! ## Numbers -/

private theorem map_id_openTreeNodes (nodes : List OpenNode) :
    (openTreeNodes nodes).map Ast.Node.id = List.range (countOpen nodes) := by
  induction nodes with
  | nil => rfl
  | cons node outer ih =>
    have hsize : node.toTree.size = node.size := rfl
    rw [openTreeNodes, List.map_append, ih, Tree.map_id_nodesFrom, hsize, countOpen,
      List.range_eq_range', List.range_eq_range', ← List.range'_append_1, Nat.zero_add]

private theorem map_fst_entries (hb : b.Unrooted) : b.entries.map Prod.fst = List.range b.size := by
  have hids : b.nodes.map Ast.Node.id = List.range b.size := by
    rw [TreeBuilder.nodes, List.map_append, map_id_openTreeNodes, size]
    cases hroot : b.root? with
    | none => simp
    | some root =>
      rw [hb.openNodes_eq_nil hroot, Option.elim_some, Option.elim_some, Tree.map_id_nodesFrom,
        countOpen, Nat.zero_add, List.range_zero, List.nil_append, List.range_eq_range']
  rw [entries_eq, List.map_map]
  exact hids

private theorem lt_of_mem_openTreeNodes (h : n ∈ openTreeNodes nodes) : n.id < countOpen nodes := by
  have hmem := List.mem_map_of_mem (f := Ast.Node.id) h
  rwa [map_id_openTreeNodes, List.mem_range] at hmem

theorem length_entries (hb : b.Unrooted) : b.entries.length = b.size := by
  rw [← List.length_map (f := Prod.fst), map_fst_entries hb, List.length_range]

theorem fst_of_getElem? {e : Nat × NodeData × Option Nat} (hb : b.Unrooted)
    (h : b.entries[i]? = some e) : e.1 = i := by
  have hfst : (b.entries.map Prod.fst)[i]? = some e.1 := by
    rw [List.getElem?_map, h, Option.map_some]
  rw [map_fst_entries hb] at hfst
  obtain ⟨hlt, hi⟩ := List.getElem?_eq_some_iff.1 hfst
  rw [← hi, List.getElem_range]

theorem getElem?_entries (hb : b.Unrooted) (hn : n ∈ b.nodes) :
    b.entries[n.id]? = some n.entry := by
  have hmem : n.entry ∈ b.entries := by
    rw [entries_eq]
    exact List.mem_map_of_mem hn
  obtain ⟨i, hi⟩ := List.mem_iff_getElem?.1 hmem
  have hid : n.id = i := fst_of_getElem? hb hi
  rwa [hid]

theorem exists_mem_nodes (hb : b.Unrooted) (hi : i < b.size) : ∃ n ∈ b.nodes, n.id = i := by
  have hmem : i ∈ b.entries.map Prod.fst := by
    rw [map_fst_entries hb]
    exact List.mem_range.2 hi
  rw [entries_eq, List.map_map] at hmem
  exact List.mem_map.1 hmem

/-! ## Nodes above -/

private theorem lt_of_mem_openIds (h : i ∈ openIds nodes) : i < countOpen nodes := by
  induction nodes with
  | nil => cases h
  | cons node outer ih =>
    have hsize : 0 < node.toTree.size := Tree.size_pos _
    have hcount : countOpen (node :: outer) = countOpen outer + node.toTree.size := rfl
    rcases List.mem_cons.1 h with rfl | h
    · omega
    · have hlt := ih h
      omega

theorem lt_size_of_mem_openIds (h : i ∈ openIds b.openNodes) : i < b.size :=
  Nat.lt_of_lt_of_le (lt_of_mem_openIds h) (Nat.le_add_right ..)

/-- Where a node stands among others, of which some are open. -/
structure Placed (all : List Ast.Node) (opened : List Nat) (n : Ast.Node) : Prop where
  lt : ∀ i ∈ n.ancestors, i < n.id
  first : n.ancestors = [] → n.id = 0
  parent : ∀ p above, n.ancestors = p :: above → ∃ m ∈ all, m.id = p ∧ m.ancestors = above
  opened : n.id ∈ opened → n.ancestors ⊆ opened

private theorem placed_of_mem_nodesFrom {all : List Ast.Node} {opened ancestors : List Nat}
    {id : Nat} {t : Tree} (h : n ∈ t.nodesFrom id ancestors)
    (hall : t.nodesFrom id ancestors ⊆ all) (hbound : ∀ i ∈ ancestors, i < id)
    (hfirst : ancestors = [] → id = 0)
    (hparent : ∀ p above, ancestors = p :: above → ∃ m ∈ all, m.id = p ∧ m.ancestors = above)
    (hopened : n.id ∈ opened → n.ancestors ⊆ opened) : Placed all opened n where
  lt i := Tree.lt_of_mem_ancestors h hbound
  first := by
    intro hnil
    rcases Tree.mem_nodesFrom h with rfl | ⟨p, -, hc⟩
    · exact hfirst hnil
    · rw [hc.ancestors_eq] at hnil
      cases hnil
  parent := by
    intro p above habove
    rcases Tree.mem_nodesFrom h with rfl | ⟨q, hq, hc⟩
    · exact hparent p above habove
    · rw [hc.ancestors_eq] at habove
      cases habove
      exact ⟨q, hall hq, rfl, rfl⟩
  opened := hopened

/-- A node of the innermost open one is open only if it is that one itself. -/
private theorem opened_innermost
    (h : n ∈ node.toTree.nodesFrom (countOpen outer) (openIds outer))
    (hid : n.id ∈ openIds (node :: outer)) : n.ancestors ⊆ openIds (node :: outer) := by
  have hroot : n.id = countOpen outer := by
    rcases List.mem_cons.1 hid with hid | hid
    · exact hid
    · have hlo := (Tree.bounds_of_mem_nodesFrom h).1
      have hhi := lt_of_mem_openIds hid
      omega
  rw [OpenNode.toTree, Tree.nodesFrom] at h
  rcases List.mem_cons.1 h with rfl | h
  · exact List.subset_cons_self _ _
  · have hlo := (Tree.bounds_of_mem_nodesAmong h).1
    omega

private theorem placed_of_mem_open (h : n ∈ openTreeNodes nodes) :
    Placed (openTreeNodes nodes) (openIds nodes) n := by
  induction nodes with
  | nil => cases h
  | cons node outer ih =>
    rw [openTreeNodes] at h
    rcases List.mem_append.1 h with h | h
    · obtain ⟨hlt, hfirst, hparent, hopen⟩ := ih h
      refine ⟨hlt, hfirst, ?_, ?_⟩
      · intro p above habove
        obtain ⟨m, hm, hrest⟩ := hparent p above habove
        exact ⟨m, List.mem_append_left _ hm, hrest⟩
      · intro hid
        have hne : n.id ≠ countOpen outer := Nat.ne_of_lt (lt_of_mem_openTreeNodes h)
        have hid := (List.mem_cons.1 hid).resolve_left hne
        exact fun i hi => List.mem_cons_of_mem _ (hopen hid hi)
    · apply placed_of_mem_nodesFrom h
      · exact List.subset_append_right _ _
      · exact fun i => lt_of_mem_openIds
      · intro hnil
        cases outer with
        | nil => rfl
        | cons parent outer => cases hnil
      · intro p above habove
        cases outer with
        | nil => cases habove
        | cons parent outer =>
          cases habove
          refine ⟨⟨countOpen outer, parent.toTree, openIds outer⟩, ?_, rfl, rfl⟩
          apply List.mem_append_left
          exact List.mem_append_right _ List.mem_cons_self
      · exact opened_innermost h

private theorem nodes_eq (h : b.root? = none) : b.nodes = openTreeNodes b.openNodes := by
  rw [TreeBuilder.nodes, h, Option.elim_none, List.append_nil]

theorem placed_of_mem (hb : b.Unrooted) (h : n ∈ b.nodes) :
    Placed b.nodes (openIds b.openNodes) n := by
  cases hroot : b.root? with
  | none =>
    rw [nodes_eq hroot] at h ⊢
    exact placed_of_mem_open h
  | some root =>
    rw [TreeBuilder.nodes, hb.openNodes_eq_nil hroot, hroot] at h ⊢
    have hn : n ∈ root.nodesFrom 0 [] := h
    apply placed_of_mem_nodesFrom hn
    · exact fun m hm => hm
    · intro i hi
      cases hi
    · intro _
      rfl
    · intro p above habove
      cases habove
    · intro hid
      cases hid

/-- Below the innermost open node, a node with what is finished there above it. -/
private theorem over_iff_innermost
    (hn : n ∈ node.toTree.nodesFrom (countOpen outer) (openIds outer))
    (he : e ∈ spansAmong (countOpen outer + 1) node.children) :
    e.Over n.id ↔ e.id ∈ n.ancestors ∧ e.id ∉ openIds (node :: outer) := by
  have hspan := Tree.span_bounds_among he
  have hbound : ∀ i ∈ openIds (node :: outer), i < countOpen outer + 1 := by
    intro i hi
    rcases List.mem_cons.1 hi with rfl | hi
    · exact Nat.lt_succ_self _
    · exact Nat.lt_succ_of_lt (lt_of_mem_openIds hi)
  have hclosed : e.id ∉ openIds (node :: outer) := by
    intro hmem
    exact absurd (hbound e.id hmem) (by omega)
  rw [OpenNode.toTree, Tree.nodesFrom] at hn
  rcases List.mem_cons.1 hn with rfl | hn
  · apply iff_of_false
    · intro hover
      exact absurd hover.1 (by simp only; omega)
    · intro hmem
      exact hclosed (List.mem_cons_of_mem _ hmem.1)
  · rw [Tree.over_iff_among hn he hbound]
    exact (and_iff_left hclosed).symm

/-- The induction is on the open nodes: the node and the span may each stand below the innermost
one or further out. -/
private theorem over_iff_open (hn : n ∈ openTreeNodes nodes) (he : e ∈ openSpans nodes) :
    e.Over n.id ↔ e.id ∈ n.ancestors ∧ e.id ∉ openIds nodes := by
  induction nodes with
  | nil => cases hn
  | cons node outer ih =>
    rw [openTreeNodes] at hn
    rw [openSpans] at he
    rcases List.mem_append.1 hn with hn | hn
    · have hlt := lt_of_mem_openTreeNodes hn
      rw [openIds, List.mem_cons, not_or]
      rcases List.mem_append.1 he with he | he
      · have hspan := openSpan_bounds he
        rw [ih hn he]
        apply and_congr_right'
        apply iff_and_self.2
        intro _
        omega
      · have hle : countOpen outer ≤ e.id := by
          rcases List.mem_cons.1 he with rfl | he
          · exact Nat.le_refl _
          · exact Nat.le_of_succ_le (Tree.span_bounds_among he).1
        apply iff_of_false
        · intro hover
          exact absurd hover.1 (by omega)
        · intro hmem
          exact absurd ((placed_of_mem_open hn).lt _ hmem.1) (by omega)
    · have hlo := (Tree.bounds_of_mem_nodesFrom hn).1
      rcases List.mem_append.1 he with he | he
      · have hspan := openSpan_bounds he
        apply iff_of_false
        · intro hover
          exact absurd hover.2 (by omega)
        · intro hmem
          obtain ⟨inner, hinner, hbounds⟩ := Tree.exists_ancestors_eq hn
          rw [hinner, openIds, List.mem_append, List.mem_cons, not_or] at hmem
          have hin := hmem.1.resolve_right hmem.2.2
          exact absurd (hbounds _ hin).1 (by omega)
      · rcases List.mem_cons.1 he with rfl | he
        · apply iff_of_false
          · intro hover
            have hspan := hover.2
            have hgt := hover.1
            simp only at hspan hgt
            omega
          · intro hmem
            exact hmem.2 List.mem_cons_self
        · exact over_iff_innermost hn he

/-- A change of a node reaches the finished nodes above it, up to the first open one. -/
private theorem over_iff (hb : b.Unrooted) (hn : n ∈ b.nodes) (he : e ∈ b.spans) :
    e.Over n.id ↔ e.id ∈ n.ancestors ∧ e.id ∉ openIds b.openNodes := by
  cases hroot : b.root? with
  | none =>
    rw [nodes_eq hroot] at hn
    rw [spans, hroot, Option.elim_none, List.append_nil] at he
    exact over_iff_open hn he
  | some root =>
    rw [TreeBuilder.nodes, hb.openNodes_eq_nil hroot, hroot] at hn
    rw [spans, hb.openNodes_eq_nil hroot, hroot] at he
    rw [hb.openNodes_eq_nil hroot, openIds]
    have hover : e.Over n.id ↔ e.id ∈ n.ancestors := Tree.over_iff hn he (by simp)
    rw [hover]
    exact (and_iff_left List.not_mem_nil).symm

/-! ## Changes -/

theorem language_add (b : TreeBuilder) (t : Tree) : (b.add t).language = b.language := by
  unfold add
  split <;> rfl

theorem openIds_add (b : TreeBuilder) (t : Tree) :
    openIds (b.add t).openNodes = openIds b.openNodes := by
  obtain ⟨language, openNodes, root?⟩ := b
  cases openNodes <;> rfl

private theorem restate_of_eq {say : Nat → NodeData → NodeData} {e : Nat × NodeData × Option Nat}
    (h : say e.1 e.2.1 = e.2.1) : restate say e = e :=
  congrArg (fun data => (e.1, data, e.2.2)) h

theorem entries_opened {data : NodeData} (h : b.root? = none) :
    (b.opened data).entries = b.entries ++ [(b.size, data, (openIds b.openNodes).head?)] := by
  rw [entries, entries, opened, h, Option.elim_none, List.append_nil, List.append_nil, size, h,
    Option.elim_none, Nat.add_zero, openEntries]
  rfl

theorem entries_closed (language : String) (node : OpenNode) (outer : List OpenNode)
    (data : NodeData) :
    (add ⟨language, outer, none⟩ (.node data node.children none)).entries =
      (entries ⟨language, node :: outer, none⟩).map
        (restate fun i d => if i = countOpen outer then data else d) := by
  have houter : ∀ e ∈ openEntries outer,
      restate (fun i d => if i = countOpen outer then data else d) e = e := by
    intro e he
    rw [openEntries_eq] at he
    obtain ⟨n, hn, rfl⟩ := List.mem_map.1 he
    exact restate_of_eq (if_neg (Nat.ne_of_lt (lt_of_mem_openTreeNodes hn)))
  have hbelow : ∀ n ∈ nodesAmong (countOpen outer + 1) (countOpen outer :: openIds outer)
      node.children, restate (fun i d => if i = countOpen outer then data else d) n.entry =
        n.entry := by
    intro n hn
    have hlo := (Tree.bounds_of_mem_nodesAmong hn).1
    exact restate_of_eq (if_neg (show n.id ≠ countOpen outer by omega))
  have hadd := entries_add (b := ⟨language, outer, none⟩) (t := .node data node.children none) rfl
  rw [hadd, entries, entries]
  simp only [size, openEntries, Option.elim_none, List.append_nil, Nat.add_zero, List.map_append,
    OpenNode.toTree, Tree.nodesFrom, List.map_cons, List.map_map]
  rw [List.map_congr_left houter, List.map_id', ← List.map_congr_left hbelow]
  congr 2
  exact congrArg (fun d => (countOpen outer, d, (openIds outer).head?)) (if_pos rfl).symm

private theorem map_data_entries (b : TreeBuilder) :
    b.entries.map (fun e => (e.1, e.2.1)) = b.spans.map fun e => (e.id, e.data) := by
  have hspans : ∀ id ancestors ts, (nodesAmong id ancestors ts).map (fun n => (n.id, n.tree.data)) =
      (spansAmong id ts).map fun e => (e.id, e.data) := by
    intro id ancestors ts
    rw [← Tree.map_span_nodesAmong id ancestors, List.map_map]
    rfl
  have hopen : ∀ nodes, (openEntries nodes).map (fun e => (e.1, e.2.1)) =
      (openSpans nodes).map fun e => (e.id, e.data) := by
    intro nodes
    induction nodes with
    | nil => rfl
    | cons node outer ih =>
      rw [openEntries, openSpans, List.map_append, List.map_append, ih, List.map_map,
        List.map_cons, OpenNode.toTree, Tree.nodesFrom, List.map_cons,
        ← hspans _ (countOpen outer :: openIds outer)]
      rfl
  rw [entries, spans, List.map_append, List.map_append, hopen]
  cases b.root? with
  | none => rfl
  | some root =>
    rw [Option.elim_some, Option.elim_some, List.map_map, ← Tree.map_span_nodesFrom 0 [],
      List.map_map]
    rfl

private theorem map_parent_sketched (b : TreeBuilder) :
    b.sketched.entries.map (fun e => e.2.2) = b.entries.map fun e => e.2.2 := by
  have htree : ∀ id ancestors (t : Tree),
      (((t.sketch placement).nodesFrom id ancestors).map Ast.Node.entry).map (fun e => e.2.2) =
        ((t.nodesFrom id ancestors).map Ast.Node.entry).map fun e => e.2.2 := by
    intro id ancestors t
    rw [Tree.nodesFrom_sketch, List.map_map, List.map_map, List.map_map]
    rfl
  have hopen : ∀ nodes,
      (openEntries (nodes.map (OpenNode.sketch placement))).map (fun e => e.2.2) =
        (openEntries nodes).map fun e => e.2.2 := by
    intro nodes
    induction nodes with
    | nil => rfl
    | cons node outer ih =>
      rw [List.map_cons, openEntries, openEntries, List.map_append, List.map_append, ih,
        countOpen_sketch, openIds_sketch, ← htree _ _ node.toTree]
      rfl
  rw [entries, entries, List.map_append, List.map_append]
  cases hroot : b.root? with
  | none => simp only [sketched, hroot, hopen, Option.map_none, Option.elim_none]
  | some root =>
    simp only [sketched, hroot, hopen, htree, Option.map_some, Option.elim_some]

private theorem eq_of_map_eq {l l' : List (Nat × NodeData × Option Nat)}
    (hdata : l.map (fun e => (e.1, e.2.1)) = l'.map fun e => (e.1, e.2.1))
    (hparent : l.map (fun e => e.2.2) = l'.map fun e => e.2.2) : l = l' := by
  induction l generalizing l' with
  | nil => exact (List.map_eq_nil_iff.1 hdata.symm).symm
  | cons e l ih =>
    cases l' with
    | nil => cases hdata
    | cons e' l' =>
      simp only [List.map_cons, List.cons.injEq, Prod.mk.injEq] at hdata hparent
      rw [ih hdata.2 hparent.2]
      exact congrArg (· :: l') (Prod.ext hdata.1.1 (Prod.ext hdata.1.2 hparent.1))

theorem entries_modifyData {above f : NodeData → NodeData} (hb : b.Unrooted) (hn : n ∈ b.nodes)
    (h : b.modifyData above f n.id = .ok b')
    (ha : ∀ data, placement (above data) = placement data)
    (hf : ∀ data, placement (f data) = placement data) :
    b'.entries = b.entries.map (restate fun i d =>
      if i = n.id then f d
      else if i ∈ n.ancestors ∧ i ∉ openIds b.openNodes then above d else d) := by
  apply eq_of_map_eq
  · have hspans : b'.spans.map (fun e => (e.id, e.data)) =
        (b.spans.map fun e => (e.id, e.data)).map fun e =>
          (e.1, if e.1 = n.id then f e.2
            else if e.1 ∈ n.ancestors ∧ e.1 ∉ openIds b.openNodes then above e.2 else e.2) := by
      rw [spans_modifyData hb h, List.map_map, List.map_map]
      apply List.map_congr_left
      intro e he
      simp only [Function.comp_apply, Span.change, over_iff hb hn he]
    rw [map_data_entries, hspans, ← map_data_entries, List.map_map, List.map_map]
    rfl
  · rw [← map_parent_sketched, sketched_modifyData ha hf h, map_parent_sketched, List.map_map]
    rfl

theorem language_modifyData {above f : NodeData → NodeData} (h : b.modifyData above f i = .ok b') :
    b'.language = b.language := by
  unfold modifyData at h
  split at h <;> cases h
  rfl

theorem openIds_modifyData {above f : NodeData → NodeData}
    (h : b.modifyData above f i = .ok b')
    (ha : ∀ data, placement (above data) = placement data)
    (hf : ∀ data, placement (f data) = placement data) :
    openIds b'.openNodes = openIds b.openNodes := by
  have hsketched := congrArg (fun b : TreeBuilder => openIds b.openNodes)
    (sketched_modifyData ha hf h)
  simpa only [sketched, openIds_sketch] using hsketched

/-! ## Children -/

theorem mem_childrenOf :
    j ∈ b.childrenOf i ↔ ∃ n ∈ b.nodes, n.id = j ∧ n.parent? = some i := by
  simp only [childrenOf, entries_eq, List.mem_map, List.mem_filter, beq_iff_eq]
  constructor
  · rintro ⟨_, ⟨⟨n, hn, rfl⟩, hparent⟩, rfl⟩
    exact ⟨n, hn, rfl, hparent⟩
  · rintro ⟨n, hn, rfl, hparent⟩
    exact ⟨n.entry, ⟨⟨n, hn, rfl⟩, hparent⟩, rfl⟩

theorem pairwise_childrenOf (hb : b.Unrooted) (i : Nat) :
    (b.childrenOf i).Pairwise (· < ·) := by
  have hsub : (b.childrenOf i).Sublist (b.entries.map Prod.fst) := List.filter_sublist.map _
  rw [map_fst_entries hb] at hsub
  exact List.pairwise_lt_range.sublist hsub

theorem childrenOf_eq_nil (hb : b.Unrooted) (hi : b.size ≤ i) : b.childrenOf i = [] := by
  rw [List.eq_nil_iff_forall_not_mem]
  intro j hj
  obtain ⟨n, hn, -, hparent⟩ := mem_childrenOf.1 hj
  have hlt := (placed_of_mem hb hn).lt _ (List.mem_of_mem_head? hparent)
  obtain ⟨hsize, -⟩ := List.getElem?_eq_some_iff.1 (getElem?_entries hb hn)
  rw [length_entries hb] at hsize
  omega

theorem childrenOf_restate {say : Nat → NodeData → NodeData}
    (h : b'.entries = b.entries.map (restate say)) (i : Nat) :
    b'.childrenOf i = b.childrenOf i := by
  rw [childrenOf, h, List.filter_map, List.map_map]
  rfl

theorem childrenOf_snoc {data : NodeData} {parent? : Option Nat}
    (h : b'.entries = b.entries ++ [(j, data, parent?)]) (i : Nat) :
    b'.childrenOf i = b.childrenOf i ++ if parent? = some i then [j] else [] := by
  rw [childrenOf, h, List.filter_append, List.map_append, childrenOf]
  by_cases hparent : parent? = some i
  · simp [hparent]
  · simp [hparent]

private theorem nodes_innermost (hb : b.Unrooted) (h : b.openNodes = node :: outer) :
    b.nodes = openTreeNodes outer ++ ⟨countOpen outer, node.toTree, openIds outer⟩ ::
      nodesAmong (countOpen outer + 1) (countOpen outer :: openIds outer) node.children := by
  rw [nodes_eq (hb (h ▸ List.cons_ne_nil _ _)), h, openTreeNodes]
  rfl

theorem innermost_mem_nodes (hb : b.Unrooted) (h : b.openNodes = node :: outer) :
    ⟨countOpen outer, node.toTree, openIds outer⟩ ∈ b.nodes := by
  rw [nodes_innermost hb h]
  exact List.mem_append_right _ List.mem_cons_self

theorem child_mem_nodes {t : Tree} (hb : b.Unrooted) (h : b.openNodes = node :: outer)
    (ht : (i, t) ∈ numbered (countOpen outer + 1) node.children) :
    ⟨i, t, countOpen outer :: openIds outer⟩ ∈ b.nodes := by
  rw [nodes_innermost hb h]
  refine List.mem_append_right _ (List.mem_cons_of_mem _ ?_)
  exact Tree.mem_nodesAmong_numbered ht

/-- The children of the innermost open node are those that are finished. -/
theorem childrenOf_innermost (hb : b.Unrooted) (h : b.openNodes = node :: outer) :
    b.childrenOf (countOpen outer) =
      (numbered (countOpen outer + 1) node.children).map Prod.fst := by
  apply (pairwise_childrenOf hb _).eq_of_mem_iff (Tree.pairwise_numbered ..)
  intro j
  have hnodes := nodes_innermost hb h
  rw [mem_childrenOf]
  constructor
  · rintro ⟨n, hn, rfl, hparent⟩
    have hlt : countOpen outer < n.id := (placed_of_mem hb hn).lt _ (List.mem_of_mem_head? hparent)
    rw [hnodes] at hn
    rcases List.mem_append.1 hn with hn | hn
    · exact absurd hlt (Nat.not_lt_of_gt (lt_of_mem_openTreeNodes hn))
    · rcases List.mem_cons.1 hn with rfl | hn
      · exact absurd hlt (Nat.lt_irrefl _)
      · rcases Tree.mem_nodesAmong hn with ⟨i, t, ht, rfl⟩ | ⟨p, hp, hc⟩
        · exact List.mem_map_of_mem (f := Prod.fst) ht
        · rw [hc.parent?_eq, Option.some.injEq] at hparent
          have hlo := (Tree.bounds_of_mem_nodesAmong hp).1
          omega
  · intro hj
    obtain ⟨⟨i, t⟩, ht, rfl⟩ := List.mem_map.1 hj
    exact ⟨_, child_mem_nodes hb h ht, rfl, rfl⟩

private theorem nodes_of_finish {ast : Ast} (h : b.finish = .ok ast) : b.nodes = ast.nodes := by
  obtain ⟨hopen, hroot, -⟩ := finish_eq_ok_iff.1 h
  rw [TreeBuilder.nodes, hopen, hroot]
  rfl

theorem entries_of_finish {ast : Ast} (h : b.finish = .ok ast) :
    b.entries = ast.nodes.map Ast.Node.entry := by
  rw [entries_eq, nodes_of_finish h]

theorem childrenOf_finished {ast : Ast} (hb : b.Unrooted) (h : b.finish = .ok ast)
    (hn : n ∈ ast.nodes) : b.childrenOf n.id = n.childIds := by
  have hnodes := nodes_of_finish h
  apply (pairwise_childrenOf hb _).eq_of_mem_iff (Tree.pairwise_numbered ..)
  intro j
  rw [mem_childrenOf, hnodes]
  constructor
  · rintro ⟨m, hm, rfl, hparent⟩
    have hne : m.id ≠ 0 := by
      have hlt := (placed_of_mem hb (hnodes ▸ hm)).lt _ (List.mem_of_mem_head? hparent)
      omega
    obtain ⟨p, hp, hc⟩ := Ast.exists_childOf hm hne
    rw [hc.parent?_eq, Option.some.injEq] at hparent
    exact Ast.eq_of_id_eq hp hn hparent ▸ hc.mem_childIds
  · intro hj
    obtain ⟨⟨i, t⟩, ht, rfl⟩ := List.mem_map.1 hj
    have hc : Ast.Node.ChildOf ⟨i, t, n.id :: n.ancestors⟩ n := ⟨rfl, ht⟩
    exact ⟨_, Tree.mem_nodesFrom_of_childOf hn hc, rfl, rfl⟩

end Nodes

end TreeBuilder

end SourceModel
