import SourceModel.Proofs.Tree.Nesting
import SourceModel.Tree.Builder

/-!
# What the builder accepts

A builder accepts a position when its innermost open node starts no later and has no child that
ends later. From there on, calls that go forward in the source are refused only if the tree grows
too large, and each of them adds what it says below the innermost open node.
-/

namespace SourceModel

/-- The empty region where a region starts. -/
def Region.opening (region : Region) : Region :=
  ⟨region.offset, 0, Nat.lt_of_le_of_lt region.offset_le_stop region.stop_lt_naOffset⟩

/-- Where the next child of an open node may start. -/
def OpenNode.reach (node : OpenNode) : Nat :=
  (node.children.getLast?.map fun t => t.region.stop).getD node.data.region.offset

namespace TreeBuilder

open SourceModel.Tree (NestedIn sizes)

/-- The answer `r` of a call after which there are `n` nodes; too many are refused. -/
def within {α : Type} (n : Nat) (r : α) : Except Fault α :=
  if n ≤ maxNodes then .ok r else .error (.internal "AST arena exceeds u32 node ids")

section Within

variable {α β : Type} {n m : Nat} {r : α} {s : β}

theorem ok_bind (a : α) (f : α → Except Fault β) : (Except.ok a >>= f) = f a := rfl

theorem bind_eq_ok {x : Except Fault α} {f : α → Except Fault β} {b : β} (h : x >>= f = .ok b) :
    ∃ a, x = .ok a ∧ f a = .ok b := by
  cases x with
  | error fault => cases h
  | ok a => exact ⟨a, rfl, h⟩

theorem within_of_le (h : n ≤ maxNodes) : within n r = .ok r := if_pos h

theorem eq_of_within {a : α} (h : within n r = .ok a) : a = r := by
  unfold within at h
  split at h
  · exact (Except.ok.inj h).symm
  · cases h

theorem within_bind {f : α → Except Fault β} (hnm : n ≤ m)
    (h : n ≤ maxNodes → f r = within m s) : (within n r >>= f) = within m s := by
  unfold within
  split
  · rename_i hn
    exact h hn
  · rename_i hn
    rw [if_neg (by omega)]
    rfl

end Within

/-- The builder with finished trees below the innermost open node. -/
def addAll (b : TreeBuilder) (ts : List Tree) : TreeBuilder :=
  match b.openNodes with
  | [] => b
  | parent :: outer =>
    { b with openNodes := { parent with children := parent.children ++ ts } :: outer }

def opened (b : TreeBuilder) (data : NodeData) : TreeBuilder :=
  { b with openNodes := { data } :: b.openNodes }

structure Accepts (b : TreeBuilder) (pos : Nat) : Prop where
  unfinished : b.root? = none
  size_le : b.size ≤ maxNodes
  exists_open : ∃ parent outer, b.openNodes = parent :: outer ∧ parent.data.region.offset ≤ pos ∧
    ∀ child, parent.children.getLast? = some child → child.region.stop ≤ pos

section Accepts

variable {b : TreeBuilder} {pos start stop : Nat} {t : Tree} {ts us : List Tree}
  {data : NodeData}

theorem Accepts.openNodes_ne_nil (h : b.Accepts pos) : b.openNodes ≠ [] := by
  obtain ⟨parent, outer, ho, _⟩ := h.exists_open
  rw [ho]
  exact List.cons_ne_nil _ _

theorem addAll_nil : b.addAll [] = b := by
  obtain ⟨language, openNodes, root?⟩ := b
  cases openNodes with
  | nil => rfl
  | cons parent outer => simp [addAll]

theorem addAll_append : b.addAll (ts ++ us) = (b.addAll ts).addAll us := by
  obtain ⟨language, openNodes, root?⟩ := b
  cases openNodes with
  | nil => rfl
  | cons parent outer => simp [addAll]

private theorem add_eq_addAll (h : b.openNodes ≠ []) : b.add t = b.addAll [t] := by
  obtain ⟨language, openNodes, root?⟩ := b
  cases openNodes with
  | nil => exact absurd rfl h
  | cons parent outer => rfl

theorem size_addAll (h : b.openNodes ≠ []) : (b.addAll ts).size = b.size + sizes ts := by
  obtain ⟨language, openNodes, root?⟩ := b
  cases openNodes with
  | nil => exact absurd rfl h
  | cons parent outer =>
    simp only [addAll, size, countOpen, OpenNode.size, Tree.sizes_append]
    omega

theorem size_opened : (b.opened data).size = b.size + 1 := by
  simp only [opened, size, countOpen, OpenNode.size, sizes]
  omega

theorem Accepts.addAll (h : b.Accepts pos) (hts : NestedIn pos stop ts)
    (hn : b.size + sizes ts ≤ maxNodes) : (b.addAll ts).Accepts stop := by
  have hsize : (b.addAll ts).size = b.size + sizes ts := size_addAll h.openNodes_ne_nil
  obtain ⟨parent, outer, ho, hp, hc⟩ := h.exists_open
  have hle := hts.le
  refine ⟨?_, by omega, { parent with children := parent.children ++ ts }, outer, ?_, ?_, ?_⟩
  · simp only [TreeBuilder.addAll, ho, h.unfinished]
  · simp only [TreeBuilder.addAll, ho]
  · exact Nat.le_trans hp hle
  · intro child hm
    cases ts with
    | nil => exact Nat.le_trans (hc child (by simpa using hm)) hle
    | cons t ts =>
      rw [List.getLast?_append, List.getLast?_cons, Option.some_or, ← List.getLast?_cons] at hm
      exact hts.getLast?_stop_le hm

theorem Accepts.opened (h : b.Accepts pos) (hn : b.size + 1 ≤ maxNodes)
    (hd : data.region.offset = start) : (b.opened data).Accepts start := by
  refine ⟨h.unfinished, by rwa [size_opened], { data }, b.openNodes, rfl, Nat.le_of_eq hd, ?_⟩
  intro child hm
  cases hm

end Accepts

/-! ## Calls -/

section Calls

variable {b : TreeBuilder} {pos start stop : Nat} {ts : List Tree} {data : NodeData}
  {kind : SyntaxKind}

private theorem checkStart_eq (h : b.Accepts pos) (hs : pos ≤ start) :
    b.checkStart kind start = within (b.size + 1) () := by
  obtain ⟨parent, outer, ho, hp, hc⟩ := h.exists_open
  have hparent : ¬ start < parent.data.region.offset := by omega
  have hsize : within (b.size + 1) () = if b.size ≥ maxNodes then
      .error (.internal "AST arena exceeds u32 node ids") else .ok () := by
    unfold within
    by_cases hb : b.size ≥ maxNodes
    · rw [if_neg (by omega), if_pos hb]
    · rw [if_pos (by omega), if_neg hb]
  rw [hsize]
  unfold checkStart
  rw [ho]
  simp only [if_neg hparent]
  cases hl : parent.children.getLast? with
  | none =>
    by_cases hb : b.size ≥ maxNodes <;> simp [hb] <;> rfl
  | some child =>
    have hchild : ¬ start < child.region.stop := by
      have := hc child hl
      omega
    by_cases hb : b.size ≥ maxNodes <;> simp [hb, hchild] <;> rfl

theorem startNode_eq (h : b.Accepts pos) (hs : pos ≤ start) (region : Region)
    (hr : region.offset = start) (hl : region.length = 0) :
    b.startNode kind start = within (b.size + 1) (b.size, b.opened { kind, region }) := by
  have he : Region.empty? start = .ok region := Region.make?_eq_ok_iff.2 ⟨hr, hl⟩
  unfold startNode
  rw [he]
  change (b.checkStart kind start >>= _) = _
  rw [checkStart_eq h hs]
  exact within_bind (Nat.le_refl _) fun hn => (within_of_le hn).symm

theorem addLeaf_eq (h : b.Accepts pos) (hs : pos ≤ data.region.offset) :
    b.addLeaf data = within (b.size + 1) (b.size, b.addAll [.leaf data]) := by
  unfold addLeaf
  rw [checkStart_eq h hs]
  refine within_bind (Nat.le_refl _) fun hn => ?_
  rw [within_of_le hn, ← add_eq_addAll h.openNodes_ne_nil]
  rfl

/-- The status of a node with the given children: an error below is marked. -/
def statusOver (ts : List Tree) : Status :=
  if ts.any fun t => t.status.hasAnyError then Status.ok.markBelow else .ok

private theorem closeData_eq (id : Nat) (kind : SyntaxKind) (region opening : Region)
    (text : Option String) (hts : NestedIn region.offset region.stop ts)
    (ho : opening.offset = region.offset) :
    closeData id { data := { kind, region := opening, text }, children := ts } region.stop =
      .ok { kind, region, status := statusOver ts, text } := by
  have hr : Region.ofBounds? opening.offset region.stop = .ok region :=
    Region.ofBounds?_eq_ok_iff.2 ⟨ho.symm, rfl⟩
  unfold closeData
  cases hl : ts.getLast? with
  | none =>
    simp only [hr]
    rfl
  | some child =>
    have hchild : ¬ region.stop < child.region.stop := by
      have := hts.getLast?_stop_le hl
      omega
    simp only [hchild, if_false, hr]
    rfl

/-- What a node that has been closed says about itself. -/
structure Closed (node : OpenNode) (stop : Nat) (data : NodeData) : Prop where
  kind_eq : data.kind = node.data.kind
  offset_eq : data.region.offset = node.data.region.offset
  stop_eq : data.region.stop = stop
  reach_le : node.reach ≤ stop

theorem closeData_eq_ok {id : Nat} {node : OpenNode} (h : closeData id node stop = .ok data) :
    Closed node stop data := by
  have hclosed : ∀ {status : Status}, (node.data.region.offset ≤ stop → node.reach ≤ stop) →
      (Region.ofBounds? node.data.region.offset stop >>= fun region =>
        pure { node.data with region, status }) = .ok data → Closed node stop data := by
    intro status hreach hbind
    obtain ⟨region, hr, hdata⟩ := bind_eq_ok hbind
    obtain ⟨hoffset, hstop⟩ := Region.ofBounds?_eq_ok_iff.1 hr
    have hle := region.offset_le_stop
    cases hdata
    exact ⟨rfl, hoffset, hstop, hreach (by omega)⟩
  unfold closeData at h
  cases hl : node.children.getLast? with
  | none =>
    simp only [hl] at h
    refine hclosed (fun hle => ?_) h
    simpa [OpenNode.reach, hl] using hle
  | some child =>
    by_cases hlt : stop < child.region.stop
    · simp only [hl, if_pos hlt] at h
      cases h
    · simp only [hl, if_neg hlt] at h
      refine hclosed (fun _ => ?_) h
      simp only [OpenNode.reach, hl, Option.map_some, Option.getD_some]
      omega

/-- A node closes around nested children. -/
theorem finishNode_eq (h : b.Accepts pos) (region opening : Region) (text : Option String)
    (hts : NestedIn region.offset region.stop ts) (ho : opening.offset = region.offset) :
    ((b.opened { kind, region := opening, text }).addAll ts).finishNode region.stop =
      (.ok b.size,
        b.addAll [.node { kind, region, status := statusOver ts, text } ts none]) := by
  have hsize : b.size = countOpen b.openNodes := by simp [size, h.unfinished]
  rw [← add_eq_addAll h.openNodes_ne_nil]
  simp only [finishNode, addAll, opened, List.nil_append,
    closeData_eq _ kind region opening text hts ho, hsize]
  rfl

/-! ## Roots -/

def new (language : String) : TreeBuilder := { language }

theorem startNode_new (language : String) (kind : SyntaxKind) (region : Region)
    (hr : region.offset = start) (hl : region.length = 0) :
    (new language).startNode kind start = .ok (0, (new language).opened { kind, region }) := by
  have he : Region.empty? start = .ok region := Region.make?_eq_ok_iff.2 ⟨hr, hl⟩
  unfold startNode
  rw [he]
  rfl

theorem accepts_root (language : String) (data : NodeData) (hd : data.region.offset = start) :
    ((new language).opened data).Accepts start := by
  refine ⟨rfl, ?_, { data }, [], rfl, Nat.le_of_eq hd, fun child hm => nomatch hm⟩
  rw [size_opened]
  exact (by decide : 0 + 1 ≤ maxNodes)

theorem size_root (language : String) (data : NodeData) : ((new language).opened data).size = 1 :=
  rfl

theorem finishNode_root (language : String) (kind : SyntaxKind) (region opening : Region)
    (hts : NestedIn region.offset region.stop ts) (ho : opening.offset = region.offset) :
    (((new language).opened { kind, region := opening }).addAll ts).finishNode region.stop =
      (.ok 0, { new language with
        root? := some (.node { kind, region, status := statusOver ts } ts none) }) := by
  simp only [finishNode, addAll, opened, new, List.nil_append, countOpen,
    closeData_eq _ kind region opening none hts ho]
  rfl

/-! ## Changes of the newest node -/

section Newest

variable {above f : NodeData → NodeData}

private theorem modifyAmong_snoc (ts : List Tree) (data : NodeData) :
    Tree.modifyAmong above (Tree.mapData f) (sizes ts) (ts ++ [.leaf data]) =
      ts ++ [.leaf (f data)] := by
  induction ts with
  | nil => simp [Tree.modifyAmong, sizes, Tree.leaf, Tree.size, Tree.modify, Tree.mapData]
  | cons t ts ih =>
    have hlt : ¬ t.size + sizes ts < t.size := by omega
    rw [List.cons_append, Tree.modifyAmong, sizes, if_neg hlt, Nat.add_sub_cancel_left, ih]
    rfl

theorem modifyData_leaf (h : b.Accepts pos) (data : NodeData) :
    (b.addAll [.leaf data]).modifyData above f b.size = .ok (b.addAll [.leaf (f data)]) := by
  have hsize : (b.addAll [.leaf data]).size = b.size + 1 := by
    rw [size_addAll h.openNodes_ne_nil]
    simp [sizes, Tree.leaf, Tree.size]
  obtain ⟨parent, outer, ho, _⟩ := h.exists_open
  have hb : b.size = countOpen outer + (1 + sizes parent.children) := by
    simp [size, ho, h.unfinished, countOpen, OpenNode.size]
  unfold modifyData
  rw [hsize, if_pos (Nat.lt_succ_self _)]
  simp only [addAll, ho, modifyOpen, h.unfinished, Option.map_none]
  rw [if_neg (by omega), if_neg (by omega),
    show b.size - countOpen outer - 1 = sizes parent.children by omega, modifyAmong_snoc]

theorem modifyData_opened (h : b.Accepts pos) (data : NodeData) :
    (b.opened data).modifyData above f b.size = .ok (b.opened (f data)) := by
  have hsize : b.size = countOpen b.openNodes := by simp [size, h.unfinished]
  unfold modifyData
  rw [size_opened, if_pos (Nat.lt_succ_self _)]
  simp only [opened, modifyOpen, h.unfinished, Option.map_none, hsize, Nat.lt_irrefl, if_false,
    if_true]

end Newest

end Calls

end TreeBuilder

end SourceModel
