import SourceModel.Proofs.Entries
import SourceModel.Proofs.Tree.Spans

/-!
# Marks for errors below

A node is marked for an error below in two ways: a status that is set marks the finished nodes
above, and a close looks at the children. The two meet at the innermost open node, so in a finished
tree every node above one in error is marked. A mark is never taken away. If no node gets a second
status, no node is marked without reason either.
-/

namespace SourceModel

def Status.unmarked (s : Status) : Status := { s with hasErrorBelow := false }

/-! ## Every error is marked above -/

namespace Tree

mutual
/-- Whether every node with a child that is in error, or over one, is marked. -/
def Marked : Tree → Prop
  | .node data children _ =>
    ((children.any fun c => c.status.hasAnyError) = true → data.status.hasErrorBelow = true) ∧
      MarkedAmong children

def MarkedAmong : List Tree → Prop
  | [] => True
  | t :: ts => t.Marked ∧ MarkedAmong ts
end

/-- A change of one node takes no mark away, and marks what lies above where it brings an error. -/
structure Raises (above f : NodeData → NodeData) : Prop where
  keeps : ∀ data, data.status.hasErrorBelow = true → (f data).status.hasErrorBelow = true
  keeps_above : ∀ data, data.status.hasErrorBelow = true →
    (above data).status.hasErrorBelow = true
  raises : ∀ data, (f data).status.hasAnyError = true →
    data.status.hasAnyError = true ∨ ∀ outer, (above outer).status.hasErrorBelow = true
  raises_above : ∀ data, (above data).status.hasAnyError = true →
    data.status.hasAnyError = true ∨ ∀ outer, (above outer).status.hasErrorBelow = true

section Marked

variable {above f : NodeData → NodeData} {t : Tree} {ts us : List Tree}

private theorem markedAmong_iff (ts : List Tree) : MarkedAmong ts ↔ ∀ t ∈ ts, t.Marked := by
  induction ts with
  | nil => simp [MarkedAmong]
  | cons t ts ih => simp [MarkedAmong, ih]

private theorem marked_leaf (data : NodeData) : (leaf data).Marked :=
  ⟨fun h => absurd h (by simp), trivial⟩

private theorem Raises.hasAnyError_modify (h : Raises above f) (id : Nat) (t : Tree)
    (herror : (t.modify above (mapData f) id).status.hasAnyError = true) :
    t.status.hasAnyError = true ∨ ∀ outer, (above outer).status.hasErrorBelow = true := by
  obtain ⟨data, children, foreign⟩ := t
  cases id with
  | zero => exact h.raises data herror
  | succ id => exact h.raises_above data herror

private theorem Raises.any_modifyAmong (h : Raises above f) (id : Nat) (ts : List Tree)
    (herror : ((modifyAmong above (mapData f) id ts).any fun c => c.status.hasAnyError) = true) :
    (ts.any fun c => c.status.hasAnyError) = true ∨
      ∀ outer, (above outer).status.hasErrorBelow = true := by
  induction ts generalizing id with
  | nil => simp [modifyAmong] at herror
  | cons t ts ih =>
    rw [modifyAmong] at herror
    rw [List.any_cons, Bool.or_eq_true]
    split at herror <;> rw [List.any_cons, Bool.or_eq_true] at herror
    · rcases herror with herror | herror
      · exact (h.hasAnyError_modify id t herror).imp_left .inl
      · exact .inl (.inr herror)
    · rcases herror with herror | herror
      · exact .inl (.inl herror)
      · exact (ih _ herror).imp_left .inr

mutual
private theorem Marked.modify (hr : Raises above f) : ∀ (id : Nat) {t : Tree}, t.Marked →
    (t.modify above (mapData f) id).Marked
  | 0, .node data children foreign, h => by
    rw [Tree.modify, mapData, Marked]
    exact ⟨fun herror => hr.keeps data (h.1 herror), h.2⟩
  | id + 1, .node data children foreign, h => by
    rw [Tree.modify, Marked]
    refine ⟨fun herror => ?_, MarkedAmong.modifyAmong hr id h.2⟩
    rcases hr.any_modifyAmong id children herror with hbefore | hover
    · exact hr.keeps_above data (h.1 hbefore)
    · exact hover data

private theorem MarkedAmong.modifyAmong (hr : Raises above f) : ∀ (id : Nat) {ts : List Tree},
    MarkedAmong ts → MarkedAmong (modifyAmong above (mapData f) id ts)
  | _, [], _ => by simp [Tree.modifyAmong, MarkedAmong]
  | id, t :: ts, h => by
    rw [Tree.modifyAmong]
    split
    · exact ⟨Marked.modify hr id h.1, h.2⟩
    · exact ⟨h.1, MarkedAmong.modifyAmong hr (id - t.size) h.2⟩
end

mutual
private theorem Marked.of_mem_nodesFrom :
    ∀ {id : Nat} {ancestors : List Nat} {t : Tree} {n : Ast.Node},
    t.Marked → n ∈ t.nodesFrom id ancestors → n.tree.Marked
  | id, ancestors, .node data children foreign, n, h, hn => by
    rw [nodesFrom] at hn
    rcases List.mem_cons.1 hn with rfl | hn
    · exact h
    · exact MarkedAmong.of_mem_nodesAmong h.2 hn

private theorem MarkedAmong.of_mem_nodesAmong : ∀ {id : Nat} {ancestors : List Nat} {ts : List Tree}
    {n : Ast.Node}, MarkedAmong ts → n ∈ nodesAmong id ancestors ts → n.tree.Marked
  | id, ancestors, t :: ts, n, h, hn => by
    rw [nodesAmong] at hn
    rcases List.mem_append.1 hn with hn | hn
    · exact Marked.of_mem_nodesFrom h.1 hn
    · exact MarkedAmong.of_mem_nodesAmong h.2 hn
end

end Marked

end Tree

namespace Ast

variable {ast : Ast} {n p : Node}

private theorem hasErrorBelow_of_childOf (h : ast.root.Marked) (hp : p ∈ ast.nodes)
    (hc : n.ChildOf p) (herror : n.tree.status.hasAnyError = true) :
    p.tree.status.hasErrorBelow = true := by
  have hmarked := h.of_mem_nodesFrom hp
  have hmem := Tree.mem_of_mem_numbered hc.mem
  obtain ⟨id, ⟨data, children, foreign⟩, ancestors⟩ := p
  exact hmarked.1 (List.any_eq_true.2 ⟨n.tree, hmem, herror⟩)

private theorem hasErrorBelow_of_mem_ancestors (h : ast.root.Marked) (hn : n ∈ ast.nodes)
    (herror : n.tree.status.hasAnyError = true) (hp : p ∈ ast.nodes) (hover : p.id ∈ n.ancestors) :
    p.tree.status.hasErrorBelow = true := by
  induction hdepth : n.ancestors generalizing n with
  | nil =>
    rw [hdepth] at hover
    cases hover
  | cons parent ancestors ih =>
    have hroot : n.id ≠ 0 := by
      intro h0
      rw [eq_of_id_eq hn ast.rootNode_mem h0] at hdepth
      cases hdepth
    obtain ⟨q, hq, hc⟩ := exists_childOf hn hroot
    have hmark := hasErrorBelow_of_childOf h hq hc herror
    rw [hc.ancestors_eq] at hover hdepth
    rcases List.mem_cons.1 hover with heq | hover
    · exact eq_of_id_eq hp hq heq ▸ hmark
    · -- The mark of the parent counts as an error for the nodes above it.
      refine ih hq ?_ hover (List.cons.inj hdepth).2
      rw [Status.hasAnyError, hmark, Bool.or_true]

end Ast

namespace TreeBuilder

open SourceModel.Tree (Marked MarkedAmong Raises)

section Marking

variable {b b' : TreeBuilder} {above f : NodeData → NodeData} {id : Nat} {t : Tree}

structure Marking (b : TreeBuilder) : Prop where
  openNodes : ∀ node ∈ b.openNodes, MarkedAmong node.children
  root : ∀ t ∈ b.root?, t.Marked

private theorem marking_new (language : String) : (new language).Marking where
  openNodes _ h := nomatch h
  root _ h := nomatch h

private theorem Marking.add (h : b.Marking) (ht : t.Marked) : (b.add t).Marking := by
  obtain ⟨language, openNodes, root?⟩ := b
  cases openNodes with
  | nil =>
    refine ⟨h.openNodes, fun u hu => ?_⟩
    cases hu
    exact ht
  | cons parent outer =>
    refine ⟨fun node hnode => ?_, h.root⟩
    rcases List.mem_cons.1 hnode with rfl | hnode
    · rw [Tree.markedAmong_iff]
      intro u hu
      rcases List.mem_append.1 hu with hu | hu
      · exact (Tree.markedAmong_iff _).1 (h.openNodes parent List.mem_cons_self) u hu
      · exact List.mem_singleton.1 hu ▸ ht
    · exact h.openNodes node (List.mem_cons_of_mem _ hnode)

private theorem Marking.opened (h : b.Marking) (data : NodeData) : (b.opened data).Marking := by
  refine ⟨fun node hnode => ?_, h.root⟩
  rcases List.mem_cons.1 hnode with rfl | hnode
  · trivial
  · exact h.openNodes node hnode

private theorem markedAmong_modifyOpen (hr : Raises above f) {nodes : List OpenNode}
    (h : ∀ node ∈ nodes, MarkedAmong node.children) :
    ∀ node ∈ modifyOpen above f id nodes, MarkedAmong node.children := by
  induction nodes with
  | nil => exact h
  | cons node outer ih =>
    have hnode := h node List.mem_cons_self
    have houter := fun other hother => h other (List.mem_cons_of_mem _ hother)
    rw [modifyOpen]
    split
    · exact List.forall_mem_cons.2 ⟨hnode, ih houter⟩
    · split
      · exact List.forall_mem_cons.2 ⟨hnode, houter⟩
      · exact List.forall_mem_cons.2 ⟨hnode.modifyAmong hr _, houter⟩

private theorem Marking.modifyData (h : b.Marking) (hr : Raises above f) :
    (b.changing (b.modifyData above f id)).2.Marking := by
  unfold TreeBuilder.modifyData
  split
  · refine ⟨markedAmong_modifyOpen hr h.openNodes, fun t ht => ?_⟩
    obtain ⟨root, hroot, rfl⟩ := Option.map_eq_some_iff.1 ht
    exact (h.root root hroot).modify hr id
  · exact h

private theorem status_of_closeData {node : OpenNode} {stop : Nat} {data : NodeData}
    (h : closeData id node stop = .ok data) :
    data.status = if node.children.any fun child => child.status.hasAnyError then
      node.data.status.markBelow else node.data.status := by
  have hbind : ∀ {status : Status}, (Region.ofBounds? node.data.region.offset stop >>= fun region =>
      pure { node.data with region, status }) = .ok data → data.status = status := by
    intro status hok
    obtain ⟨region, -, hdata⟩ := bind_eq_ok hok
    cases hdata
    rfl
  unfold closeData at h
  cases hl : node.children.getLast? with
  | none =>
    simp only [hl] at h
    exact hbind h
  | some child =>
    by_cases hlt : stop < child.region.stop
    · simp only [hl, if_pos hlt] at h
      cases h
    · simp only [hl, if_neg hlt] at h
      exact hbind h

private theorem Marking.finishNode {stop : Nat} (h : b.Marking)
    (hok : (b.finishNode stop).1.isOk = true) : (b.finishNode stop).2.Marking := by
  obtain ⟨language, openNodes, root?⟩ := b
  cases openNodes with
  | nil => cases hok
  | cons node outer =>
    simp only [TreeBuilder.finishNode] at hok ⊢
    cases hclose : closeData (countOpen outer) node stop with
    | error fault =>
      rw [hclose] at hok
      cases hok
    | ok data =>
      have houter : Marking ⟨language, outer, root?⟩ :=
        ⟨fun other hother => h.openNodes other (List.mem_cons_of_mem _ hother), h.root⟩
      refine houter.add ⟨fun herror => ?_, h.openNodes node List.mem_cons_self⟩
      change data.status.hasErrorBelow = true
      rw [status_of_closeData hclose, if_pos herror, Status.markBelow]

private theorem raises_of_status_eq (h : ∀ data, (f data).status = data.status) :
    Raises (fun above => above) f where
  keeps data hmark := by rwa [h]
  keeps_above _ hmark := hmark
  raises data herror := .inl (by rwa [h] at herror)
  raises_above _ herror := .inl herror

/-- What setting a status does to the nodes above. -/
def statusAbove (status : Status) (above : NodeData) : NodeData :=
  if status.hasAnyError then { above with status := above.status.markBelow } else above

def statusAt (status : Status) (data : NodeData) : NodeData :=
  { data with
    status := { status with hasErrorBelow := status.hasErrorBelow || data.status.hasErrorBelow } }

theorem setStatus_eq (b : TreeBuilder) (id : Nat) (status : Status) :
    b.setStatus id status = b.modifyData (statusAbove status) (statusAt status) id := rfl

private theorem raises_setStatus (status : Status) :
    Raises (statusAbove status) (statusAt status) := by
  have hover : status.hasAnyError = true →
      ∀ outer, (statusAbove status outer).status.hasErrorBelow = true := by
    intro herror outer
    rw [statusAbove, if_pos herror, Status.markBelow]
  refine ⟨fun data hmark => ?_, fun data hmark => ?_, fun data herror => ?_, fun data herror => ?_⟩
  · simp only [statusAt, hmark, Bool.or_true]
  · unfold statusAbove
    split
    · rfl
    · exact hmark
  · simp only [statusAt, Status.hasAnyError, Bool.or_eq_true] at herror hover ⊢
    rcases herror with herror | herror | herror
    · exact .inr (hover (.inl herror))
    · exact .inr (hover (.inr herror))
    · exact .inl (.inr herror)
  · unfold statusAbove at herror
    split at herror
    · rename_i hset
      exact .inr (hover hset)
    · exact .inl herror

private theorem Marking.addLeaf {data : NodeData} (h : b.Marking) :
    (b.adding (b.addLeaf data)).2.Marking := by
  cases hr : b.addLeaf data with
  | error fault => exact h
  | ok answer =>
    obtain ⟨-, -, hb'⟩ := addLeaf_eq_ok hr
    simp only [adding, hb']
    exact h.add (Tree.marked_leaf data)

/-- Every call keeps the finished nodes marked, a close as long as it is accepted. -/
theorem Marking.call (h : b.Marking) (c : BuildCall)
    (hc : c.isFinish = true → (b.call c).1.isOk = true) : (b.call c).2.Marking := by
  cases c with
  | start kind offset =>
    simp only [TreeBuilder.call]
    cases hr : b.startNode kind offset with
    | error fault => exact h
    | ok answer =>
      obtain ⟨-, -, region, -, hb'⟩ := startNode_eq_ok hr
      simp only [adding, hb']
      exact h.opened _
  | finish stop =>
    apply h.finishNode
    have hok : ((b.finishNode stop).1.map some).isOk = true := hc rfl
    cases hr : (b.finishNode stop).1 with
    | error fault => rw [hr] at hok; cases hok
    | ok id => rfl
  | leaf kind region => exact h.addLeaf
  | textLeaf kind region text => exact h.addLeaf
  | setText id text => exact h.modifyData (raises_of_status_eq fun _ => rfl)
  | setStatus id status => exact h.modifyData (raises_setStatus status)
  | markEmbedding id language flags => exact h.modifyData (raises_of_status_eq fun _ => rfl)

private theorem Marking.after (h : b.Marking) {calls : List BuildCall}
    (hc : b.closes calls = true) : (b.after calls).Marking := by
  induction calls generalizing b with
  | nil => exact h
  | cons c calls ih =>
    simp only [closes, Bool.and_eq_true, Bool.or_eq_true, Bool.not_eq_true'] at hc
    obtain ⟨hclose, hrest⟩ := hc
    exact ih (h.call c fun hfinish => hclose.resolve_left (by simp [hfinish])) hrest

end Marking

/-! ## Every mark has a reason -/

def setting? (b : TreeBuilder) (c : BuildCall) : Option (Nat × Status) :=
  match c, (b.call c).1 with
  | .setStatus id status, .ok _ => some (id, status)
  | _, _ => none

def settings (b : TreeBuilder) : List BuildCall → List (Nat × Status)
  | [] => []
  | c :: calls => (b.setting? c).toList ++ (b.call c).2.settings calls

/-- What a node says comes from the statuses that have been set, newest first: its mark from one
that was set on it with the mark, or from an error that was set below; the rest from the newest one
that was set on it. -/
structure Settled (log : List (Nat × Status)) (e : Span) : Prop where
  reason : e.data.status.hasErrorBelow = true →
    (∃ s, (e.id, s) ∈ log ∧ s.hasErrorBelow = true) ∨
      ∃ id s, (id, s) ∈ log ∧ s.hasAnyError = true ∧ e.Over id
  rest : e.data.status.unmarked = ((log.lookup e.id).getD .ok).unmarked

structure Recorded (b : TreeBuilder) (log : List (Nat × Status)) : Prop where
  settled : ∀ e ∈ b.spans, Settled log e
  known : ∀ entry ∈ log, entry.1 < b.size
  unrooted : b.Unrooted

section Recorded

variable {b b' : TreeBuilder} {log : List (Nat × Status)} {above f : NodeData → NodeData}
  {id : Nat} {status : Status} {e : Span}

private theorem Settled.exists_error (h : Settled log e) (herror : e.data.status.isError = true) :
    ∃ s, (e.id, s) ∈ log ∧ s.isError = true := by
  have hrest := congrArg Status.isError h.rest
  simp only [Status.unmarked, herror] at hrest
  cases hl : log.lookup e.id with
  | none =>
    rw [hl] at hrest
    cases hrest
  | some s =>
    rw [hl] at hrest
    exact ⟨s, mem_of_lookup hl, hrest.symm⟩

private theorem Settled.congr {e' : Span} (h : Settled log e) (hid : e'.id = e.id)
    (hsize : e'.size = e.size) (hstatus : e'.data.status = e.data.status) : Settled log e' := by
  obtain ⟨id, size, data⟩ := e'
  obtain ⟨hreason, hrest⟩ := h
  simp only at hid hsize hstatus
  subst hid hsize
  exact ⟨fun hmark => hreason (hstatus ▸ hmark), hstatus ▸ hrest⟩

private theorem Settled.widen {size size' : Nat} {data : NodeData}
    (h : Settled log ⟨id, size, data⟩) (hle : size ≤ size') : Settled log ⟨id, size', data⟩ := by
  refine ⟨fun hmark => ?_, h.rest⟩
  rcases h.reason hmark with hown | ⟨i, s, hs, herror, hlo, hhi⟩
  · exact .inl hown
  · exact .inr ⟨i, s, hs, herror, hlo, Nat.lt_of_lt_of_le hhi (Nat.add_le_add_left hle id)⟩

/-- The span of a node whose status is set, and those of the nodes above it. -/
theorem Settled.set (h : Settled log e) (id : Nat) (status : Status) :
    Settled ((id, status) :: log) (e.change (statusAbove status) (statusAt status) id) := by
  have hold : e.data.status.hasErrorBelow = true →
      (∃ s, (e.id, s) ∈ (id, status) :: log ∧ s.hasErrorBelow = true) ∨
        ∃ i s, (i, s) ∈ (id, status) :: log ∧ s.hasAnyError = true ∧ e.Over i := by
    intro hmark
    rcases h.reason hmark with ⟨s, hs, hset⟩ | ⟨i, s, hs, hrest⟩
    · exact .inl ⟨s, List.mem_cons_of_mem _ hs, hset⟩
    · exact .inr ⟨i, s, List.mem_cons_of_mem _ hs, hrest⟩
  by_cases hid : e.id = id
  · simp only [Span.change, if_pos hid]
    refine ⟨fun hmark => ?_, ?_⟩
    · rcases Bool.or_eq_true .. ▸ hmark with hset | hmark
      · exact .inl ⟨status, hid ▸ List.mem_cons_self, hset⟩
      · exact hold hmark
    · rw [lookup_entry, if_pos hid]
      rfl
  · by_cases hover : e.Over id
    · simp only [Span.change, if_neg hid, if_pos hover]
      refine ⟨fun hmark => ?_, ?_⟩
      · by_cases herror : status.hasAnyError = true
        · exact .inr ⟨id, status, List.mem_cons_self, herror, hover⟩
        · rw [statusAbove, if_neg herror] at hmark
          exact hold hmark
      · rw [lookup_entry, if_neg hid, ← h.rest]
        unfold statusAbove
        split <;> rfl
    · simp only [Span.change, if_neg hid, if_neg hover]
      exact ⟨hold, by rw [lookup_entry, if_neg hid, h.rest]⟩

private theorem recorded_new (language : String) : (new language).Recorded [] where
  settled _ h := nomatch h
  known _ h := nomatch h
  unrooted _ := rfl

private theorem Recorded.fresh (h : b.Recorded log) {data : NodeData} (hd : data.status = .ok)
    (size : Nat) : Settled log ⟨b.size, size, data⟩ := by
  refine ⟨fun hmark => ?_, ?_⟩
  · rw [hd] at hmark
    cases hmark
  · cases hl : log.lookup b.size with
    | none => rw [hd, Option.getD_none]
    | some s => exact absurd (h.known _ (mem_of_lookup hl)) (Nat.lt_irrefl _)

theorem size_add {t : Tree} (h : b.root? = none) : (b.add t).size = b.size + t.size := by
  obtain ⟨language, openNodes, root?⟩ := b
  subst h
  cases openNodes with
  | nil => simp [add, size, countOpen]
  | cons parent outer =>
    simp only [add, size, countOpen, OpenNode.size, Tree.sizes_append, Tree.sizes, Option.elim_none]
    omega

private theorem Recorded.addLeaf {data : NodeData} (h : b.Recorded log) (hd : data.status = .ok) :
    (b.adding (b.addLeaf data)).2.Recorded log := by
  cases hr : b.addLeaf data with
  | error fault => exact h
  | ok answer =>
    obtain ⟨hcheck, -, hb'⟩ := addLeaf_eq_ok hr
    have hroot := checkStart_eq_ok h.unrooted hcheck
    simp only [adding, hb']
    refine ⟨fun e he => ?_, fun entry hentry => ?_, .add hroot _⟩
    · rw [spans_add hroot] at he
      rcases List.mem_append.1 he with he | he
      · exact h.settled e he
      · rw [List.mem_singleton.1 he]
        exact h.fresh hd 1
    · rw [size_add hroot]
      exact Nat.lt_add_right _ (h.known entry hentry)

private theorem Recorded.opened {kind : SyntaxKind} (h : b.Recorded log) (region : Region)
    (hroot : b.root? = none) : (b.opened { kind, region }).Recorded log := by
  refine ⟨fun e he => ?_, fun entry hentry => ?_, fun _ => hroot⟩
  · rw [spans_opened hroot] at he
    rcases List.mem_append.1 he with he | he
    · exact h.settled e he
    · rw [List.mem_singleton.1 he]
      exact h.fresh rfl 1
  · rw [size_opened]
    exact Nat.lt_add_right _ (h.known entry hentry)

theorem size_modifyData (h : b.modifyData above f id = .ok b') : b'.size = b.size := by
  unfold modifyData at h
  split at h
  · cases h
    simp only [size, countOpen_modifyOpen]
    cases b.root? with
    | none => rfl
    | some root => simp only [Option.map_some, Option.elim_some, Tree.size_modify]
  · cases h

private theorem Unrooted.of_modifyData (h : b.Unrooted) (hok : b.modifyData above f id = .ok b') :
    b'.Unrooted := by
  have hchanging : (b.changing (b.modifyData above f id)).2.Unrooted := h.modifyData
  rwa [hok] at hchanging

private theorem Recorded.modifyData (h : b.Recorded log)
    (hf : ∀ data, (f data).status = data.status) :
    (b.changing (b.modifyData (fun above => above) f id)).2.Recorded log := by
  cases hr : b.modifyData (fun above => above) f id with
  | error fault => exact h
  | ok b' =>
    refine ⟨fun e he => ?_, fun entry hentry => ?_, h.unrooted.of_modifyData hr⟩
    · simp only [changing, spans_modifyData h.unrooted hr] at he
      obtain ⟨e, hmem, rfl⟩ := List.mem_map.1 he
      refine (h.settled e hmem).congr rfl rfl ?_
      simp only [Span.change]
      split
      · exact hf _
      · split <;> rfl
    · simp only [changing, size_modifyData hr]
      exact h.known entry hentry

private theorem Recorded.setStatus (h : b.Recorded log) (hok : b.setStatus id status = .ok b') :
    b'.Recorded ((id, status) :: log) := by
  rw [setStatus_eq] at hok
  refine ⟨fun e he => ?_, fun entry hentry => ?_, h.unrooted.of_modifyData hok⟩
  · rw [spans_modifyData h.unrooted hok] at he
    obtain ⟨e, hmem, rfl⟩ := List.mem_map.1 he
    exact (h.settled e hmem).set id status
  · rw [size_modifyData hok]
    rcases List.mem_cons.1 hentry with rfl | hentry
    · unfold TreeBuilder.modifyData at hok
      split at hok
      · assumption
      · cases hok
    · exact h.known entry hentry

private theorem exists_setting_of_any {ts : List Tree}
    (h : ∀ e ∈ Tree.spansAmong (id + 1) ts, Settled log e)
    (herror : (ts.any fun c => c.status.hasAnyError) = true) (data : NodeData) :
    ∃ i s, (i, s) ∈ log ∧ s.hasAnyError = true ∧ Span.Over ⟨id, 1 + Tree.sizes ts, data⟩ i := by
  obtain ⟨c, hc, herror⟩ := List.any_eq_true.1 herror
  obtain ⟨e, he, hdata⟩ := Tree.exists_span_of_mem (id + 1) hc
  have hbounds := Tree.span_bounds_among he
  rw [Tree.status, ← hdata] at herror
  rcases Bool.or_eq_true .. ▸ herror with herror | hmark
  · obtain ⟨s, hs, hset⟩ := (h e he).exists_error herror
    exact ⟨e.id, s, hs, by rw [Status.hasAnyError, hset, Bool.true_or], by simp only; omega,
      by simp only; omega⟩
  · rcases (h e he).reason hmark with ⟨s, hs, hset⟩ | ⟨i, s, hs, hset, hlo, hhi⟩
    · exact ⟨e.id, s, hs, by rw [Status.hasAnyError, hset, Bool.or_true], by simp only; omega,
        by simp only; omega⟩
    · exact ⟨i, s, hs, hset, by simp only; omega, by simp only; omega⟩

private theorem Recorded.finishNode {stop : Nat} (h : b.Recorded log) :
    (b.finishNode stop).2.Recorded log := by
  obtain ⟨language, openNodes, root?⟩ := b
  cases openNodes with
  | nil => exact h
  | cons node outer =>
    have hroot : root? = none := h.unrooted (List.cons_ne_nil _ _)
    subst hroot
    obtain ⟨hsettled, hknown, -⟩ := h
    simp only [spans, openSpans, Option.elim_none, List.append_nil, List.forall_mem_append,
      List.forall_mem_cons] at hsettled
    obtain ⟨houter, hself, hbelow⟩ := hsettled
    simp only [TreeBuilder.finishNode]
    generalize hdata : (closeData (countOpen outer) node stop).toOption.getD node.data = data
    have hclosed : Settled log ⟨countOpen outer, 1 + Tree.sizes node.children, data⟩ := by
      -- While the node was open it stood for itself only; now it is over its children.
      have hwide := hself.widen (Nat.le_add_right 1 (Tree.sizes node.children))
      cases hclose : closeData (countOpen outer) node stop with
      | error fault =>
        rw [hclose] at hdata
        exact hdata ▸ hwide
      | ok closed =>
        rw [hclose] at hdata
        have heq : closed = data := hdata
        subst heq
        have hstatus := status_of_closeData hclose
        split at hstatus
        · rename_i herror
          refine ⟨fun _ => .inr (exists_setting_of_any hbelow herror closed), ?_⟩
          rw [hstatus]
          exact hwide.rest
        · exact hwide.congr rfl rfl hstatus
    refine ⟨fun e he => ?_, fun entry hentry => ?_, .add rfl _⟩
    · rw [spans_add rfl] at he
      simp only [spans, Option.elim_none, List.append_nil, size, Nat.add_zero, Tree.spansFrom] at he
      rcases List.mem_append.1 he with he | he
      · exact houter e he
      · rcases List.mem_cons.1 he with rfl | he
        · exact hclosed
        · exact hbelow e he
    · have hlt := hknown entry hentry
      rw [size_add rfl]
      simpa only [size, countOpen, OpenNode.size, Tree.size, Option.elim_none, Nat.add_zero]
        using hlt

private theorem Recorded.call (h : b.Recorded log) (c : BuildCall) :
    (b.call c).2.Recorded ((b.setting? c).toList ++ log) := by
  cases c with
  | start kind offset =>
    simp only [TreeBuilder.call, setting?, Option.toList_none, List.nil_append]
    cases hr : b.startNode kind offset with
    | error fault => exact h
    | ok answer =>
      obtain ⟨hcheck, -, region, -, hb'⟩ := startNode_eq_ok hr
      simp only [adding, hb']
      exact h.opened region (checkStart_eq_ok h.unrooted hcheck)
  | finish stop => exact h.finishNode
  | leaf kind region => exact h.addLeaf rfl
  | textLeaf kind region text => exact h.addLeaf rfl
  | setText id text => exact h.modifyData fun _ => rfl
  | setStatus id status =>
    simp only [TreeBuilder.call, setting?]
    cases hr : b.setStatus id status with
    | error fault => exact h
    | ok b' => exact h.setStatus hr
  | markEmbedding id language flags => exact h.modifyData fun _ => rfl

private theorem Recorded.after (h : b.Recorded log) (calls : List BuildCall) :
    (b.after calls).Recorded ((b.settings calls).reverse ++ log) := by
  induction calls generalizing b log with
  | nil => exact h
  | cons c calls ih =>
    have hrest := ih (h.call c)
    rw [settings, List.reverse_append, List.append_assoc]
    cases hs : b.setting? c with
    | none =>
      rw [hs] at hrest
      exact hrest
    | some entry =>
      rw [hs] at hrest
      exact hrest

end Recorded

/-! ## Marks in a finished tree -/

section Finished

variable {log : List (Nat × Status)} {ast : Ast} {n d : Ast.Node}

private theorem exists_below_of_over (hn : n ∈ ast.nodes) {id : Nat} (h : n.span.Over id) :
    ∃ d ∈ ast.nodes, d.id = id ∧ n.id ∈ d.ancestors := by
  obtain ⟨hlo, hhi⟩ := h
  simp only [Ast.Node.span] at hlo hhi
  have hid : id ∈ n.subtree.map Ast.Node.id := by
    rw [Ast.Node.map_id_subtree, List.mem_range'_1]
    omega
  obtain ⟨d, hd, rfl⟩ := List.mem_map.1 hid
  obtain ⟨hmem, -, hself | hbelow⟩ := Ast.mem_nodes_of_mem_subtree hn hd
  · rw [hself] at hlo
    exact absurd hlo (Nat.lt_irrefl _)
  · exact ⟨d, hmem, rfl, hbelow⟩

private theorem exists_error_below (hsettled : ∀ e ∈ ast.nodes.map Ast.Node.span, Settled log e)
    (hnodup : (log.map Prod.fst).Nodup) (hunmarked : ∀ entry ∈ log, entry.2.hasErrorBelow = false)
    (hn : n ∈ ast.nodes) (hmark : n.tree.status.hasErrorBelow = true) :
    ∃ d ∈ ast.nodes, n.id ∈ d.ancestors ∧ d.tree.status.isError = true := by
  rcases (hsettled _ (List.mem_map_of_mem hn)).reason hmark with
    ⟨s, hs, hset⟩ | ⟨id, s, hs, herror, hover⟩
  · rw [hunmarked _ hs] at hset
    cases hset
  · obtain ⟨d, hd, rfl, hbelow⟩ := exists_below_of_over hn hover
    have hrest : d.tree.status.unmarked = ((log.lookup d.id).getD .ok).unmarked :=
      (hsettled _ (List.mem_map_of_mem hd)).rest
    rw [lookup_of_mem hnodup hs] at hrest
    have hd' := congrArg Status.isError hrest
    rw [Status.hasAnyError, hunmarked _ hs, Bool.or_false] at herror
    exact ⟨d, hd, hbelow, hd'.trans herror⟩

/-- In a tree that comes out of a run in which every close is accepted, every node above one that is
in error is marked. If moreover no node gets two statuses, and none a status with the mark, then the
marked nodes are those above a node in error, and all else in a status is as it was set. -/
theorem marks_of_finish (language : String) (calls : List BuildCall)
    (h : (new language).closes calls = true) (ast : Ast)
    (hok : ((new language).after calls).finish = .ok ast) :
    (∀ n ∈ ast.nodes, n.tree.status.hasAnyError = true →
      ∀ p ∈ ast.nodes, p.id ∈ n.ancestors → p.tree.status.hasErrorBelow = true) ∧
    ((((new language).settings calls).map Prod.fst).Nodup →
      (∀ entry ∈ (new language).settings calls, entry.2.hasErrorBelow = false) →
      ∀ n ∈ ast.nodes,
        (n.tree.status.hasErrorBelow = true ↔
          ∃ d ∈ ast.nodes, n.id ∈ d.ancestors ∧ d.tree.status.isError = true) ∧
        n.tree.status.unmarked = (((new language).settings calls).lookup n.id).getD .ok) := by
  have hmarked : ast.root.Marked :=
    ((marking_new language).after h).root _ (finish_eq_ok_iff.1 hok).2.1
  have habove : ∀ n ∈ ast.nodes, n.tree.status.hasAnyError = true →
      ∀ p ∈ ast.nodes, p.id ∈ n.ancestors → p.tree.status.hasErrorBelow = true :=
    fun n hn herror p hp => Ast.hasErrorBelow_of_mem_ancestors hmarked hn herror hp
  have hrecorded := (recorded_new language).after calls
  rw [List.append_nil] at hrecorded
  have hsettled := spans_finish hok ▸ hrecorded.settled
  refine ⟨habove, fun hnodup hunmarked n hn => ⟨⟨fun hmark => ?_, ?_⟩, ?_⟩⟩
  · refine exists_error_below hsettled ?_ (fun entry he => ?_) hn hmark
    · rw [List.map_reverse]
      exact List.nodup_reverse.2 hnodup
    · exact hunmarked entry (List.mem_reverse.1 he)
  · rintro ⟨d, hd, hover, herror⟩
    exact habove d hd (by rw [Status.hasAnyError, herror, Bool.true_or]) n hn hover
  · have hrest : n.tree.status.unmarked = _ := (hsettled _ (List.mem_map_of_mem hn)).rest
    rw [hrest, Ast.Node.span, lookup_reverse hnodup]
    cases hl : ((new language).settings calls).lookup n.id with
    | none => rfl
    | some s =>
      have hs := hunmarked _ (mem_of_lookup hl)
      obtain ⟨code, isError, isSubsequent, hasErrorBelow, reserved⟩ := s
      simp only at hs
      subst hs
      rfl

/-- A run that sets the status of a word behind the end of its block, and that of the root before
its end. -/
def lateCalls : List BuildCall :=
  let block : SyntaxKind := ⟨"test", 0, "Block"⟩
  let word : SyntaxKind := ⟨"test", 1, "Word"⟩
  [.start block 0, .start block 0, .leaf word ⟨0, 4, by decide⟩, .finish 4,
    .setStatus 2 (Status.error 7), .setStatus 0 (Status.codeOnly 3), .leaf word ⟨5, 3, by decide⟩,
    .finish 10]

/-- The error of the word marks the block and the root, and the root keeps its code. -/
theorem marks_of_finish_late :
    (new "test").closes lateCalls = true ∧
      (((new "test").settings lateCalls).map Prod.fst).Nodup ∧
      ∃ ast, ((new "test").after lateCalls).finish = .ok ast ∧
        (ast.nodes.map fun n => (n.id, n.tree.status.hasErrorBelow)) =
          [(0, true), (1, true), (2, false), (3, false)] ∧
        ∀ n ∈ ast.nodes, n.id = 0 →
          n.tree.status = { Status.codeOnly 3 with hasErrorBelow := true } := by
  have hcloses : (new "test").closes lateCalls = true := by decide
  have hnodup : (((new "test").settings lateCalls).map Prod.fst).Nodup := by decide
  obtain ⟨-, hexact⟩ := marks_of_finish "test" lateCalls hcloses _ rfl
  refine ⟨hcloses, hnodup, _, rfl, by decide, fun n hn hid => ?_⟩
  obtain ⟨hmark, hrest⟩ := hexact hnodup (by decide) n hn
  have hset : n.tree.status.unmarked = Status.codeOnly 3 := by
    rw [hrest, hid]
    rfl
  have hmarked : n.tree.status.hasErrorBelow = true :=
    hmark.2 ⟨_, List.mem_of_getElem? (i := 2) rfl, by rw [hid]; decide, by decide⟩
  rw [← hset, Status.unmarked, ← hmarked]

end Finished

end TreeBuilder

end SourceModel
