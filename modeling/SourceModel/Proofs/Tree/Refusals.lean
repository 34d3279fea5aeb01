import SourceModel.Proofs.Tree.Runs

/-!
# Calls that the builder refuses

In place, a call checks what it is asked for before it writes anything, with one exception: a close
takes the innermost open node from the stack before it looks at the end that it is given. So a
refused call leaves no trace, unless it is a close that finds an open node. Such a close always
leaves one: the node stays closed, with the empty region with which it was opened.
-/

namespace SourceModel

open SourceModel.Tree (nodesAmong)

def Ast.Node.entry (n : Ast.Node) : Nat × NodeData × Option Nat :=
  (n.id, n.tree.data, n.parent?)

namespace TreeBuilder

variable {b b' : TreeBuilder} {c : BuildCall} {fault : Fault} {calls : List BuildCall}

/-! ## Nodes of a builder -/

/-- The open nodes and the finished ones below them, in the order of their numbers. -/
def openEntries : List OpenNode → List (Nat × NodeData × Option Nat)
  | [] => []
  | node :: outer => openEntries outer ++
      (node.toTree.nodesFrom (countOpen outer) (openIds outer)).map Ast.Node.entry

/-- All nodes of a builder in the order of their numbers. -/
def entries (b : TreeBuilder) : List (Nat × NodeData × Option Nat) :=
  openEntries b.openNodes ++ b.root?.elim [] fun t => (t.nodesFrom 0 []).map Ast.Node.entry

theorem entries_add {t : Tree} (h : b.root? = none) :
    (b.add t).entries =
      b.entries ++ (t.nodesFrom b.size (openIds b.openNodes)).map Ast.Node.entry := by
  obtain ⟨language, openNodes, root?⟩ := b
  subst h
  cases openNodes with
  | nil => rfl
  | cons parent outer =>
    have hsize : size ⟨language, parent :: outer, none⟩ =
        countOpen outer + 1 + Tree.sizes parent.children := by
      simp only [size, countOpen, OpenNode.size, Option.elim_none]
      omega
    simp only [add, entries, openEntries, openIds, OpenNode.toTree, Tree.nodesFrom, hsize,
      nodesAmong_append, nodesAmong, List.map_cons, List.map_append, List.append_nil,
      Option.elim_none, List.append_assoc, List.cons_append, Ast.Node.entry, Ast.Node.parent?,
      Tree.data]

/-- Nodes are open only as long as there is no root. -/
def Unrooted (b : TreeBuilder) : Prop := b.openNodes ≠ [] → b.root? = none

theorem checkStart_eq_ok {kind : SyntaxKind} {start : Nat} (hb : b.Unrooted)
    (h : b.checkStart kind start = .ok ()) : b.root? = none := by
  by_cases ho : b.openNodes = []
  · unfold checkStart at h
    rw [ho] at h
    cases hroot : b.root? with
    | none => rfl
    | some root =>
      rw [hroot] at h
      cases h
  · exact hb ho

theorem Unrooted.add (h : b.root? = none) (t : Tree) : (b.add t).Unrooted := by
  obtain ⟨language, openNodes, root?⟩ := b
  cases openNodes with
  | nil => exact fun hne => absurd rfl hne
  | cons parent outer => exact fun _ => h

private theorem Unrooted.addLeaf {data : NodeData} (h : b.Unrooted) :
    (b.adding (b.addLeaf data)).2.Unrooted := by
  cases hr : b.addLeaf data with
  | error fault => exact h
  | ok answer =>
    obtain ⟨hcheck, -, hb'⟩ := addLeaf_eq_ok hr
    simp only [adding, hb']
    exact .add (checkStart_eq_ok h hcheck) _

theorem Unrooted.modifyData {above f : NodeData → NodeData} {id : Nat} (h : b.Unrooted) :
    (b.changing (b.modifyData above f id)).2.Unrooted := by
  unfold TreeBuilder.modifyData
  split
  · intro hne
    have hopen : b.openNodes ≠ [] := fun hnil => hne (by simp only [changing, hnil, modifyOpen])
    simp only [changing, h hopen, Option.map_none]
  · exact h

theorem Unrooted.call (h : b.Unrooted) (c : BuildCall) : (b.call c).2.Unrooted := by
  cases c with
  | start kind offset =>
    simp only [TreeBuilder.call]
    cases hr : b.startNode kind offset with
    | error fault => exact h
    | ok answer =>
      obtain ⟨hcheck, -, region, -, hb'⟩ := startNode_eq_ok hr
      have hroot : b.root? = none := checkStart_eq_ok h hcheck
      simp only [adding, hb']
      exact fun _ => hroot
  | finish stop =>
    obtain ⟨language, openNodes, root?⟩ := b
    cases openNodes with
    | nil => exact h
    | cons node outer =>
      have hroot : root? = none := h (List.cons_ne_nil _ _)
      exact .add (b := ⟨language, outer, root?⟩) hroot _
  | leaf kind region => exact h.addLeaf
  | textLeaf kind region text => exact h.addLeaf
  | setText id text => exact h.modifyData
  | setStatus id status => exact h.modifyData
  | markEmbedding id language flags => exact h.modifyData

theorem Unrooted.after (h : b.Unrooted) (calls : List BuildCall) : (b.after calls).Unrooted := by
  induction calls generalizing b with
  | nil => exact h
  | cons c calls ih => exact ih (h.call c)

/-- A builder as a front end can have it. -/
inductive Reachable : TreeBuilder → Prop where
  | new (language : String) : Reachable (new language)
  | call {b : TreeBuilder} (c : BuildCall) : Reachable b → Reachable (b.call c).2

private theorem Reachable.unrooted (h : b.Reachable) : b.Unrooted := by
  induction h with
  | new language => exact fun _ => rfl
  | call c _ ih => exact ih.call c

/-! ## Calls in place -/

/-- The builder whose innermost open node, if there is one, is closed with what it says so far. -/
def popped (b : TreeBuilder) : TreeBuilder :=
  match b.openNodes with
  | [] => b
  | node :: outer => { b with openNodes := outer }.add node.toTree

def pushInPlace (kind : SyntaxKind) (start : Nat) (added : TreeBuilder → TreeBuilder) :
    EStateM Fault TreeBuilder (Option Nat) := do
  let b ← get
  ofExcept (b.checkStart kind start)
  set (added b)
  return some b.size

/-- Changes what the node with number `id` says, and what each finished node over it says. -/
def modifyInPlace (above f : NodeData → NodeData) (id : Nat) :
    EStateM Fault TreeBuilder (Option Nat) := do
  let b ← get
  if id ≥ b.size then throw (.noChild id b.size)
  set { b with
    openNodes := modifyOpen above f id b.openNodes
    root? := b.root?.map (Tree.modify above (Tree.mapData f) id) }
  return none

/-- Closes the innermost open node, and only then looks at where it is to end. -/
def finishInPlace (stop : Nat) : EStateM Fault TreeBuilder (Option Nat) := do
  let b ← get
  let node :: outer := b.openNodes | throw Refusal.unmatchedFinish.fault
  set b.popped
  if let some child := node.children.getLast? then
    if stop < child.region.stop then
      throw (Refusal.endsBeforeChild (countOpen outer) stop child.region.stop).fault
  let region ← ofExcept (Region.ofBounds? node.data.region.offset stop)
  let status :=
    if node.children.any fun child => child.status.hasAnyError then node.data.status.markBelow
    else node.data.status
  set ({ b with openNodes := outer }.add
    (.node { node.data with region, status } node.children none))
  return some (countOpen outer)

/-- A call in place. What it writes before it fails stays written. -/
def callInPlace : BuildCall → EStateM Fault TreeBuilder (Option Nat)
  | .start kind offset => do
    let region ← ofExcept (Region.empty? offset)
    pushInPlace kind offset fun b => b.opened { kind, region }
  | .finish stop => finishInPlace stop
  | .leaf kind region => pushInPlace kind region.offset fun b => b.add (.leaf { kind, region })
  | .textLeaf kind region text =>
    pushInPlace kind region.offset fun b => b.add (.leaf { kind, region, text := some text })
  | .setText id text =>
    modifyInPlace (fun above => above) (fun data => { data with text := some text }) id
  | .setStatus id status =>
    modifyInPlace
      (fun above =>
        if status.hasAnyError then { above with status := above.status.markBelow } else above)
      (fun data =>
        { data with
          status :=
            { status with hasErrorBelow := status.hasErrorBelow || data.status.hasErrorBelow } })
      id
  | .markEmbedding id language flags =>
    modifyInPlace (fun above => above)
      (fun data => { data with embedding := some ⟨language, flags⟩ }) id

def result : Except Fault (Option Nat) × TreeBuilder → EStateM.Result Fault TreeBuilder (Option Nat)
  | (.ok answer, b') => .ok answer b'
  | (.error fault, b') => .error fault b'

private theorem pushInPlace_run (b : TreeBuilder) (kind : SyntaxKind) (start : Nat)
    (added : TreeBuilder → TreeBuilder) :
    (pushInPlace kind start added).run b =
      result (b.adding (b.checkStart kind start >>= fun _ => .ok (b.size, added b))) := by
  simp only [pushInPlace, EStateM.run_bind, EStateM.run_get]
  cases b.checkStart kind start <;> rfl

private theorem modifyInPlace_run (b : TreeBuilder) (above f : NodeData → NodeData) (id : Nat) :
    (modifyInPlace above f id).run b = result (b.changing (b.modifyData above f id)) := by
  simp only [modifyInPlace, EStateM.run_bind, EStateM.run_get, modifyData]
  by_cases hid : id < b.size
  · rw [if_pos hid, if_neg (Nat.not_le_of_lt hid)]
    rfl
  · rw [if_neg hid, if_pos (Nat.le_of_not_lt hid)]
    rfl

private theorem finishInPlace_run (b : TreeBuilder) (stop : Nat) :
    (finishInPlace stop).run b =
      result ((b.finishNode stop).1.map some, (b.finishNode stop).2) := by
  obtain ⟨language, openNodes, root?⟩ := b
  cases openNodes with
  | nil => rfl
  | cons node outer =>
    simp only [finishInPlace, EStateM.run_bind, EStateM.run_get, finishNode, closeData]
    cases node.children.getLast? with
    | none => cases Region.ofBounds? node.data.region.offset stop <;> rfl
    | some child =>
      by_cases hstop : stop < child.region.stop
      · simp only [if_pos hstop]
        rfl
      · simp only [if_neg hstop]
        cases Region.ofBounds? node.data.region.offset stop <;> rfl

private theorem callInPlace_run (b : TreeBuilder) (c : BuildCall) :
    (callInPlace c).run b = result (b.call c) := by
  cases c with
  | start kind offset =>
    simp only [callInPlace, EStateM.run_bind, call, startNode]
    cases Region.empty? offset with
    | error fault => rfl
    | ok region => exact pushInPlace_run b kind offset fun b => b.opened { kind, region }
  | finish stop => exact finishInPlace_run b stop
  | leaf kind region => exact pushInPlace_run b ..
  | textLeaf kind region text => exact pushInPlace_run b ..
  | setText id text => exact modifyInPlace_run b _ _ id
  | setStatus id status => exact modifyInPlace_run b _ _ id
  | markEmbedding id language flags => exact modifyInPlace_run b _ _ id

/-! ## What a refused call leaves -/

private theorem length_openNodes_add (b : TreeBuilder) (t : Tree) :
    (b.add t).openNodes.length = b.openNodes.length := by
  unfold add
  cases ho : b.openNodes with
  | nil => simp
  | cons parent outer => simp

private theorem popped_eq_iff : b.popped = b ↔ b.openNodes = [] := by
  obtain ⟨language, openNodes, root?⟩ := b
  cases openNodes with
  | nil => exact ⟨fun _ => rfl, fun _ => rfl⟩
  | cons node outer =>
    refine ⟨fun h => ?_, fun h => nomatch h⟩
    have hlength := congrArg (fun b : TreeBuilder => b.openNodes.length) h
    simp only [popped, length_openNodes_add, List.length_cons] at hlength
    omega

private theorem openIds_popped (b : TreeBuilder) :
    openIds b.popped.openNodes = (openIds b.openNodes).tail := by
  obtain ⟨language, openNodes, root?⟩ := b
  cases openNodes with
  | nil => rfl
  | cons node outer => cases outer <;> rfl

private theorem entries_popped (h : b.Unrooted) : b.popped.entries = b.entries := by
  obtain ⟨language, openNodes, root?⟩ := b
  cases openNodes with
  | nil => rfl
  | cons node outer =>
    have hroot : root? = none := h (List.cons_ne_nil _ _)
    subst hroot
    have hadd := entries_add (b := ⟨language, outer, none⟩) (t := node.toTree) rfl
    simpa only [popped, entries, openEntries, size, Option.elim_none, List.append_nil,
      Nat.add_zero] using hadd

/-- What a call leaves if it is refused. -/
def refused (b : TreeBuilder) (c : BuildCall) : TreeBuilder :=
  if c.isFinish then b.popped else b

private theorem refused_eq_iff : b.refused c = b ↔ (c.isFinish = true → b.openNodes = []) := by
  unfold refused
  by_cases hc : c.isFinish = true
  · simp [hc, popped_eq_iff]
  · simp [hc]

private theorem openIds_refused : openIds (b.refused c).openNodes =
    if c.isFinish then (openIds b.openNodes).tail else openIds b.openNodes := by
  rw [← openIds_popped, refused]
  split <;> rfl

private theorem entries_refused (h : b.Unrooted) : (b.refused c).entries = b.entries := by
  unfold refused
  split
  · exact entries_popped h
  · rfl

private theorem adding_eq_error {r : Except Fault (Nat × TreeBuilder)}
    (h : b.adding r = (.error fault, b')) : b' = b := by
  cases r <;> cases h
  rfl

private theorem changing_eq_error {r : Except Fault TreeBuilder}
    (h : b.changing r = (.error fault, b')) : b' = b := by
  cases r <;> cases h
  rfl

private theorem finishNode_eq_error {stop : Nat} (h : b.finishNode stop = (.error fault, b')) :
    b' = b.popped := by
  obtain ⟨language, openNodes, root?⟩ := b
  cases openNodes with
  | nil =>
    cases h
    rfl
  | cons node outer =>
    simp only [finishNode] at h
    cases hclose : closeData (countOpen outer) node stop with
    | error fault =>
      rw [hclose] at h
      cases h
      rfl
    | ok data =>
      rw [hclose] at h
      cases h

theorem call_eq_error (h : b.call c = (.error fault, b')) : b' = b.refused c := by
  cases c with
  | finish stop =>
    have hclose : b.finishNode stop = (.error fault, b') := by
      cases hr : b.finishNode stop with
      | mk answer b'' =>
        simp only [call, hr] at h
        cases answer <;> cases h
        rfl
    exact finishNode_eq_error hclose
  | start | leaf | textLeaf => exact adding_eq_error h
  | setText | setStatus | markEmbedding => exact changing_eq_error h

private theorem callInPlace_eq_error (h : (callInPlace c).run b = .error fault b') :
    b' = b.refused c := by
  rw [callInPlace_run] at h
  cases hr : b.call c with
  | mk answer b'' =>
    rw [hr] at h
    cases answer with
    | ok answer => cases h
    | error fault =>
      cases h
      exact call_eq_error hr

/-! ## Traces -/

def history (b : TreeBuilder) : List BuildCall → List (BuildCall × Except Fault (Option Nat))
  | [] => []
  | c :: calls => (c, (b.call c).1) :: (b.call c).2.history calls

/-- Whether a call leaves a trace: it is accepted, or it closes a node although it is refused. -/
def leavesTrace (b : TreeBuilder) (c : BuildCall) : Bool :=
  (b.call c).1.isOk || (c.isFinish && !b.openNodes.isEmpty)

def traces (b : TreeBuilder) : List BuildCall → List (BuildCall × Except Fault (Option Nat))
  | [] => []
  | c :: calls =>
    (if b.leavesTrace c then [(c, (b.call c).1)] else []) ++ (b.call c).2.traces calls

private theorem call_of_not_leavesTrace (h : b.leavesTrace c = false) : (b.call c).2 = b := by
  simp only [leavesTrace, Bool.or_eq_false_iff, Bool.and_eq_false_imp, Bool.not_eq_false',
    List.isEmpty_iff] at h
  obtain ⟨hrefused, hempty⟩ := h
  cases hr : b.call c with
  | mk answer b' =>
    cases answer with
    | ok answer => simp [hr, Except.isOk, Except.toBool] at hrefused
    | error fault => exact (call_eq_error hr).trans (refused_eq_iff.2 hempty)

private theorem traces_cons_of_not_leavesTrace {calls : List BuildCall}
    (h : b.leavesTrace c = false) : b.traces (c :: calls) = b.traces calls := by
  rw [traces, h, call_of_not_leavesTrace h]
  rfl

private theorem traces_cons_of_leavesTrace {calls : List BuildCall} (h : b.leavesTrace c = true) :
    b.traces (c :: calls) = (c, (b.call c).1) :: (b.call c).2.traces calls := by
  rw [traces, h]
  rfl

private theorem after_traces (b : TreeBuilder) (calls : List BuildCall) :
    b.after ((b.traces calls).map Prod.fst) = b.after calls := by
  induction calls generalizing b with
  | nil => rfl
  | cons c calls ih =>
    cases h : b.leavesTrace c with
    | false =>
      rw [traces_cons_of_not_leavesTrace h, ih]
      simp only [after, List.foldl_cons, call_of_not_leavesTrace h]
    | true =>
      rw [traces_cons_of_leavesTrace h]
      exact ih (b.call c).2

private theorem history_traces (b : TreeBuilder) (calls : List BuildCall) :
    b.history ((b.traces calls).map Prod.fst) = b.traces calls := by
  induction calls generalizing b with
  | nil => rfl
  | cons c calls ih =>
    cases h : b.leavesTrace c with
    | false => rw [traces_cons_of_not_leavesTrace h, ih]
    | true => rw [traces_cons_of_leavesTrace h, List.map_cons, history, ih]

private theorem traces_sublist_history (b : TreeBuilder) (calls : List BuildCall) :
    (b.traces calls).Sublist (b.history calls) := by
  induction calls generalizing b with
  | nil => exact List.Sublist.refl []
  | cons c calls ih =>
    rw [traces, history]
    split
    · exact (ih _).cons_cons _
    · exact (ih _).cons _

/-- What becomes of a builder, wherever a front end has brought it, by a call that is refused in
place, and by any further calls of which some are refused. The nodes and what they say stay as they
are. So do the open ones, except that a close takes the innermost from them; so the builder is as
before unless the call is a close that finds an open node. Without the calls that leave no trace a
run has the same answers and comes to the same tree. -/
theorem Reachable.refused_leaves (h : b.Reachable) :
    (∀ c, (callInPlace c).run b = result (b.call c)) ∧
      (∀ c fault b', (callInPlace c).run b = .error fault b' →
        b'.entries = b.entries ∧
        openIds b'.openNodes =
          (if c.isFinish then (openIds b.openNodes).tail else openIds b.openNodes) ∧
        b' = b.refused c ∧
        (b' = b ↔ (c.isFinish = true → b.openNodes = []))) ∧
      ∀ calls, (b.traces calls).Sublist (b.history calls) ∧
        b.history ((b.traces calls).map Prod.fst) = b.traces calls ∧
        b.after ((b.traces calls).map Prod.fst) = b.after calls ∧
        (b.after ((b.traces calls).map Prod.fst)).finish = (b.after calls).finish := by
  refine ⟨callInPlace_run b, fun c fault b' hrun => ?_, fun calls => ?_⟩
  · have hb' := callInPlace_eq_error hrun
    subst hb'
    exact ⟨entries_refused h.unrooted, openIds_refused, rfl, refused_eq_iff⟩
  · have hafter := after_traces b calls
    exact ⟨traces_sublist_history b calls, history_traces b calls, hafter, by rw [hafter]⟩

def openBlock : List BuildCall :=
  [.start ⟨"test", 0, "Block"⟩ 0, .leaf ⟨"test", 1, "Word"⟩ ⟨0, 6, by decide⟩]

theorem refused_leaves_openBlock :
    ((new "test").after openBlock).Reachable ∧
      (∃ fault, (callInPlace (.leaf ⟨"test", 1, "Word"⟩ ⟨3, 4, by decide⟩)).run
        ((new "test").after openBlock) = .error fault ((new "test").after openBlock)) ∧
      ∃ fault b', (callInPlace (.finish 4)).run ((new "test").after openBlock) = .error fault b' ∧
        openIds ((new "test").after openBlock).openNodes = [0] ∧ openIds b'.openNodes = [] := by
  have hreach : ((new "test").after openBlock).Reachable := .call _ (.call _ (.new "test"))
  obtain ⟨-, hleaves, -⟩ := Reachable.refused_leaves hreach
  obtain ⟨overlap, b₁, hoverlap⟩ : ∃ fault b',
      (callInPlace (.leaf ⟨"test", 1, "Word"⟩ ⟨3, 4, by decide⟩)).run
        ((new "test").after openBlock) = .error fault b' := ⟨_, _, rfl⟩
  obtain ⟨early, b₂, hclose⟩ : ∃ fault b',
      (callInPlace (.finish 4)).run ((new "test").after openBlock) = .error fault b' := ⟨_, _, rfl⟩
  have hsame : b₁ = (new "test").after openBlock := (hleaves _ _ _ hoverlap).2.2.2.2 nofun
  rw [hsame] at hoverlap
  exact ⟨hreach, ⟨overlap, hoverlap⟩, early, b₂, hclose, rfl, (hleaves _ _ _ hclose).2.1⟩

/-- A close that is refused changes the builder: before it there is no tree yet, and behind it there
is one in which the word does not lie inside the block. -/
theorem finish_refused_changes :
    ∃ fault b' ast, (callInPlace (.finish 4)).run ((new "test").after openBlock) =
        .error fault b' ∧
      b' ≠ (new "test").after openBlock ∧
      ((new "test").after openBlock).finish = .error (Refusal.stillOpen 1 0).fault ∧
      b'.finish = .ok ast ∧ ¬ ast.Arranged := by
  refine ⟨_, _, _, rfl, ?_, rfl, rfl, ?_⟩
  · exact fun h => List.cons_ne_nil _ _ (popped_eq_iff.1 h)
  · intro harranged
    have hwithin := harranged.within _ List.mem_cons_self _
      (List.mem_cons_of_mem _ List.mem_cons_self) rfl
    exact absurd hwithin.2 (by decide)

end TreeBuilder

end SourceModel
