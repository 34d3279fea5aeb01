import SourceModel.Proofs.Tree.Entries

/-!
# Syntax trees in place

A builder can hold its nodes in the order of their numbers, each with the number of the node above
it and those of its children, and beside them the numbers of the open nodes. A node that is added
is then written to the list and to the children of the innermost open node; a close takes the
innermost open node away before it looks at the end, and an error marks one finished node after the
other on the way up, as far as the first open one. Whatever is called, such a builder answers what
one that holds trees answers, and its nodes and links are those of the trees.
-/

namespace SourceModel

open TreeBuilder (Refusal maxNodes countOpen statusAt statusAbove)

/-- A node with the numbers of the node above it and of its children. -/
structure NodeSlot where
  data : NodeData
  parent? : Option Nat
  children : List Nat := []

def Ast.Node.slot (n : Ast.Node) : NodeSlot := ⟨n.tree.data, n.parent?, n.childIds⟩

/-- A builder that holds its nodes in a list. The open ones are given innermost first. -/
@[ext] structure TreeArena where
  language : String
  slots : List NodeSlot := []
  openIds : List Nat := []
  root? : Option Nat := none

namespace TreeArena

def dataAt (t : TreeArena) (i : Nat) : NodeData := t.slots[i]?.elim default NodeSlot.data

def childrenAt (t : TreeArena) (i : Nat) : List Nat := t.slots[i]?.elim [] NodeSlot.children

/-- Number of the node above, which is a lower one. -/
def parentAt? (t : TreeArena) (i : Nat) : Option Nat :=
  (t.slots[i]?.bind NodeSlot.parent?).filter (· < i)

private theorem lt_of_parentAt? {t : TreeArena} {i p : Nat} (h : t.parentAt? i = some p) :
    p < i := by
  have hp := (Option.filter_eq_some_iff.1 h).2
  exact of_decide_eq_true hp

/-! ## Calls -/

def change (t : TreeArena) (id : Nat) (f : NodeData → NodeData) : TreeArena :=
  { t with slots := t.slots.modify id fun slot => { slot with data := f slot.data } }

def checkStart (t : TreeArena) (kind : SyntaxKind) (start : Nat) : Except Fault Unit := do
  match t.openIds with
  | parent :: _ =>
    let above := t.dataAt parent
    if start < above.region.offset then
      throw (Refusal.startsBeforeParent kind.name start above.kind.name above.region.offset).fault
    if let some sibling := (t.childrenAt parent).getLast? then
      if start < (t.dataAt sibling).region.stop then
        throw (Refusal.overlapsSibling kind.name start (t.dataAt sibling).region.stop).fault
  | [] => if t.root?.isSome then throw Refusal.secondRoot.fault
  if t.slots.length ≥ maxNodes then throw (.internal "AST arena exceeds u32 node ids")

/-- The arena with one more node, below the innermost open one or as the root. -/
def pushed (t : TreeArena) (data : NodeData) : TreeArena :=
  let slots := t.slots ++ [{ data, parent? := t.openIds.head? }]
  match t.openIds with
  | [] => { t with slots, root? := some t.slots.length }
  | parent :: _ =>
    { t with slots := slots.modify parent fun slot =>
        { slot with children := slot.children ++ [t.slots.length] } }

def push (data : NodeData) : EStateM Fault TreeArena Nat := do
  let t ← get
  ofExcept (t.checkStart data.kind data.region.offset)
  set (t.pushed data)
  return t.slots.length

def markBelow (data : NodeData) : NodeData := { data with status := data.status.markBelow }

/-- Marks the finished nodes above the one with number `i`, up to the first open one. -/
def markAbove (t : TreeArena) (i : Nat) : TreeArena :=
  match _h : t.parentAt? i with
  | none => t
  | some p => if p ∈ t.openIds then t else (t.change p markBelow).markAbove p
termination_by i
decreasing_by exact lt_of_parentAt? _h

def changeData (id : Nat) (f : NodeData → NodeData) : EStateM Fault TreeArena Unit := do
  let t ← get
  if id ≥ t.slots.length then throw (.noChild id t.slots.length)
  set (t.change id f)

def setStatus (id : Nat) (status : Status) : EStateM Fault TreeArena Unit := do
  changeData id (statusAt status)
  if status.hasAnyError then modify (·.markAbove id)

def finishNode (stop : Nat) : EStateM Fault TreeArena Nat := do
  let t ← get
  let id :: outer := t.openIds | throw Refusal.unmatchedFinish.fault
  set { t with openIds := outer }
  if let some child := (t.childrenAt id).getLast? then
    if stop < (t.dataAt child).region.stop then
      throw (Refusal.endsBeforeChild id stop (t.dataAt child).region.stop).fault
  let region ← ofExcept (Region.ofBounds? (t.dataAt id).region.offset stop)
  let hasError := (t.childrenAt id).any fun child => (t.dataAt child).status.hasAnyError
  modify (·.change id fun data =>
    if hasError then markBelow { data with region } else { data with region })
  return id

/-- A call. What it writes before it fails stays written. -/
def call : BuildCall → EStateM Fault TreeArena (Option Nat)
  | .start kind offset => do
    let region ← ofExcept (Region.empty? offset)
    let id ← push { kind, region }
    modify fun t => { t with openIds := id :: t.openIds }
    return some id
  | .finish stop => do
    let id ← finishNode stop
    return some id
  | .leaf kind region => do
    let id ← push { kind, region }
    return some id
  | .textLeaf kind region text => do
    let id ← push { kind, region }
    modify (·.change id fun data => { data with text := some text })
    return some id
  | .setText id text => do
    changeData id fun data => { data with text := some text }
    return none
  | .setStatus id status => do
    setStatus id status
    return none
  | .markEmbedding id language flags => do
    changeData id fun data => { data with embedding := some ⟨language, flags⟩ }
    return none

/-- The arena behind several calls; where one fails, the next one finds what it left. -/
def after (t : TreeArena) : List BuildCall → TreeArena
  | [] => t
  | c :: calls =>
    match (call c).run t with
    | .ok _ t' => t'.after calls
    | .error _ t' => t'.after calls

/-- The nodes of the finished tree with the number of the root; every node has to be closed. -/
def finish (t : TreeArena) : Except Fault (String × List NodeSlot × Nat) :=
  match t.openIds, t.root? with
  | innermost :: _, _ => .error (Refusal.stillOpen t.openIds.length innermost).fault
  | [], none => .error Refusal.noRoot.fault
  | [], some root => .ok (t.language, t.slots, root)

/-! ## The nodes that a builder has -/

def of (b : TreeBuilder) : TreeArena where
  language := b.language
  slots := b.entries.mapIdx fun i e => ⟨e.2.1, e.2.2, b.childrenOf i⟩
  openIds := TreeBuilder.openIds b.openNodes
  root? := if b.size = 0 then none else some 0

section Of

variable {b b' : TreeBuilder} {n : Ast.Node} {i j : Nat} {node : OpenNode} {outer : List OpenNode}
  {data : NodeData}

private theorem slots_of (b : TreeBuilder) (i : Nat) :
    (of b).slots[i]? = b.entries[i]?.map fun e => ⟨e.2.1, e.2.2, b.childrenOf i⟩ :=
  List.getElem?_mapIdx

private theorem openIds_of_nil (h : b.openNodes = []) : (of b).openIds = [] :=
  congrArg TreeBuilder.openIds h

private theorem openIds_of_cons (h : b.openNodes = node :: outer) :
    (of b).openIds = countOpen outer :: TreeBuilder.openIds outer :=
  congrArg TreeBuilder.openIds h

theorem length_slots_of (hb : b.Unrooted) : (of b).slots.length = b.size :=
  List.length_mapIdx.trans (TreeBuilder.length_entries hb)

theorem slots_of_of_mem (hb : b.Unrooted) (hn : n ∈ b.nodes) :
    (of b).slots[n.id]? = some ⟨n.tree.data, n.parent?, b.childrenOf n.id⟩ := by
  rw [slots_of, TreeBuilder.getElem?_entries hb hn]
  rfl

private theorem dataAt_of (hb : b.Unrooted) (hn : n ∈ b.nodes) :
    (of b).dataAt n.id = n.tree.data := by
  rw [dataAt, slots_of_of_mem hb hn, Option.elim_some]

private theorem childrenAt_of (hb : b.Unrooted) (hn : n ∈ b.nodes) :
    (of b).childrenAt n.id = b.childrenOf n.id := by
  rw [childrenAt, slots_of_of_mem hb hn, Option.elim_some]

/-- What the children of the innermost open node say. -/
private theorem map_dataAt_children (hb : b.Unrooted) (h : b.openNodes = node :: outer) :
    ((of b).childrenAt (countOpen outer)).map (of b).dataAt = node.children.map Tree.data := by
  have hchildren := childrenAt_of hb (TreeBuilder.innermost_mem_nodes hb h)
  rw [hchildren, TreeBuilder.childrenOf_innermost hb h, List.map_map]
  have hdata : ∀ s ∈ Tree.numbered (countOpen outer + 1) node.children,
      (of b).dataAt s.1 = s.2.data := by
    intro s hs
    exact dataAt_of hb (TreeBuilder.child_mem_nodes hb h hs)
  calc (Tree.numbered (countOpen outer + 1) node.children).map ((of b).dataAt ∘ Prod.fst)
      = (Tree.numbered (countOpen outer + 1) node.children).map (Tree.data ∘ Prod.snd) :=
        List.map_congr_left hdata
    _ = node.children.map Tree.data := by rw [← List.map_map, Tree.map_snd_numbered]

private theorem dataAt_innermost (hb : b.Unrooted) (h : b.openNodes = node :: outer) :
    (of b).dataAt (countOpen outer) = node.data :=
  dataAt_of hb (TreeBuilder.innermost_mem_nodes hb h)

private theorem root?_isSome_of (h : b.openNodes = []) : (of b).root?.isSome = b.root?.isSome := by
  rw [of, TreeBuilder.size, h]
  cases hroot : b.root? with
  | none => rfl
  | some root =>
    have hpos : ¬ countOpen [] + root.size = 0 := Nat.ne_of_gt (Nat.add_pos_right _ root.size_pos)
    rw [Option.elim_some, if_neg hpos]
    rfl

private theorem getLast?_children (hb : b.Unrooted) (h : b.openNodes = node :: outer) :
    ((of b).childrenAt (countOpen outer)).getLast?.map (of b).dataAt =
      node.children.getLast?.map Tree.data := by
  rw [← List.getLast?_map, map_dataAt_children hb h, List.getLast?_map]

private theorem checkStart_of (hb : b.Unrooted) (kind : SyntaxKind) (start : Nat) :
    (of b).checkStart kind start = b.checkStart kind start := by
  unfold checkStart TreeBuilder.checkStart
  rw [length_slots_of hb]
  cases h : b.openNodes with
  | nil => rw [openIds_of_nil h, root?_isSome_of h]
  | cons node outer =>
    have hlast := getLast?_children hb h
    simp only [openIds_of_cons h, dataAt_innermost hb h]
    cases hc : node.children.getLast? with
    | none =>
      rw [hc] at hlast
      rw [Option.map_eq_none_iff.1 hlast]
    | some child =>
      rw [hc, Option.map_some] at hlast
      obtain ⟨i, hi, hdata⟩ := Option.map_eq_some_iff.1 hlast
      simp only [hi, hdata]
      rfl

/-! ## New nodes -/

private theorem getElem?_pushed (t : TreeArena) (data : NodeData) (i : Nat) :
    (t.pushed data).slots[i]? =
      (t.slots ++ [{ data, parent? := t.openIds.head? : NodeSlot }])[i]?.map fun slot =>
        if t.openIds.head? = some i then
          { slot with children := slot.children ++ [t.slots.length] }
        else slot := by
  unfold pushed
  cases t.openIds with
  | nil => simp
  | cons parent outer =>
    simp only [List.head?_cons, List.getElem?_modify, Option.some.injEq]
    rfl

private theorem slots_of_snoc (hb : b.Unrooted)
    (h : b'.entries =
      b.entries ++ [(b.size, data, (TreeBuilder.openIds b.openNodes).head?)]) :
    (of b').slots = ((of b).pushed data).slots := by
  have hopen : (of b).openIds = TreeBuilder.openIds b.openNodes := rfl
  apply List.ext_getElem?
  intro i
  rw [slots_of, h, TreeBuilder.childrenOf_snoc h, getElem?_pushed, hopen, length_slots_of hb]
  rcases Nat.lt_trichotomy i b.size with hi | rfl | hi
  · obtain ⟨n, hn, rfl⟩ := TreeBuilder.exists_mem_nodes hb hi
    rw [List.getElem?_append_left (by rwa [TreeBuilder.length_entries hb]),
      List.getElem?_append_left (by rwa [length_slots_of hb]), slots_of_of_mem hb hn,
      TreeBuilder.getElem?_entries hb hn, Option.map_some, Option.map_some]
    by_cases hp : (TreeBuilder.openIds b.openNodes).head? = some n.id
    · rw [if_pos hp, if_pos hp]
      rfl
    · rw [if_neg hp, if_neg hp, List.append_nil]
      rfl
  · have hp : (TreeBuilder.openIds b.openNodes).head? ≠ some b.size := by
      intro hp
      have hlt := TreeBuilder.lt_size_of_mem_openIds (List.mem_of_mem_head? hp)
      exact Nat.lt_irrefl _ hlt
    rw [if_neg hp, TreeBuilder.childrenOf_eq_nil hb (Nat.le_refl _),
      List.getElem?_append_right (by rw [TreeBuilder.length_entries hb]),
      List.getElem?_append_right (by rw [length_slots_of hb]), TreeBuilder.length_entries hb,
      length_slots_of hb, Nat.sub_self]
    simp [hp]
  · rw [List.getElem?_eq_none, List.getElem?_eq_none]
    · rfl
    · rw [List.length_append, length_slots_of hb]
      exact hi
    · rw [List.length_append, TreeBuilder.length_entries hb]
      exact hi

private theorem root?_of (h : 0 < b.size) : (of b).root? = some 0 := if_neg (Nat.ne_of_gt h)

private theorem root?_pushed (hb : b.Unrooted) (hroot : b.root? = none) (data : NodeData) :
    ((of b).pushed data).root? = some 0 := by
  have hlength := length_slots_of hb
  cases h : b.openNodes with
  | nil =>
    have hsize : b.size = 0 := by
      rw [TreeBuilder.size, h, hroot]
      rfl
    simp only [pushed, openIds_of_nil h, hlength, hsize]
  | cons node outer =>
    have hlt : countOpen outer < b.size := TreeBuilder.lt_size_of_mem_openIds (by
      rw [h]
      exact List.mem_cons_self)
    have hpos := root?_of (Nat.lt_of_le_of_lt (Nat.zero_le _) hlt)
    simp only [pushed, openIds_of_cons h, hpos]

private theorem openIds_pushed (t : TreeArena) (data : NodeData) :
    (t.pushed data).openIds = t.openIds := by
  unfold pushed
  split <;> rfl

private theorem language_pushed (t : TreeArena) (data : NodeData) :
    (t.pushed data).language = t.language := by
  unfold pushed
  split <;> rfl

private theorem pushed_of_add (hb : b.Unrooted) (hroot : b.root? = none) (data : NodeData) :
    (of b).pushed data = of (b.add (.leaf data)) := by
  have hentries : (b.add (.leaf data)).entries =
      b.entries ++ [(b.size, data, (TreeBuilder.openIds b.openNodes).head?)] :=
    TreeBuilder.entries_add hroot
  have hsize : 0 < (b.add (.leaf data)).size := by
    rw [TreeBuilder.size_add hroot]
    exact Nat.add_pos_right _ (Tree.size_pos _)
  ext1
  · rw [language_pushed]
    exact (TreeBuilder.language_add b _).symm
  · exact (slots_of_snoc hb hentries).symm
  · rw [openIds_pushed]
    exact (TreeBuilder.openIds_add b _).symm
  · rw [root?_pushed hb hroot, root?_of hsize]

private theorem pushed_of_opened (hb : b.Unrooted) (hroot : b.root? = none) (data : NodeData) :
    { (of b).pushed data with openIds := b.size :: ((of b).pushed data).openIds } =
      of (b.opened data) := by
  have hsize : 0 < (b.opened data).size := by
    rw [TreeBuilder.size_opened]
    exact Nat.succ_pos _
  ext1
  · exact language_pushed _ _
  · exact (slots_of_snoc hb (TreeBuilder.entries_opened hroot)).symm
  · have hcount : b.size = countOpen b.openNodes := by
      rw [TreeBuilder.size, hroot, Option.elim_none, Nat.add_zero]
    rw [openIds_pushed, hcount]
    rfl
  · exact (root?_pushed hb hroot data).trans (root?_of hsize).symm

/-! ## Changed nodes -/

private theorem getElem?_change (t : TreeArena) (id : Nat) (f : NodeData → NodeData) (i : Nat) :
    (t.change id f).slots[i]? =
      t.slots[i]?.map fun slot => if id = i then { slot with data := f slot.data } else slot := by
  rw [change, List.getElem?_modify]
  rfl

private theorem parentAt?_change (t : TreeArena) (id : Nat) (f : NodeData → NodeData) (i : Nat) :
    (t.change id f).parentAt? i = t.parentAt? i := by
  rw [parentAt?, getElem?_change, parentAt?]
  cases t.slots[i]? with
  | none => rfl
  | some slot =>
    by_cases hid : id = i
    · simp [hid]
    · simp [hid]

private theorem slots_of_restate {say : Nat → NodeData → NodeData} (hb : b.Unrooted)
    (h : b'.entries = b.entries.map (TreeBuilder.restate say)) (i : Nat) :
    (of b').slots[i]? =
      (of b).slots[i]?.map fun slot => { slot with data := say i slot.data } := by
  rw [slots_of, slots_of, h, List.getElem?_map, TreeBuilder.childrenOf_restate h]
  cases he : b.entries[i]? with
  | none => rfl
  | some e =>
    obtain rfl := TreeBuilder.fst_of_getElem? hb he
    rfl

private theorem parentAt?_of (hb : b.Unrooted) (hn : n ∈ b.nodes) :
    (of b).parentAt? n.id = n.parent? := by
  rw [parentAt?, slots_of_of_mem hb hn, Option.bind_some]
  cases hp : n.parent? with
  | none => rfl
  | some p =>
    have hlt := (TreeBuilder.placed_of_mem hb hn).lt _ (List.mem_of_mem_head? hp)
    simp [hlt]

private theorem markAbove_eq (t : TreeArena) (i : Nat) :
    { t with slots := (t.markAbove i).slots } = t.markAbove i := by
  induction i using Nat.strongRecOn generalizing t with
  | _ i ih =>
    rw [markAbove]
    split
    · rfl
    · rename_i p hp
      split
      · rfl
      · exact ih p (lt_of_parentAt? hp) (t.change p markBelow)

/-- The walk marks the nodes above that are finished. The induction is on the nodes above; the
links of the arena are those of the builder, but some nodes may have been marked. -/
private theorem getElem?_markAbove {t : TreeArena} (hb : b.Unrooted) (hn : n ∈ b.nodes)
    (hopen : t.openIds = TreeBuilder.openIds b.openNodes)
    (hparent : ∀ i, t.parentAt? i = (of b).parentAt? i) (j : Nat) :
    (t.markAbove n.id).slots[j]? = t.slots[j]?.map fun slot =>
      if j ∈ n.ancestors ∧ j ∉ TreeBuilder.openIds b.openNodes then
        { slot with data := markBelow slot.data }
      else slot := by
  induction habove : n.ancestors generalizing n t with
  | nil =>
    have hnone : t.parentAt? n.id = none := by
      rw [hparent, parentAt?_of hb hn, Ast.Node.parent?, habove, List.head?_nil]
    rw [markAbove]
    split
    · simp
    · rename_i p hp
      rw [hnone] at hp
      cases hp
  | cons p above ih =>
    have hsome : t.parentAt? n.id = some p := by
      rw [hparent, parentAt?_of hb hn, Ast.Node.parent?, habove, List.head?_cons]
    obtain ⟨m, hm, rfl, hrest⟩ := (TreeBuilder.placed_of_mem hb hn).parent p above habove
    rw [markAbove]
    split
    · rename_i hnone
      rw [hsome] at hnone
      cases hnone
    · rename_i q hq
      rw [hsome, Option.some.injEq] at hq
      subst hq
      split
      · rename_i hin
        rw [hopen] at hin
        have hall := (TreeBuilder.placed_of_mem hb hm).opened hin
        rw [hrest] at hall
        have hnot : ¬ (j ∈ m.id :: above ∧ j ∉ TreeBuilder.openIds b.openNodes) := by
          rintro ⟨hj, hout⟩
          rcases List.mem_cons.1 hj with rfl | hj
          · exact hout hin
          · exact hout (hall hj)
        simp only [if_neg hnot, Option.map_id_fun', id]
      · rename_i hout
        rw [hopen] at hout
        have hwalk := ih hm (t := t.change m.id markBelow) hopen
          (fun i => by rw [parentAt?_change, hparent]) hrest
        rw [hwalk, getElem?_change, Option.map_map]
        congr 1
        funext slot
        by_cases hj : m.id = j
        · subst hj
          simp [hout, markBelow, Status.markBelow]
        · have hne : j ≠ m.id := Ne.symm hj
          simp [hj, hne]

private theorem dataAt_eq (t : TreeArena) (id : Nat) (slot : NodeSlot)
    (h : t.slots[id]? = some slot) : t.dataAt id = slot.data := by
  rw [dataAt, h, Option.elim_some]

private theorem change_congr {t : TreeArena} {id : Nat} {f g : NodeData → NodeData}
    (h : f (t.dataAt id) = g (t.dataAt id)) : t.change id f = t.change id g := by
  ext1
  · rfl
  · apply List.ext_getElem?
    intro i
    rw [getElem?_change, getElem?_change]
    cases hi : t.slots[i]? with
    | none => rfl
    | some slot =>
      by_cases hid : id = i
      · subst hid
        rw [dataAt_eq t id slot hi] at h
        simp [h]
      · simp [hid]
  · rfl
  · rfl

private theorem change_self (t : TreeArena) (id : Nat) : (t.change id fun data => data) = t :=
  congrArg (fun slots => { t with slots }) (List.modify_id id t.slots)

private theorem change_pushed (t : TreeArena) (data : NodeData) (f : NodeData → NodeData) :
    (t.pushed data).change t.slots.length f = t.pushed (f data) := by
  ext1
  · exact (language_pushed t data).trans (language_pushed t (f data)).symm
  · apply List.ext_getElem?
    intro i
    rw [getElem?_change, getElem?_pushed, getElem?_pushed]
    rcases Nat.lt_trichotomy i t.slots.length with hi | rfl | hi
    · rw [List.getElem?_append_left hi, List.getElem?_append_left hi, Option.map_map]
      congr 1
      funext slot
      simp [Nat.ne_of_gt hi]
    · rw [List.getElem?_concat_length, List.getElem?_concat_length]
      by_cases hp : t.openIds.head? = some t.slots.length
      · simp [hp]
      · simp [hp]
    · rw [List.getElem?_eq_none, List.getElem?_eq_none]
      · rfl
      · rw [List.length_append]
        exact hi
      · rw [List.length_append]
        exact hi
  · exact (openIds_pushed t data).trans (openIds_pushed t (f data)).symm
  · change (t.pushed data).root? = (t.pushed (f data)).root?
    unfold pushed
    split <;> rfl

/-- A close changes what the node says that is closed. -/
private theorem change_of_closed (language : String) (node : OpenNode) (outer : List OpenNode)
    (data : NodeData) :
    { of ⟨language, node :: outer, none⟩ with openIds := TreeBuilder.openIds outer }.change
        (countOpen outer) (fun _ => data) =
      of (TreeBuilder.add ⟨language, outer, none⟩ (.node data node.children none)) := by
  have hb : TreeBuilder.Unrooted ⟨language, node :: outer, none⟩ := fun _ => rfl
  ext1
  · exact (TreeBuilder.language_add ⟨language, outer, none⟩ _).symm
  · apply List.ext_getElem?
    intro i
    rw [getElem?_change, slots_of_restate hb (TreeBuilder.entries_closed language node outer data)]
    congr 1
    funext slot
    by_cases hid : countOpen outer = i
    · simp [hid]
    · simp [hid, Ne.symm hid]
  · exact (TreeBuilder.openIds_add ⟨language, outer, none⟩ _).symm
  · have hsize : (TreeBuilder.add ⟨language, outer, none⟩ (.node data node.children none)).size =
        TreeBuilder.size ⟨language, node :: outer, none⟩ := by
      rw [TreeBuilder.size_add rfl]
      simp only [TreeBuilder.size, countOpen, OpenNode.size, Tree.size, Option.elim_none]
      rfl
    change (of _).root? = (of _).root?
    rw [of, of, hsize]

/-! ## Runs -/

/-- The result in place that an answer and the builder behind it stand for. -/
def result {α : Type} : Except Fault α × TreeBuilder → EStateM.Result Fault TreeArena α
  | (.ok answer, b') => .ok answer (of b')
  | (.error fault, b') => .error fault (of b')

private theorem push_run (t : TreeArena) (data : NodeData) :
    (push data).run t =
      match t.checkStart data.kind data.region.offset with
      | .ok _ => .ok t.slots.length (t.pushed data)
      | .error fault => .error fault t := by
  simp only [push, EStateM.run_bind, EStateM.run_get]
  cases t.checkStart data.kind data.region.offset <;> rfl

private theorem changeData_run (t : TreeArena) (id : Nat) (f : NodeData → NodeData) :
    (changeData id f).run t =
      if id < t.slots.length then .ok () (t.change id f)
      else .error (.noChild id t.slots.length) t := by
  simp only [changeData, EStateM.run_bind, EStateM.run_get]
  by_cases hid : id < t.slots.length
  · rw [if_pos hid, if_neg (Nat.not_le_of_lt hid)]
    rfl
  · rw [if_neg hid, if_pos (Nat.le_of_not_lt hid)]
    rfl

/-- A close that is refused has taken the innermost open node away. -/
theorem of_popped (language : String) (node : OpenNode) (outer : List OpenNode) :
    { of ⟨language, node :: outer, none⟩ with openIds := TreeBuilder.openIds outer } =
      of (TreeBuilder.add ⟨language, outer, none⟩ (.node node.data node.children none)) := by
  have hb : TreeBuilder.Unrooted ⟨language, node :: outer, none⟩ := fun _ => rfl
  have hsame : { of ⟨language, node :: outer, none⟩ with
        openIds := TreeBuilder.openIds outer }.change (countOpen outer) (fun data => data) =
      { of ⟨language, node :: outer, none⟩ with
        openIds := TreeBuilder.openIds outer }.change (countOpen outer) fun _ => node.data :=
    change_congr (dataAt_innermost hb rfl)
  rw [← change_of_closed, ← hsame, change_self]

private theorem finishNode_run (language : String) (node : OpenNode) (outer : List OpenNode)
    (stop : Nat) :
    (finishNode stop).run (of ⟨language, node :: outer, none⟩) =
      result (TreeBuilder.finishNode ⟨language, node :: outer, none⟩ stop) := by
  have hb : TreeBuilder.Unrooted ⟨language, node :: outer, none⟩ := fun _ => rfl
  have hopen : (of ⟨language, node :: outer, none⟩).openIds =
      countOpen outer :: TreeBuilder.openIds outer := rfl
  have hdata := dataAt_innermost hb rfl
  have hlast := getLast?_children hb rfl
  have herror :
      (((of ⟨language, node :: outer, none⟩).childrenAt (countOpen outer)).any fun child =>
        ((of ⟨language, node :: outer, none⟩).dataAt child).status.hasAnyError) =
          node.children.any fun child => child.status.hasAnyError := by
    have hmap := congrArg (fun ds : List NodeData => ds.any fun d => d.status.hasAnyError)
      (map_dataAt_children hb rfl)
    simp only [List.any_map] at hmap
    exact hmap
  have hrefused := of_popped language node outer
  have haccepted : ∀ region : Region,
      { of ⟨language, node :: outer, none⟩ with openIds := TreeBuilder.openIds outer }.change
        (countOpen outer) (fun data =>
          if node.children.any fun child => child.status.hasAnyError then
            markBelow { data with region }
          else { data with region }) =
        of (TreeBuilder.add ⟨language, outer, none⟩ (.node { node.data with
          region
          status :=
            if node.children.any fun child => child.status.hasAnyError then
              node.data.status.markBelow
            else node.data.status } node.children none)) := by
    intro region
    rw [← change_of_closed]
    apply change_congr
    have hpopped : TreeArena.dataAt { of ⟨language, node :: outer, none⟩ with
        openIds := TreeBuilder.openIds outer } (countOpen outer) = node.data := hdata
    rw [hpopped]
    split <;> rfl
  simp only [finishNode, EStateM.run_bind, EStateM.run_get, hopen, hdata, herror,
    TreeBuilder.finishNode, TreeBuilder.closeData]
  cases hc : node.children.getLast? with
  | none =>
    rw [hc] at hlast
    rw [Option.map_eq_none_iff.1 hlast]
    cases hr : Region.ofBounds? node.data.region.offset stop with
    | error fault => exact congrArg (EStateM.Result.error fault) hrefused
    | ok region => exact congrArg (EStateM.Result.ok (countOpen outer)) (haccepted region)
  | some child =>
    rw [hc, Option.map_some] at hlast
    obtain ⟨i, hi, hchild⟩ := Option.map_eq_some_iff.1 hlast
    have hregion : ((of ⟨language, node :: outer, none⟩).dataAt i).region = child.region :=
      congrArg NodeData.region hchild
    simp only [hi, hregion]
    by_cases hstop : stop < child.region.stop
    · simp only [if_pos hstop]
      exact congrArg (EStateM.Result.error _) hrefused
    · simp only [if_neg hstop]
      cases hr : Region.ofBounds? node.data.region.offset stop with
      | error fault => exact congrArg (EStateM.Result.error fault) hrefused
      | ok region => exact congrArg (EStateM.Result.ok (countOpen outer)) (haccepted region)

/-- A builder in which what nodes say has been changed differs from the one before in its slots. -/
private theorem of_modifyData {above f : NodeData → NodeData} (h : b.modifyData above f i = .ok b')
    (ha : ∀ data, TreeBuilder.placement (above data) = TreeBuilder.placement data)
    (hf : ∀ data, TreeBuilder.placement (f data) = TreeBuilder.placement data) :
    { of b with slots := (of b').slots } = of b' := by
  ext1
  · exact (TreeBuilder.language_modifyData h).symm
  · rfl
  · exact (TreeBuilder.openIds_modifyData h ha hf).symm
  · change (of b).root? = (of b').root?
    rw [of, of, TreeBuilder.size_modifyData h]

private theorem change_of_modifyData {f : NodeData → NodeData} (hb : b.Unrooted)
    (hi : i < b.size) (h : b.modifyData (fun above => above) f i = .ok b')
    (hf : ∀ data, TreeBuilder.placement (f data) = TreeBuilder.placement data) :
    (of b).change i f = of b' := by
  obtain ⟨n, hn, rfl⟩ := TreeBuilder.exists_mem_nodes hb hi
  have hentries := TreeBuilder.entries_modifyData hb hn h (fun _ => rfl) hf
  have hslots : ((of b).change n.id f).slots = (of b').slots := by
    apply List.ext_getElem?
    intro j
    rw [getElem?_change, slots_of_restate hb hentries]
    congr 1
    funext slot
    by_cases hj : n.id = j
    · simp [hj]
    · simp [hj, Ne.symm hj]
  rw [← of_modifyData h (fun _ => rfl) hf, ← hslots]
  rfl

private theorem markAbove_of_setStatus {status : Status} (hb : b.Unrooted) (hi : i < b.size)
    (h : b.setStatus i status = .ok b') :
    (if status.hasAnyError then ((of b).change i (statusAt status)).markAbove i
      else (of b).change i (statusAt status)) = of b' := by
  rw [TreeBuilder.setStatus_eq] at h
  have ha : ∀ data, TreeBuilder.placement (statusAbove status data) =
      TreeBuilder.placement data := by
    intro data
    unfold statusAbove
    split <;> rfl
  have hf : ∀ data, TreeBuilder.placement (statusAt status data) =
      TreeBuilder.placement data := fun _ => rfl
  by_cases herror : status.hasAnyError = true
  · obtain ⟨n, hn, rfl⟩ := TreeBuilder.exists_mem_nodes hb hi
    have hentries := TreeBuilder.entries_modifyData hb hn h ha hf
    have hwalk := getElem?_markAbove (t := (of b).change n.id (statusAt status)) hb hn rfl
      fun j => parentAt?_change _ _ _ j
    have hslots : (((of b).change n.id (statusAt status)).markAbove n.id).slots =
        (of b').slots := by
      apply List.ext_getElem?
      intro j
      rw [hwalk, getElem?_change, slots_of_restate hb hentries, Option.map_map]
      congr 1
      funext slot
      by_cases hj : n.id = j
      · have hself : j ∉ n.ancestors := by
          intro hmem
          exact absurd ((TreeBuilder.placed_of_mem hb hn).lt j hmem) (by omega)
        simp [hj, hself]
      · simp only [Function.comp_apply, if_neg hj, if_neg (Ne.symm hj)]
        split
        · rw [statusAbove, if_pos herror]
          rfl
        · rfl
    rw [if_pos herror, ← of_modifyData h ha hf, ← hslots, ← markAbove_eq]
    rfl
  · have hsame : statusAbove status = fun above => above := by
      funext above
      rw [statusAbove, if_neg herror]
    rw [if_neg herror]
    rw [hsame] at h
    exact change_of_modifyData hb hi h hf

private theorem push_of (hb : b.Unrooted) (data : NodeData) :
    (push data).run (of b) =
      match b.addLeaf data with
      | .ok (id, b') => .ok id (of b')
      | .error fault => .error fault (of b) := by
  rw [push_run, checkStart_of hb, TreeBuilder.addLeaf]
  cases hc : b.checkStart data.kind data.region.offset with
  | error fault => rfl
  | ok checked =>
    have hroot := TreeBuilder.checkStart_eq_ok hb hc
    exact congrArg₂ EStateM.Result.ok (length_slots_of hb) (pushed_of_add hb hroot data)

private theorem changeData_of {f : NodeData → NodeData} (hb : b.Unrooted)
    (hf : ∀ data, TreeBuilder.placement (f data) = TreeBuilder.placement data) (id : Nat) :
    (changeData id f).run (of b) =
      match b.modifyData (fun above => above) f id with
      | .ok b' => .ok () (of b')
      | .error fault => .error fault (of b) := by
  rw [changeData_run, length_slots_of hb]
  by_cases hid : id < b.size
  · cases h : b.modifyData (fun above => above) f id with
    | error fault =>
      unfold TreeBuilder.modifyData at h
      rw [if_pos hid] at h
      cases h
    | ok b' =>
      rw [if_pos hid]
      exact congrArg (EStateM.Result.ok ()) (change_of_modifyData hb hid h hf)
  · rw [if_neg hid, TreeBuilder.modifyData, if_neg hid]

private theorem setStatus_of (hb : b.Unrooted) (id : Nat) (status : Status) :
    (setStatus id status).run (of b) =
      match b.setStatus id status with
      | .ok b' => .ok () (of b')
      | .error fault => .error fault (of b) := by
  simp only [setStatus, EStateM.run_bind, changeData_run, length_slots_of hb]
  by_cases hid : id < b.size
  · cases h : b.setStatus id status with
    | error fault =>
      rw [TreeBuilder.setStatus_eq, TreeBuilder.modifyData, if_pos hid] at h
      cases h
    | ok b' =>
      simp only [if_pos hid]
      rw [← markAbove_of_setStatus hb hid h]
      by_cases herror : status.hasAnyError = true
      · rw [if_pos herror, if_pos herror]
        rfl
      · rw [if_neg herror, if_neg herror]
        rfl
  · rw [if_neg hid, TreeBuilder.setStatus_eq, TreeBuilder.modifyData, if_neg hid]

/-- A call has the same answer, and writes what becomes of the builder. -/
theorem call_run (hb : b.Unrooted) (c : BuildCall) :
    (call c).run (of b) = result (b.call c) := by
  cases c with
  | start kind offset =>
    simp only [call, EStateM.run_bind, TreeBuilder.call, TreeBuilder.startNode]
    cases hr : Region.empty? offset with
    | error fault => rfl
    | ok region =>
      obtain rfl : region.offset = offset := (Region.make?_eq_ok_iff.1 hr).1
      have hregion : (ofExcept (.ok region) : EStateM Fault TreeArena Region).run (of b) =
          .ok region (of b) := rfl
      simp only [hregion, push_run, checkStart_of hb]
      cases hc : b.checkStart kind region.offset with
      | error fault => rfl
      | ok checked =>
        have hopened := pushed_of_opened hb (TreeBuilder.checkStart_eq_ok hb hc) { kind, region }
        rw [← length_slots_of hb] at hopened
        exact congrArg₂ (fun id t => EStateM.Result.ok (some id) t) (length_slots_of hb) hopened
  | finish stop =>
    obtain ⟨language, openNodes, root?⟩ := b
    cases openNodes with
    | nil => rfl
    | cons node outer =>
      obtain rfl : root? = none := hb (List.cons_ne_nil _ _)
      simp only [call, EStateM.run_bind, finishNode_run, TreeBuilder.call]
      cases h : TreeBuilder.finishNode ⟨language, node :: outer, none⟩ stop with
      | mk answer b' => cases answer <;> rfl
  | leaf kind region =>
    simp only [call, EStateM.run_bind, push_of hb, TreeBuilder.call, TreeBuilder.leaf]
    cases b.addLeaf { kind, region } <;> rfl
  | textLeaf kind region text =>
    have hpush := push_run (of b) { kind, region }
    have hchange := change_pushed (of b) { kind, region } fun data =>
      { data with text := some text }
    rw [checkStart_of hb] at hpush
    simp only [call, EStateM.run_bind, hpush, TreeBuilder.call, TreeBuilder.textLeaf,
      TreeBuilder.addLeaf]
    cases hc : b.checkStart kind region.offset with
    | error fault => rfl
    | ok checked =>
      have hadd := pushed_of_add hb (TreeBuilder.checkStart_eq_ok hb hc)
        { kind, region, text := some text }
      exact congrArg₂ (fun id t => EStateM.Result.ok (some id) t) (length_slots_of hb)
        (hchange.trans hadd)
  | setText id text =>
    have hchange := changeData_of (f := fun data => { data with text := some text }) hb
      (fun _ => rfl) id
    simp only [call, EStateM.run_bind, hchange, TreeBuilder.call, TreeBuilder.setText]
    cases b.modifyData (fun above => above) (fun data => { data with text := some text }) id <;> rfl
  | setStatus id status =>
    simp only [call, EStateM.run_bind, setStatus_of hb, TreeBuilder.call]
    cases b.setStatus id status <;> rfl
  | markEmbedding id language flags =>
    have hchange := changeData_of
      (f := fun data => { data with embedding := some ⟨language, flags⟩ }) hb (fun _ => rfl) id
    simp only [call, EStateM.run_bind, hchange, TreeBuilder.call, TreeBuilder.markEmbedding]
    cases b.modifyData (fun above => above)
      (fun data => { data with embedding := some ⟨language, flags⟩ }) id <;> rfl

theorem after_of (hb : b.Unrooted) (calls : List BuildCall) :
    (of b).after calls = of (b.after calls) := by
  induction calls generalizing b with
  | nil => rfl
  | cons c calls ih =>
    have hcall : (b.call c).2.Unrooted := hb.call c
    have hafter : b.after (c :: calls) = (b.call c).2.after calls := rfl
    rw [after, call_run hb, hafter, ← ih hcall]
    cases h : b.call c with
    | mk answer b' => cases answer <;> rfl

private theorem length_openIds (nodes : List OpenNode) :
    (TreeBuilder.openIds nodes).length = nodes.length := by
  induction nodes with
  | nil => rfl
  | cons node outer ih => rw [TreeBuilder.openIds, List.length_cons, List.length_cons, ih]

private theorem slots_of_finish {ast : Ast} (hb : b.Unrooted) (h : b.finish = .ok ast) :
    (of b).slots = ast.nodes.map Ast.Node.slot := by
  have hentries : b.entries = ast.nodes.map Ast.Node.entry := TreeBuilder.entries_of_finish h
  apply List.ext_getElem?
  intro i
  rw [slots_of, List.getElem?_map]
  cases hn : ast.nodes[i]? with
  | none => rw [hentries, List.getElem?_map, hn, Option.map_none, Option.map_none, Option.map_none]
  | some n =>
    have he : b.entries[i]? = some n.entry := by
      rw [hentries, List.getElem?_map, hn, Option.map_some]
    obtain rfl : n.id = i := TreeBuilder.fst_of_getElem? hb he
    rw [he, TreeBuilder.childrenOf_finished hb h (List.mem_of_getElem? hn)]
    rfl

/-- What comes out is the list of the nodes of the tree, with their links. -/
theorem finish_of (hb : b.Unrooted) :
    (of b).finish = b.finish.map fun ast => (ast.language, ast.nodes.map Ast.Node.slot, 0) := by
  obtain ⟨language, openNodes, root?⟩ := b
  cases openNodes with
  | cons node outer =>
    exact congrArg (fun count => Except.error (Refusal.stillOpen count (countOpen outer)).fault)
      (length_openIds (node :: outer))
  | nil =>
    cases root? with
    | none => rfl
    | some root =>
      have hslots : (of ⟨language, [], some root⟩).slots =
          (Ast.nodes ⟨language, root⟩).map Ast.Node.slot :=
        slots_of_finish hb rfl
      have hpos : 0 < TreeBuilder.size ⟨language, [], some root⟩ :=
        Nat.add_pos_right _ root.size_pos
      have hroot := root?_of hpos
      have hopen : (of ⟨language, [], some root⟩).openIds = [] := rfl
      rw [finish, hopen, hroot, hslots]
      rfl

end Of

end TreeArena

end SourceModel
