import Mathlib.Data.List.Induction
import SourceModel.Proofs.Attachment.Index
import SourceModel.Proofs.Sorting
import SourceModel.Tree.Problem

/-!
# Problems of a tree and its foreign trees

A node is known by its place: the links that lead to it from the root, each to a child or to the
foreign tree. A walk through a tree meets every place once, a node before its foreign tree and that
before the children. The problems are those of the nodes in error in the order of the walk, sorted
by where they start; those that start together stay in that order.
-/

namespace SourceModel

/-! ## Places -/

/-- A way from a node to one right below it. -/
inductive Link where
  | child (index : Nat)
  | foreign
deriving DecidableEq, Repr

/-- Whether a walk follows one link of a node before another one. -/
def Link.Before : Link → Link → Prop
  | foreign, child _ => True
  | child i, child j => i < j
  | _, foreign => False

/-- A place in a tree, by the links that lead to it. -/
abbrev Place := List Link

/-- The order of a walk: a place comes before those below it, and links decide where places
part. -/
def Place.Before : Place → Place → Prop := List.Lex Link.Before

namespace Tree

def at? : Place → Tree → Option Tree
  | [], t => some t
  | .child i :: place, t => t.children[i]?.bind (at? place)
  | .foreign :: place, t => t.foreign.bind (at? place)

/-- What is met behind a link, with places that start with the link. -/
def behind (link : Link) (visits : List (Place × Tree)) : List (Place × Tree) :=
  visits.map fun v => (link :: v.1, v.2)

mutual
/-- The places of a tree and the subtrees there, in the order of a walk. -/
def visits : Tree → List (Place × Tree)
  | .node data children foreign =>
    ([], .node data children foreign) :: (visitsForeign foreign ++ visitsAmong 0 children)

def visitsForeign : Option Tree → List (Place × Tree)
  | none => []
  | some foreign => behind .foreign foreign.visits

/-- The places of several children, of which the first one has the given number. -/
def visitsAmong (index : Nat) : List Tree → List (Place × Tree)
  | [] => []
  | t :: ts => behind (.child index) t.visits ++ visitsAmong (index + 1) ts
end

section Visits

variable {link : Link} {vs : List (Place × Tree)} {place : Place} {t u : Tree}

theorem mem_behind :
    (place, u) ∈ behind link vs ↔ ∃ rest, place = link :: rest ∧ (rest, u) ∈ vs := by
  simp [behind, and_comm, eq_comm]

mutual
/-- A walk meets just the places that the links lead to. -/
theorem mem_visits : ∀ {t : Tree} {place : Place} {u : Tree},
    (place, u) ∈ t.visits ↔ t.at? place = some u
  | .node data children foreign, place, u => by
    rw [visits, List.mem_cons, List.mem_append, mem_visitsForeign, mem_visitsAmong]
    cases place with
    | nil => simp [at?, Eq.comm (a := u)]
    | cons link rest => cases link <;> simp [at?, Tree.children, Tree.foreign]

theorem mem_visitsForeign : ∀ {foreign : Option Tree} {place : Place} {u : Tree},
    (place, u) ∈ visitsForeign foreign ↔
      ∃ rest, place = .foreign :: rest ∧ foreign.bind (at? rest) = some u
  | none, place, u => by simp [visitsForeign]
  | some foreign, place, u => by
    rw [visitsForeign, mem_behind]
    simp only [mem_visits, Option.bind_some]

theorem mem_visitsAmong : ∀ {index : Nat} {ts : List Tree} {place : Place} {u : Tree},
    (place, u) ∈ visitsAmong index ts ↔
      ∃ i rest, place = .child (index + i) :: rest ∧ ts[i]?.bind (at? rest) = some u
  | index, [], place, u => by simp [visitsAmong]
  | index, t :: ts, place, u => by
    rw [visitsAmong, List.mem_append, mem_behind, mem_visitsAmong]
    constructor
    · rintro (⟨rest, rfl, hmem⟩ | ⟨i, rest, rfl, hu⟩)
      · exact ⟨0, rest, rfl, mem_visits.1 hmem⟩
      · exact ⟨i + 1, rest, by rw [Nat.add_assoc, Nat.add_comm 1], hu⟩
    · rintro ⟨i, rest, rfl, hu⟩
      cases i with
      | zero => exact .inl ⟨rest, rfl, mem_visits.2 hu⟩
      | succ i => exact .inr ⟨i, rest, by rw [Nat.add_assoc, Nat.add_comm 1], hu⟩
end

/-- Whether the places of visits come one after the other in the order of a walk. -/
def InOrder (vs : List (Place × Tree)) : Prop := vs.Pairwise fun v w => v.1.Before w.1

private theorem InOrder.behind (h : InOrder vs) (link : Link) : InOrder (behind link vs) :=
  List.pairwise_map.2 (h.imp .cons)

mutual
/-- A walk meets every place once, a node before what lies below it, and the foreign tree of a node
before its children. -/
theorem inOrder_visits : ∀ t : Tree, InOrder t.visits
  | .node data children foreign => by
    rw [visits]
    refine List.pairwise_cons.2 ⟨?_, List.pairwise_append.2
      ⟨inOrder_visitsForeign foreign, inOrder_visitsAmong 0 children, ?_⟩⟩
    · rintro ⟨place, u⟩ hv
      rcases List.mem_append.1 hv with hv | hv
      · obtain ⟨rest, rfl, -⟩ := mem_visitsForeign.1 hv
        exact .nil
      · obtain ⟨i, rest, rfl, -⟩ := mem_visitsAmong.1 hv
        exact .nil
    · rintro ⟨place, u⟩ hv ⟨place', u'⟩ hw
      obtain ⟨rest, rfl, -⟩ := mem_visitsForeign.1 hv
      obtain ⟨i, rest', rfl, -⟩ := mem_visitsAmong.1 hw
      exact .rel trivial

private theorem inOrder_visitsForeign : ∀ foreign : Option Tree, InOrder (visitsForeign foreign)
  | none => .nil
  | some foreign => (inOrder_visits foreign).behind .foreign

private theorem inOrder_visitsAmong :
    ∀ (index : Nat) (ts : List Tree), InOrder (visitsAmong index ts)
  | _, [] => .nil
  | index, t :: ts => by
    rw [visitsAmong]
    refine List.pairwise_append.2
      ⟨(inOrder_visits t).behind _, inOrder_visitsAmong (index + 1) ts, ?_⟩
    rintro ⟨place, u⟩ hv ⟨place', u'⟩ hw
    obtain ⟨rest, rfl, -⟩ := mem_behind.1 hv
    obtain ⟨i, rest', rfl, -⟩ := mem_visitsAmong.1 hw
    exact .rel (show index < index + 1 + i by omega)
end

private theorem not_before_self (place : Place) : ¬ place.Before place := by
  induction place with
  | nil => nofun
  | cons link rest ih =>
    intro h
    cases h with
    | cons h => exact ih h
    | rel h =>
      cases link with
      | child i => exact Nat.lt_irrefl i h
      | foreign => exact h

theorem InOrder.nodup (h : InOrder vs) : (vs.map Prod.fst).Nodup := by
  refine List.pairwise_map.2 (h.imp fun {v w} hbefore heq => ?_)
  exact not_before_self w.1 (heq ▸ hbefore)

/-- At an embedding node a walk goes into the foreign tree before the children. -/
example (data : NodeData) : (node data [leaf data] (some (leaf data))).visits.map Prod.fst =
    [[], [.foreign], [.child 0]] := rfl

end Visits

/-! ## What is reported -/

def reports (vs : List (Place × Tree)) : List Problem :=
  (vs.filter fun v => v.2.status.isError).map fun v => Problem.ofNode v.2.data

section Reports

private theorem reports_append (vs ws : List (Place × Tree)) :
    reports (vs ++ ws) = reports vs ++ reports ws := by
  rw [reports, List.filter_append, List.map_append, reports, reports]

private theorem reports_behind (link : Link) (vs : List (Place × Tree)) :
    reports (behind link vs) = reports vs := by
  rw [reports, behind, List.filter_map, List.map_map]
  rfl

private theorem reports_cons (place : Place) (t : Tree) (vs : List (Place × Tree)) :
    reports ((place, t) :: vs) =
      (if t.status.isError then [Problem.ofNode t.data] else []) ++ reports vs := by
  rw [reports, List.filter_cons]
  split <;> rfl

mutual
private theorem problems_eq_reports : ∀ t : Tree, t.problems = reports t.visits
  | .node data children none => by
    rw [problems, problemsAmong_eq_reports 0, visits, reports_cons, reports_append, visitsForeign]
    rfl
  | .node data children (some foreign) => by
    rw [problems, problemsAmong_eq_reports 0, problems_eq_reports foreign, visits, reports_cons,
      reports_append, visitsForeign, reports_behind, List.append_assoc]
    rfl

private theorem problemsAmong_eq_reports : ∀ (index : Nat) (ts : List Tree),
    problemsAmong ts = reports (visitsAmong index ts)
  | _, [] => rfl
  | index, t :: ts => by
    rw [problemsAmong, problems_eq_reports t, problemsAmong_eq_reports (index + 1) ts, visitsAmong,
      reports_append, reports_behind]
end

end Reports

end Tree

/-! ## Details of a status -/

def AttachmentValue.detail? : AttachmentValue → Option StatusDetail
  | detail d => some d
  | _ => none

namespace Attachments

private theorem bucket_attached (as : List Attachment) (kind : AttachmentKind) :
    (as.foldl add ({} : Attachments)).bucket kind = as.filter fun a => a.kind = kind := by
  induction as using List.reverseRecOn with
  | nil => rfl
  | append_singleton as a ih =>
    rw [List.foldl_append, List.foldl_cons, List.foldl_nil, bucket_add, ih, List.filter_append]
    by_cases h : kind = a.kind
    · simp [h]
    · simp [h, Ne.symm h]

/-- The detail of objects that have been attached is the first detail among them. -/
theorem detail?_attached (as : List Attachment) :
    (as.foldl add ({} : Attachments)).detail? = as.findSome? fun a => a.value.detail? := by
  rw [detail?, first?, bucket_attached, List.head?_filter]
  induction as with
  | nil => rfl
  | cons a as ih =>
    obtain ⟨identity, value⟩ := a
    cases value with
    | detail d => rfl
    | text value => exact ih
    | number value => exact ih
    | flag value => exact ih

end Attachments

/-- What the problem of a node says. Where objects have only been attached to the node, the detail
is the first one of them that is a detail. -/
structure Reported (data : NodeData) (p : Problem) : Prop where
  status_eq : p.status = data.status
  of_detail : ∀ d, data.attachments.detail? = some d → p.region = d.region ∧ p.message = d.text
  of_none : data.attachments.detail? = none → p.region = data.region ∧
    p.message = s!"syntax error in {data.kind.name} (code {data.status.code.toNat})"
  first : ∀ as : List Attachment, data.attachments = as.foldl Attachments.add {} →
    data.attachments.detail? = as.findSome? fun a => a.value.detail?

private theorem reported_ofNode (data : NodeData) : Reported data (Problem.ofNode data) := by
  constructor
  · unfold Problem.ofNode
    split <;> rfl
  · intro d hd
    rw [Problem.ofNode, hd]
    exact ⟨rfl, rfl⟩
  · intro hd
    rw [Problem.ofNode, hd]
    exact ⟨rfl, rfl⟩
  · intro as has
    rw [has, Attachments.detail?_attached]

/-- The problems of a tree and its foreign trees. The visits of a walk are those of all places, each
met once, a node before its foreign tree and that before the children. There is one problem for each
place with a node in error, and they are sorted by offset; those of one offset stand in the order of
the walk. -/
structure Collected (t : Tree) (problems : List Problem) : Prop where
  places : ∀ place u, (place, u) ∈ t.visits ↔ t.at? place = some u
  once : (t.visits.map Prod.fst).Nodup
  inOrder : Tree.InOrder t.visits
  reported : ∀ v ∈ t.visits, Reported v.2.data (Problem.ofNode v.2.data)
  perm : problems.Perm (Tree.reports t.visits)
  sorted : problems.Pairwise fun p q => p.region.offset ≤ q.region.offset
  stable : ∀ offset, problems.filter (fun p => p.region.offset = offset) =
    (Tree.reports t.visits).filter fun p => p.region.offset = offset

/-- The problems of a syntax tree are collected from all its nodes and those of the foreign trees at
any depth, whatever is attached to them. -/
theorem Ast.collected_problems (ast : Ast) : Collected ast.root ast.problems := by
  have hsort : ast.problems =
      sortOn (fun p => p.region.offset) (Tree.reports ast.root.visits) := by
    rw [← Tree.problems_eq_reports]
    rfl
  rw [hsort]
  have hinOrder := Tree.inOrder_visits ast.root
  exact {
    places := fun _ _ => Tree.mem_visits
    once := hinOrder.nodup
    inOrder := hinOrder
    reported := fun v _ => reported_ofNode v.2.data
    perm := sortOn_perm _ _
    sorted := pairwise_sortOn _ _
    stable := filter_key_sortOn _ _ }

end SourceModel
