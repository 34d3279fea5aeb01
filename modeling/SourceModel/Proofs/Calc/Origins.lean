import SourceModel.Proofs.Calc.Placement

/-!
# Where the entries of a draft come from

Every entry of a draft is made of one node of the concrete trees, at the offset where that node
starts. So what holds of all entries is shown node by node, from what holds of the nodes.
-/

namespace SourceModel.Calc

open Draft (entriesAmong)

/-- A node that starts at `pos` is one of the trees at `offset`, or stands below one. -/
inductive HasNode : Nat → List Cst → Nat → CstKind → List Cst → Prop
  | here {offset : Nat} {kind : CstKind} {children cs : List Cst} :
    HasNode offset (.node kind children :: cs) offset kind children
  | inside {offset pos : Nat} {kind kind' : CstKind} {children children' cs : List Cst}
    (h : HasNode offset children pos kind' children') :
    HasNode offset (.node kind children :: cs) pos kind' children'
  | behind {offset pos : Nat} {c : Cst} {kind' : CstKind} {children' cs : List Cst}
    (h : HasNode (offset + c.width) cs pos kind' children') :
    HasNode offset (c :: cs) pos kind' children'

/-- The entries that are made of a node itself. -/
inductive MadeOf (offset : Nat) (kind : CstKind) (children : List Cst) : Entry → Prop
  | branch {kind' : SyntaxKind} {text : Option String} {ds : List Draft}
    (hk : kind' ∈ [Kind.assignment, Kind.exprStatement, Kind.paren, Kind.binary]) :
    MadeOf offset kind children
      { data := { kind := kind', region := place offset (.node kind children),
                  status := TreeBuilder.statusOver (Draft.trees ds), text } }
  | name {start : Nat} {text : String}
    (hf : Cst.findToken? .ident offset children = some (start, text)) :
    MadeOf offset kind children
      (textEntry Kind.name (place start (.token .ident text)) (some (start, text)))
  | nameRef :
    MadeOf offset kind children (textEntry Kind.nameRef (place offset (.node kind children))
      (Cst.findToken? .ident offset children))
  | literal :
    MadeOf offset kind children (literalEntry offset (place offset (.node kind children)) children)
  | template {kind' : SyntaxKind} {flags : EmbeddingFlags} {start : Nat} {text : String}
    (hk : kind' ∈ [Kind.templateBlock, Kind.templateExpr])
    (hs : kind = .templateStatement ∨ kind = .templateExpr)
    (hf : Cst.findToken? .template offset children = some (start, text)) :
    MadeOf offset kind children
      (chunkEntry kind' flags (place offset (.node kind children)) start text)
  | error : MadeOf offset kind children (errorEntry (place offset (.node kind children)))

section Origins

variable {offset pos : Nat} {c : Cst} {cs children : List Cst} {kind : CstKind} {e : Entry}

theorem HasNode.sound (h : HasNode offset cs pos kind children) (hs : SoundAmong cs) :
    Sound (.node kind children) := by
  induction h with
  | here => exact hs.1
  | inside _ ih => exact ih hs.1.2.2
  | behind _ ih => exact ih hs.2

theorem HasNode.stop_le (h : HasNode offset cs pos kind children) :
    pos + Cst.widths children ≤ offset + Cst.widths cs := by
  induction h with
  | here =>
    simp only [Cst.widths, Cst.width]
    omega
  | inside _ ih =>
    simp only [Cst.widths, Cst.width]
    omega
  | behind _ ih =>
    simp only [Cst.widths]
    omega

private theorem HasNode.cons (h : HasNode offset [c] pos kind children) (cs : List Cst) :
    HasNode offset (c :: cs) pos kind children := by
  cases h with
  | here => exact .here
  | inside h => exact .inside h
  | behind h => cases h

def ComesFrom (offset : Nat) (cs : List Cst) (e : Entry) : Prop :=
  ∃ pos kind children, HasNode offset cs pos kind children ∧ MadeOf pos kind children e

def OriginsOf (c : Cst) : Prop :=
  ∀ offset, ∀ e ∈ entriesAmong (drafts offset c), ComesFrom offset [c] e

private theorem comesFrom_among (hcs : ∀ c ∈ cs, OriginsOf c) (offset : Nat) :
    ∀ e ∈ entriesAmong (draftsAmong offset cs), ComesFrom offset cs e := by
  induction cs generalizing offset with
  | nil => exact List.forall_mem_nil _
  | cons c cs ih =>
    obtain ⟨hc, hcs⟩ := List.forall_mem_cons.1 hcs
    rw [draftsAmong, Draft.entriesAmong_append]
    refine List.forall_mem_append.2 ⟨fun e he => ?_, fun e he => ?_⟩
    · obtain ⟨pos, kind, children, hnode, hmade⟩ := hc offset e he
      exact ⟨pos, kind, children, hnode.cons cs, hmade⟩
    · obtain ⟨pos, kind, children, hnode, hmade⟩ := ih hcs _ e he
      exact ⟨pos, kind, children, .behind hnode, hmade⟩

private theorem origins_draft (c : Cst) : OriginsOf c := by
  refine Cst.induction ?_ ?_ c
  · exact fun kind text offset => List.forall_mem_nil _
  · intro kind children ih offset
    have hhere : ∀ {e : Entry}, MadeOf offset kind children e →
        ComesFrom offset [.node kind children] e := fun h => ⟨_, _, _, .here, h⟩
    have hchildren : ∀ e ∈ entriesAmong (draftsAmong offset children),
        ComesFrom offset [.node kind children] e := by
      intro e he
      obtain ⟨pos, kind', children', hnode, hmade⟩ := comesFrom_among ih offset e he
      exact ⟨pos, kind', children', .inside hnode, hmade⟩
    have hbranch : ∀ {kind' : SyntaxKind} {text : Option String} {ds : List Draft},
        kind' ∈ [Kind.assignment, Kind.exprStatement, Kind.paren, Kind.binary] →
        (∀ e ∈ entriesAmong ds, ComesFrom offset [.node kind children] e) →
        ∀ e ∈ entriesAmong [.branch kind' (place offset (.node kind children)) text ds],
          ComesFrom offset [.node kind children] e := by
      intro kind' text ds hk hds
      simp only [entriesAmong, Draft.branch, Draft.entries, List.append_nil]
      exact List.forall_mem_cons.2 ⟨hhere (.branch hk), hds⟩
    have hchunk : ∀ {kind' : SyntaxKind} {flags : EmbeddingFlags},
        kind' ∈ [Kind.templateBlock, Kind.templateExpr] →
        kind = .templateStatement ∨ kind = .templateExpr →
        ∀ e ∈ entriesAmong (chunkDrafts kind' flags offset (place offset (.node kind children))
          children), ComesFrom offset [.node kind children] e := by
      intro kind' flags hk hs
      unfold chunkDrafts
      cases hf : Cst.findToken? .template offset children with
      | none => exact List.forall_mem_nil _
      | some found => exact List.forall_mem_singleton.2 (hhere (.template hk hs hf))
    cases kind with
    | program => exact List.forall_mem_nil _
    | assignment =>
      refine hbranch (by decide) ?_
      rw [Draft.entriesAmong_append]
      refine List.forall_mem_append.2 ⟨?_, hchildren⟩
      unfold nameDrafts
      cases hf : Cst.findToken? .ident offset children with
      | none => exact List.forall_mem_nil _
      | some found => exact List.forall_mem_singleton.2 (hhere (.name hf))
    | exprStatement => exact hbranch (by decide) hchildren
    | paren => exact hbranch (by decide) hchildren
    | binary => exact hbranch (by decide) hchildren
    | nameRef => exact List.forall_mem_singleton.2 (hhere .nameRef)
    | literal => exact List.forall_mem_singleton.2 (hhere .literal)
    | templateStatement => exact hchunk (by decide) (.inl rfl)
    | templateExpr => exact hchunk (by decide) (.inr rfl)
    | error => exact List.forall_mem_singleton.2 (hhere .error)

theorem comesFrom_draftsAmong (offset : Nat) (cs : List Cst) :
    ∀ e ∈ entriesAmong (draftsAmong offset cs), ComesFrom offset cs e :=
  comesFrom_among (fun c _ => origins_draft c) offset

theorem exists_starts_template {start : Nat} {text : String} (hs : Sound (.node kind children))
    (hk : kind = .templateStatement ∨ kind = .templateExpr)
    (hf : Cst.findToken? .template offset children = some (start, text)) :
    kind ≠ .error ∧ ∃ rest, Starts .template offset children start text rest := by
  have hstarts : kind ≠ .error ∧ StartsWith .template children := by
    rcases hk with rfl | rfl <;> exact ⟨by decide, hs.2.1⟩
  obtain ⟨hne, hstarts⟩ := hstarts
  obtain ⟨start', text', rest, hw⟩ := hstarts.exists_starts rfl offset
  rw [hw.findToken?_eq] at hf
  cases hf
  exact ⟨hne, rest, hw⟩

end Origins

end SourceModel.Calc
