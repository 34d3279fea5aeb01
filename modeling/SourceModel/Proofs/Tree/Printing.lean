import SourceModel.Proofs.FailFast
import SourceModel.Proofs.Tree.Lines
import SourceModel.Proofs.Tree.Problems

/-!
# Prints

A print shows every place of a tree once: a node, then its children, then its foreign tree, if
foreign trees are asked for. Each place has a line of its own, which is indented once for each link
on the way to it.

The depth is the only thing that one line leaves to the next, and it is taken back behind the nodes
below, also if one of them is refused. So a print comes to handing its lines to the sink one by one,
and the first refusal ends both.
-/

namespace SourceModel

/-! ## The places that are shown -/

/-- Whether a print follows one link of a node before another one. -/
def Link.ShownBefore : Link → Link → Prop
  | child i, child j => i < j
  | child _, foreign => True
  | foreign, _ => False

/-- The order of a print: a place comes before those below it, and links decide where places
part. -/
def Place.ShownBefore : Place → Place → Prop := List.Lex Link.ShownBefore

def Place.isShown (includeForeign : Bool) (place : Place) : Bool :=
  includeForeign || !place.contains .foreign

namespace Tree

mutual
/-- The places of a tree that a print shows and the subtrees there, in the order of the lines. -/
def shown (includeForeign : Bool) : Tree → List (Place × Tree)
  | .node data children foreign =>
    ([], .node data children foreign) ::
      (shownAmong includeForeign 0 children ++ shownForeign includeForeign foreign)

def shownForeign (includeForeign : Bool) : Option Tree → List (Place × Tree)
  | none => []
  | some foreign => if includeForeign then behind .foreign (foreign.shown includeForeign) else []

/-- The places of several children, of which the first one has the given number. -/
def shownAmong (includeForeign : Bool) (index : Nat) : List Tree → List (Place × Tree)
  | [] => []
  | t :: ts =>
    behind (.child index) (t.shown includeForeign) ++ shownAmong includeForeign (index + 1) ts
end

section Shown

variable {includeForeign : Bool} {vs : List (Place × Tree)} {t u : Tree} {place : Place}

private theorem filter_behind_child (index : Nat) (vs : List (Place × Tree)) :
    (behind (.child index) vs).filter (fun v => v.1.isShown includeForeign) =
      behind (.child index) (vs.filter fun v => v.1.isShown includeForeign) := by
  rw [behind, List.filter_map, behind]
  refine congrArg _ (List.filter_congr fun v _ => ?_)
  simp [Place.isShown]

private theorem filter_behind_foreign (vs : List (Place × Tree)) :
    (behind .foreign vs).filter (fun v => v.1.isShown includeForeign) =
      if includeForeign then behind .foreign (vs.filter fun v => v.1.isShown includeForeign)
      else [] := by
  cases includeForeign with
  | true => simp [Place.isShown]
  | false =>
    refine List.filter_eq_nil_iff.2 fun v hv => ?_
    obtain ⟨rest, hrest, -⟩ := mem_behind.1 hv
    simp [Place.isShown, hrest]

mutual
/-- A print shows the places that a walk meets, apart from those in foreign trees if these are not
asked for. -/
theorem shown_perm : ∀ t : Tree,
    (t.shown includeForeign).Perm (t.visits.filter fun v => v.1.isShown includeForeign)
  | .node data children foreign => by
    have hroot : Place.isShown includeForeign [] = true := by simp [Place.isShown]
    rw [shown, visits, List.filter_cons, if_pos hroot, List.filter_append]
    refine .cons _ (List.perm_append_comm.trans ?_)
    exact (shownForeign_perm foreign).append (shownAmong_perm 0 children)

private theorem shownForeign_perm :
    ∀ foreign : Option Tree, (shownForeign includeForeign foreign).Perm
    ((visitsForeign foreign).filter fun v => v.1.isShown includeForeign)
  | none => .nil
  | some foreign => by
    rw [shownForeign, visitsForeign, filter_behind_foreign]
    split
    · exact (shown_perm foreign).map _
    · exact .nil

private theorem shownAmong_perm : ∀ (index : Nat) (ts : List Tree),
    (shownAmong includeForeign index ts).Perm
      ((visitsAmong index ts).filter fun v => v.1.isShown includeForeign)
  | _, [] => .nil
  | index, t :: ts => by
    rw [shownAmong, visitsAmong, List.filter_append, filter_behind_child]
    exact ((shown_perm t).map _).append (shownAmong_perm (index + 1) ts)
end

private theorem mem_shown : (place, u) ∈ t.shown includeForeign ↔
    t.at? place = some u ∧ place.isShown includeForeign = true := by
  rw [(shown_perm t).mem_iff, List.mem_filter, mem_visits]

private theorem nodup_shown (includeForeign : Bool) (t : Tree) :
    ((t.shown includeForeign).map Prod.fst).Nodup := by
  refine (((shown_perm t).map Prod.fst).nodup_iff).2 ?_
  exact (inOrder_visits t).nodup.sublist (List.filter_sublist.map _)

private theorem exists_of_mem_shownForeign {foreign : Option Tree}
    (h : (place, u) ∈ shownForeign includeForeign foreign) : ∃ rest, place = .foreign :: rest := by
  rw [(shownForeign_perm foreign).mem_iff] at h
  obtain ⟨rest, hplace, -⟩ := mem_visitsForeign.1 (List.mem_of_mem_filter h)
  exact ⟨rest, hplace⟩

private theorem exists_of_mem_shownAmong {index : Nat} {ts : List Tree}
    (h : (place, u) ∈ shownAmong includeForeign index ts) :
    ∃ i rest, place = .child (index + i) :: rest := by
  rw [(shownAmong_perm index ts).mem_iff] at h
  obtain ⟨i, rest, hplace, -⟩ := mem_visitsAmong.1 (List.mem_of_mem_filter h)
  exact ⟨i, rest, hplace⟩

mutual
/-- A print shows a node before what lies below it, and its children before its foreign tree. -/
theorem inOrder_shown : ∀ t : Tree,
    (t.shown includeForeign).Pairwise fun v w => v.1.ShownBefore w.1
  | .node data children foreign => by
    rw [shown]
    refine List.pairwise_cons.2 ⟨?_, List.pairwise_append.2
      ⟨inOrder_shownAmong 0 children, inOrder_shownForeign foreign, ?_⟩⟩
    · rintro ⟨place, u⟩ hv
      rcases List.mem_append.1 hv with hv | hv
      · obtain ⟨i, rest, rfl⟩ := exists_of_mem_shownAmong hv
        exact .nil
      · obtain ⟨rest, rfl⟩ := exists_of_mem_shownForeign hv
        exact .nil
    · rintro ⟨place, u⟩ hv ⟨place', u'⟩ hw
      obtain ⟨i, rest, rfl⟩ := exists_of_mem_shownAmong hv
      obtain ⟨rest', rfl⟩ := exists_of_mem_shownForeign hw
      exact .rel trivial

private theorem inOrder_shownForeign : ∀ foreign : Option Tree,
    (shownForeign includeForeign foreign).Pairwise fun v w => v.1.ShownBefore w.1
  | none => .nil
  | some foreign => by
    rw [shownForeign]
    split
    · exact List.pairwise_map.2 ((inOrder_shown foreign).imp .cons)
    · exact .nil

private theorem inOrder_shownAmong : ∀ (index : Nat) (ts : List Tree),
    (shownAmong includeForeign index ts).Pairwise fun v w => v.1.ShownBefore w.1
  | _, [] => .nil
  | index, t :: ts => by
    rw [shownAmong]
    refine List.pairwise_append.2 ⟨List.pairwise_map.2 ((inOrder_shown t).imp .cons),
      inOrder_shownAmong (index + 1) ts, ?_⟩
    rintro ⟨place, u⟩ hv ⟨place', u'⟩ hw
    obtain ⟨rest, rfl, -⟩ := mem_behind.1 hv
    obtain ⟨i, rest', rfl⟩ := exists_of_mem_shownAmong hw
    exact .rel (show index < index + 1 + i by omega)
end

end Shown

end Tree

/-! ## What reaches the sink -/

namespace Printer

variable {ω : Type} {sink : LineSink ω} {source : String} {options : PrinterOptions}
  {a b : PrintM ω Unit} {ls ms : Nat → List String} {state : PrintState ω} {w w₁ : ω}
  {refusal : String}

private theorem run_toSink {action : ExceptT String (StateM ω) Unit} {outcome : Except String Unit}
    (h : action.run state.written = (outcome, w)) :
    (toSink action).run state = (outcome.mapError fun refusal =>
      s!"failed to write AST dump: {refusal}", { state with written := w }) := by
  have hrun : (toSink action).run state =
      (toSink (ExceptT.mk fun _ => action.run state.written)).run state := rfl
  rw [hrun, h]
  rfl

/-- Whether an action gives lines to the sink, up to the first one that is refused, and does nothing
else. The lines may depend on the depth. -/
def Writes (sink : LineSink ω) (action : PrintM ω Unit) (lines : Nat → List String) : Prop :=
  ∀ state, action.run state = (toSink (forM (lines state.depth) sink.write)).run state

private theorem Writes.none : Writes sink (pure ()) fun _ => [] := fun _ => rfl

private theorem Writes.line (t : Tree) : Writes sink (writeLine sink source options t) fun depth =>
    [Printer.line source options depth t] := by
  intro state
  rw [List.forM_cons, List.forM_nil, bind_pure_unit]
  rfl

private theorem Writes.seq (ha : Writes sink a ls) (hb : Writes sink b ms) :
    Writes sink (do a; b) fun depth => ls depth ++ ms depth := by
  intro state
  rw [List.forM_append]
  cases hls : (forM (ls state.depth) sink.write).run state.written with
  | mk outcome w =>
    have hrun := (ha state).trans (run_toSink hls)
    cases outcome with
    | ok _ =>
      cases hms : (forM (ms state.depth) sink.write).run w with
      | mk outcome w₁ =>
        rw [run_bind_of_ok hrun, hb, run_toSink hms, run_toSink ((run_bind_of_ok hls).trans hms)]
    | error refusal =>
      rw [run_bind_of_error hrun, run_toSink (run_bind_of_error hls)]
      rfl

private theorem run_deeper {outcome : Except String Unit} {after : PrintState ω}
    (h : a.run { state with depth := state.depth + 1 } = (outcome, after)) :
    (Printer.deeper a).run state = (outcome, { after with depth := after.depth - 1 }) := by
  have hrun : (Printer.deeper a).run state = (Printer.deeper (ExceptT.mk fun _ =>
    a.run { state with depth := state.depth + 1 })).run state := rfl
  rw [hrun, h]
  cases outcome <;> rfl

private theorem Writes.deeper (ha : Writes sink a ls) :
    Writes sink (Printer.deeper a) fun depth => ls (depth + 1) := by
  intro state
  cases hls : (forM (ls (state.depth + 1)) sink.write).run state.written with
  | mk outcome w =>
    have hrun := (ha { state with depth := state.depth + 1 }).trans (run_toSink hls)
    rw [run_deeper hrun, run_toSink hls, Nat.add_sub_cancel]

/-- The lines for places below a node that has `depth` nodes above it. -/
def lines (source : String) (options : PrinterOptions) (vs : List (Place × Tree)) (depth : Nat) :
    List String :=
  vs.map fun v => line source options (depth + v.1.length) v.2

private theorem lines_behind (link : Link) (vs : List (Place × Tree)) (depth : Nat) :
    lines source options (Tree.behind link vs) depth = lines source options vs (depth + 1) := by
  rw [lines, Tree.behind, List.map_map, lines]
  refine List.map_congr_left fun v _ => ?_
  simp only [Function.comp_apply, List.length_cons, Nat.add_assoc, Nat.add_comm 1]

private theorem Writes.visit {node : Ast.Node} {intoChildren intoForeign : PrintM ω Unit}
    (hchildren : Writes sink intoChildren ls) (hforeign : Writes sink intoForeign ms) :
    Writes sink ((visitor sink source options).visit node intoChildren intoForeign) fun depth =>
      Printer.line source options depth node.tree ::
        (ls (depth + 1) ++ if options.includeForeign then ms (depth + 1) else []) := by
  have hbelow : Writes sink (do intoChildren; if options.includeForeign then intoForeign)
      fun depth => ls depth ++ if options.includeForeign then ms depth else [] := by
    refine hchildren.seq ?_
    cases options.includeForeign with
    | true => exact hforeign
    | false => exact .none
  exact (Writes.line node.tree).seq hbelow.deeper

private theorem lines_shownAmong (index : Nat) (ts : List Tree) (depth : Nat) :
    lines source options (Tree.shownAmong options.includeForeign index ts) depth =
      ts.flatMap fun t => lines source options (t.shown options.includeForeign) (depth + 1) := by
  induction ts generalizing index with
  | nil => rfl
  | cons t ts ih =>
    rw [Tree.shownAmong, lines, List.map_append, ← lines, ← lines, lines_behind, ih,
      List.flatMap_cons]

private theorem lines_shown (data : NodeData) (children : List Tree) (foreign : Option Tree)
    (depth : Nat) :
    lines source options ((Tree.node data children foreign).shown options.includeForeign) depth =
      line source options depth (.node data children foreign) ::
        ((children.flatMap fun t =>
            lines source options (t.shown options.includeForeign) (depth + 1)) ++
          if options.includeForeign then
            foreign.elim [] fun t =>
              lines source options (t.shown options.includeForeign) (depth + 1)
          else []) := by
  have hforeign : lines source options (Tree.shownForeign options.includeForeign foreign) depth =
      if options.includeForeign then
        foreign.elim [] fun t => lines source options (t.shown options.includeForeign) (depth + 1)
      else [] := by
    cases foreign with
    | none => cases options.includeForeign <;> rfl
    | some foreign =>
      rw [Tree.shownForeign]
      cases options.includeForeign with
      | true => exact lines_behind ..
      | false => rfl
  rw [Tree.shown, lines, List.map_cons, List.map_append, ← lines, ← lines, lines_shownAmong,
    hforeign]
  rfl

mutual
/-- The visit of a tree gives the lines of the places that are shown to the sink. -/
theorem writes_acceptFrom : ∀ (id : Nat) (ancestors : List Nat) (t : Tree),
    Writes sink ((visitor sink source options).acceptFrom id ancestors t)
      (lines source options (t.shown options.includeForeign))
  | id, ancestors, .node data children none => by
    intro state
    rw [Visitor.acceptFrom, lines_shown]
    exact Writes.visit (writes_acceptAmong _ _ children) .none state
  | id, ancestors, .node data children (some foreign) => by
    intro state
    rw [Visitor.acceptFrom, lines_shown]
    exact Writes.visit (writes_acceptAmong _ _ children) (writes_acceptFrom 0 [] foreign) state

private theorem writes_acceptAmong : ∀ (id : Nat) (ancestors : List Nat) (ts : List Tree),
    Writes sink ((visitor sink source options).acceptAmong id ancestors ts) fun depth =>
      ts.flatMap fun t => lines source options (t.shown options.includeForeign) depth
  | id, ancestors, [] => .none
  | id, ancestors, t :: ts => by
    rw [Visitor.acceptAmong]
    exact (writes_acceptFrom id ancestors t).seq (writes_acceptAmong _ ancestors ts)
end

/-- What comes of a print that has some lines to write, at whatever depth it starts: they all reach
the sink and are passed on, or the first refusal ends the print. -/
inductive Prints (sink : LineSink ω) (lines : List String) (state : PrintState ω) :
    Except String Unit → PrintState ω → Prop
  | taken {w w₁ : ω} (hlines : (forM lines sink.write).run state.written = (.ok (), w))
    (hflush : sink.flush.run w = (.ok (), w₁)) :
    Prints sink lines state (.ok ()) { state with written := w₁ }
  | unflushed {w w₁ : ω} {refusal : String}
    (hlines : (forM lines sink.write).run state.written = (.ok (), w))
    (hflush : sink.flush.run w = (.error refusal, w₁)) :
    Prints sink lines state (.error s!"failed to write AST dump: {refusal}")
      { state with written := w₁ }
  | refused {before behind : List String} {line refusal : String} {w w₁ : ω}
    (hsplit : lines = before ++ line :: behind)
    (hbefore : (forM before sink.write).run state.written = (.ok (), w))
    (hline : (sink.write line).run w = (.error refusal, w₁)) :
    Prints sink lines state (.error s!"failed to write AST dump: {refusal}")
      { state with written := w₁ }

private theorem Prints.eq_of_error {lines : List String} {outcome : Except String Unit}
    {after : PrintState ω} (h : Prints sink lines state outcome after)
    (hlines : (forM lines sink.write).run state.written = (.error refusal, w)) :
    outcome = .error s!"failed to write AST dump: {refusal}" ∧
      after = { state with written := w } := by
  cases h with
  | taken hall =>
    rw [hlines] at hall
    cases hall
  | unflushed hall =>
    rw [hlines] at hall
    cases hall
  | refused hsplit hbefore hline =>
    have hend := run_forM_of_split hsplit hbefore hline
    rw [hlines] at hend
    cases hend
    exact ⟨rfl, rfl⟩

private theorem prints (sink : LineSink ω) (source : String) (options : PrinterOptions)
    (n : Ast.Node) (state : PrintState ω) :
    ∃ outcome after, (print sink source options n).run state = (outcome, after) ∧
      Prints sink (lines source options (n.tree.shown options.includeForeign) state.depth) state
        outcome after := by
  have hwrites : ((visitor sink source options).accept n).run state = _ :=
    writes_acceptFrom n.id n.ancestors n.tree state
  obtain ⟨called, outcome, w, hcalls, hrun, -⟩ := exists_failFast sink.write
    (lines source options (n.tree.shown options.includeForeign) state.depth) state.written
  rw [run_toSink hrun] at hwrites
  cases hcalls with
  | passed =>
    cases hflush : sink.flush.run w with
    | mk outcome w₁ =>
      have hprint : (print sink source options n).run state = _ :=
        (run_bind_of_ok hwrites).trans (run_toSink hflush)
      refine ⟨_, _, hprint, ?_⟩
      cases outcome with
      | ok _ => exact .taken hrun hflush
      | error refusal => exact .unflushed hrun hflush
  | failed hsplit hbefore hline =>
    exact ⟨_, _, run_bind_of_error hwrites, .refused hsplit hbefore hline⟩

end Printer

/-! ## Sinks of whole lines -/

/-- Whether a sink takes a line as a whole or not at all, where `output` is what it has taken. -/
structure LineSink.TakesLines {ω : Type} (sink : LineSink ω) (output : ω → String) : Prop where
  accepted : ∀ line w w₁, (sink.write line).run w = (.ok (), w₁) → output w₁ = output w ++ line
  refused : ∀ line w refusal w₁, (sink.write line).run w = (.error refusal, w₁) →
    output w₁ = output w
  flushed : ∀ w, output (sink.flush.run w).2 = output w

section TakesLines

variable {ω : Type} {sink : LineSink ω} {output : ω → String}

private theorem LineSink.TakesLines.forM (h : sink.TakesLines output) {lines : List String}
    {w w₁ : ω} (hrun : (forM lines sink.write).run w = (.ok (), w₁)) :
    output w₁ = output w ++ String.join lines := by
  induction lines generalizing w with
  | nil =>
    cases hrun
    simp
  | cons line lines ih =>
    cases hline : (sink.write line).run w with
    | mk outcome w₂ =>
      cases outcome with
      | ok _ =>
        rw [run_forM_of_ok hline] at hrun
        rw [ih hrun, h.accepted line w w₂ hline]
        simp [String.append_assoc]
      | error refusal =>
        rw [run_forM_of_error hline] at hrun
        cases hrun

private theorem LineSink.run_limited (limit? : Option Nat) (refusal line w : String) :
    ((LineSink.limited limit? refusal).write line).run w =
      if limit?.any (· < Text.size (w ++ line)) then (.error refusal, w)
      else (.ok (), w ++ line) := by
  have hrun : ((LineSink.limited limit? refusal).write line).run w =
      (if limit?.any (· < Text.size (w ++ line)) then do
        throw refusal
        set (w ++ line)
      else set (w ++ line) : ExceptT String (StateM String) Unit).run w := rfl
  rw [hrun]
  split <;> rfl

private theorem LineSink.takesLines_limited (limit? : Option Nat) (refusal : String) :
    (LineSink.limited limit? refusal).TakesLines id where
  accepted := by
    intro line w w₁ h
    rw [run_limited] at h
    split at h
    · cases h
    · cases h
      rfl
  refused := by
    intro line w refusal w₁ h
    rw [run_limited] at h
    split at h <;> cases h
    rfl
  flushed := fun _ => rfl

end TakesLines

/-- What comes of a print of a tree with a fresh printer, whose sink is in state `w` before. The
print shows each place once, a node before its children and these before its foreign tree, with a
line of its own that is indented once for each link. If it succeeds, the sink has taken all lines; a
refused line is the last one that reaches the sink. In any case the printer is back at depth
zero. -/
structure Printed {ω : Type} (sink : LineSink ω) (output : ω → String) (source : String)
    (options : PrinterOptions) (t : Tree) (w : ω) (outcome : Except String Unit)
    (after : PrintState ω) : Prop where
  places : ∀ place u, (place, u) ∈ t.shown options.includeForeign ↔
    t.at? place = some u ∧ (options.includeForeign = true ∨ Link.foreign ∉ place)
  once : ((t.shown options.includeForeign).map Prod.fst).Nodup
  inOrder : (t.shown options.includeForeign).Pairwise fun v w => v.1.ShownBefore w.1
  oneLine : ∀ v ∈ t.shown options.includeForeign, ∃ text,
    Printer.line source options v.1.length v.2 = text ++ "\n" ∧ OnOneLine text ∧
      text = String.join (List.replicate v.1.length options.indent) ++
        Printer.content source options v.2
  prints : Printer.Prints sink
    (Printer.lines source options (t.shown options.includeForeign) 0) { written := w } outcome after
  taken : outcome = .ok () → output after.written =
    output w ++ String.join (Printer.lines source options (t.shown options.includeForeign) 0)
  refused : ∀ before line behind w₁ refusal w₂,
    Printer.lines source options (t.shown options.includeForeign) 0 = before ++ line :: behind →
    (forM before sink.write).run w = (.ok (), w₁) →
    (sink.write line).run w₁ = (.error refusal, w₂) →
    outcome = .error s!"failed to write AST dump: {refusal}" ∧ after = { written := w₂ } ∧
      output w₂ = output w ++ String.join before
  depth : after.depth = 0

namespace Printer

/-- A print with names and an indent of one line each, to a sink that takes whole lines, writes one
line for each place that is shown, in their order. The first line that the sink refuses ends it, and
the same printer prints again as a fresh one does. -/
theorem printed {ω : Type} {sink : LineSink ω} {output : ω → String}
    (hsink : sink.TakesLines output) (source : String) {options : PrinterOptions}
    (hindent : OnOneLine options.indent) {n : Ast.Node}
    (hnames : ∀ v ∈ n.tree.shown options.includeForeign, OnOneLine v.2.kind.name) (w : ω) :
    ∃ outcome after, (print sink source options n).run { written := w } = (outcome, after) ∧
      Printed sink output source options n.tree w outcome after ∧
      ∀ m, (print sink source options m).run after =
        (print sink source options m).run { written := after.written } := by
  obtain ⟨outcome, after, hrun, hprints⟩ := prints sink source options n { written := w }
  have hdepth : after.depth = 0 := by cases hprints <;> rfl
  refine ⟨outcome, after, hrun, ?_, fun m => ?_⟩
  · exact {
      places := fun place u => by simp [Tree.mem_shown, Place.isShown]
      once := Tree.nodup_shown ..
      inOrder := Tree.inOrder_shown _
      oneLine := fun v hv => ⟨_, line_eq .., (hindent.join_replicate _).append
        (onOneLine_content source options (hnames v hv)), rfl⟩
      prints := hprints
      taken := by
        rintro rfl
        cases hprints with
        | @taken w₁ w₂ hlines hflush =>
          have hflushed := hsink.flushed w₁
          rw [hflush] at hflushed
          exact hflushed.trans (hsink.forM hlines)
      refused := by
        intro before line behind w₁ refusal w₂ hsplit hbefore hline
        obtain ⟨houtcome, hafter⟩ :=
          hprints.eq_of_error (run_forM_of_split hsplit hbefore hline)
        refine ⟨houtcome, hafter, ?_⟩
        rw [hsink.refused line w₁ refusal w₂ hline, hsink.forM hbefore]
      depth := hdepth }
  · obtain ⟨written, depth⟩ := after
    cases hdepth
    rfl

def fileWithBlock : Tree :=
  .node ⟨⟨"test", 0, "File"⟩, ⟨0, 8, by decide⟩, .ok, none, none, {}⟩
    [.leaf ⟨⟨"test", 1, "Identifier"⟩, ⟨2, 1, by decide⟩, .ok, none, none, {}⟩,
      .node ⟨⟨"test", 2, "B"⟩, ⟨4, 4, by decide⟩, .ok, none, some ⟨"inner", .chunk⟩, {}⟩ []
        (some (.leaf ⟨⟨"inner", 0, "Inner"⟩, ⟨4, 4, by decide⟩, .ok, none, none, {}⟩))] none

/-- The line of the identifier is refused. That of the block would fit, but does not reach the
sink. -/
theorem printed_refused :
    OnOneLine ({} : PrinterOptions).indent ∧
      (∀ v ∈ fileWithBlock.shown true, OnOneLine v.2.kind.name) ∧
      (print (.limited (some 45) "full") "a\nb=cdef" {} ⟨0, fileWithBlock, []⟩).run
          { written := "" } =
        (.error "failed to write AST dump: full",
          { written := "[0, 8) File: a<0x0A>b=cdef\n" }) ∧
      Printed (.limited (some 45) "full") id "a\nb=cdef" {} fileWithBlock ""
        (.error "failed to write AST dump: full")
        { written := "[0, 8) File: a<0x0A>b=cdef\n" } := by
  have hindent : OnOneLine ({} : PrinterOptions).indent := by decide
  have hnames : ∀ v ∈ fileWithBlock.shown true, OnOneLine v.2.kind.name := by decide
  have hrun : (print (.limited (some 45) "full") "a\nb=cdef" {} ⟨0, fileWithBlock, []⟩).run
      { written := "" } = (.error "failed to write AST dump: full",
        { written := "[0, 8) File: a<0x0A>b=cdef\n" }) := by
    rfl
  obtain ⟨outcome, after, hprint, hprinted, -⟩ :=
    printed (LineSink.takesLines_limited (some 45) "full") "a\nb=cdef" hindent
      (n := ⟨0, fileWithBlock, []⟩) hnames ""
  rw [hrun] at hprint
  cases hprint
  exact ⟨hindent, hnames, hrun, hprinted⟩

end Printer

end SourceModel
