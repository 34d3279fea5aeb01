import SourceModel.Tree.Printer

/-!
# Lines of a print

What a line says stands behind its indentation and ends with the only line break. Control characters
of the source, line breaks among them, are written as numbers, and everything else in a line is
bounds, a status word and names.
-/

namespace SourceModel

/-! ## Parts of the source -/

namespace Fragment

private theorem space_le_of_all {text : String} {d : Char} (h : d ∈ text.toList)
    (hall : text.toList.all (fun d => ' '.toNat ≤ d.toNat) = true) : ' '.toNat ≤ d.toNat :=
  of_decide_eq_true (List.all_eq_true.1 hall d h)

private theorem space_le_of_mem_escape {c d : Char} (h : d ∈ escape c) : ' '.toNat ≤ d.toNat := by
  rw [escape] at h
  split at h
  · simp only [String.toList_append, List.mem_append] at h
    rcases h with (h | h) | h
    · exact space_le_of_all h rfl
    · exact Nat.le_trans (by decide) (Text.zero_le_of_mem_hexUpper h)
    · exact space_le_of_all h rfl
  · rename_i hlarge
    rw [List.mem_singleton.1 h]
    exact Nat.le_of_not_lt hlarge

theorem space_le_of_mem_renderChars {cs : List Char} {max : Nat} {d : Char}
    (h : d ∈ renderChars cs max) : ' '.toNat ≤ d.toNat := by
  have hescaped : ∀ {ds : List Char}, d ∈ ds.flatMap escape → ' '.toNat ≤ d.toNat := by
    intro ds hd
    obtain ⟨c, -, hc⟩ := List.mem_flatMap.1 hd
    exact space_le_of_mem_escape hc
  rw [renderChars] at h
  split at h
  · exact hescaped h
  · simp only [List.mem_append] at h
    rcases h with (h | h) | h
    · exact hescaped h
    · exact space_le_of_all h rfl
    · exact hescaped h

end Fragment

/-! ## Lines -/

def OnOneLine (text : String) : Prop := '\n' ∉ text.toList

instance (text : String) : Decidable (OnOneLine text) :=
  inferInstanceAs (Decidable ('\n' ∉ text.toList))

namespace OnOneLine

variable {a b : String}

private theorem of_space_le (h : ∀ c ∈ a.toList, ' '.toNat ≤ c.toNat) : OnOneLine a :=
  fun hmem => absurd (h '\n' hmem) (by decide)

theorem append (ha : OnOneLine a) (hb : OnOneLine b) : OnOneLine (a ++ b) := by
  rw [OnOneLine, String.toList_append, List.mem_append, not_or]
  exact ⟨ha, hb⟩

theorem join_replicate (ha : OnOneLine a) (n : Nat) :
    OnOneLine (String.join (List.replicate n a)) := by
  rw [OnOneLine, String.toList_join, List.mem_flatMap]
  rintro ⟨b, hb, hmem⟩
  rw [(List.mem_replicate.1 hb).2] at hmem
  exact ha hmem

private theorem number (n : Nat) : OnOneLine (toString n) := by
  intro hmem
  have hdigit : '\n' ∈ Nat.toDigits 10 n := by simpa [toString] using hmem
  exact absurd (Nat.isDigit_of_mem_toDigits (by decide) (by decide) hdigit) (by decide)

private theorem display_region (r : Region) : OnOneLine r.display := by
  have hopen : OnOneLine "[" := by decide
  have hcomma : OnOneLine ", " := by decide
  have hclose : OnOneLine ")" := by decide
  exact (((hopen.append (number _)).append hcomma).append (number _)).append hclose

private theorem display_status (s : Status) : OnOneLine s.display := by
  have hopen : OnOneLine "0x" := by decide
  have hword : OnOneLine (Text.hex 6 s.bits) := of_space_le fun c hc =>
    Nat.le_trans (by decide) (Text.zero_le_of_mem_hex hc)
  exact hopen.append hword

private theorem render (text : String) (max : Nat) : OnOneLine (Fragment.render text max) :=
  of_space_le fun c hc => by
    rw [Fragment.render, String.toList_ofList] at hc
    exact Fragment.space_le_of_mem_renderChars hc

end OnOneLine

namespace Printer

def content (source : String) (options : PrinterOptions) (t : Tree) : String :=
  t.region.display ++ " " ++ t.kind.name ++
    (if t.status.isOk then "" else " !" ++ t.status.display) ++ ": " ++
    (match t.region.slice? source with
      | some text => Fragment.render text options.maxFragmentSize
      | none => "<out of bounds>")

theorem line_eq (source : String) (options : PrinterOptions) (depth : Nat) (t : Tree) :
    line source options depth t =
      String.join (List.replicate depth options.indent) ++ content source options t ++ "\n" := by
  have hline : line source options depth t =
      String.join (List.replicate depth options.indent) ++ t.region.display ++ " " ++
        t.kind.name ++ (if t.status.isOk then "" else " !" ++ t.status.display) ++ ": " ++
          (match t.region.slice? source with
            | some text => Fragment.render text options.maxFragmentSize
            | none => "<out of bounds>") ++ "\n" := rfl
  simp only [hline, content, String.append_assoc]

theorem onOneLine_content (source : String) (options : PrinterOptions) {t : Tree}
    (h : OnOneLine t.kind.name) : OnOneLine (content source options t) := by
  have hstatus : OnOneLine (if t.status.isOk then "" else " !" ++ t.status.display) := by
    split
    · decide
    · have hopen : OnOneLine " !" := by decide
      exact hopen.append (.display_status _)
  have hfragment : OnOneLine (match t.region.slice? source with
      | some text => Fragment.render text options.maxFragmentSize
      | none => "<out of bounds>") := by
    split
    · exact .render _ _
    · decide
  have hblank : OnOneLine " " := by decide
  have hcolon : OnOneLine ": " := by decide
  have hbounds := (OnOneLine.display_region t.region).append hblank
  exact (((hbounds.append h).append hstatus).append hcolon).append hfragment

end Printer

end SourceModel
