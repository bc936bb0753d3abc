/-
# EightBit.Proofs.SourceLines -- the source lines of a program say what it is

A program that was read from source has a line for each byte, and the line alone says which byte: it is
trimmed, it is one line, and what it holds is the byte. `StandsFor` is all that is needed to go on from
there. Lines that stand for bytes are read for those bytes and for themselves, whatever text they came
from, and a listing, which goes by addresses, puts each beside the instruction that begins with its byte.
-/
import EightBit.Proofs.Listing
import EightBit.Proofs.Source

namespace EightBit.Program

open Text (Blank Trimmed)

/-- A line of text that is the source line of a byte. -/
structure StandsFor (line : String) (b : UInt8) : Prop where
  nonblank : ¬ Blank line.toList
  trimmed : Trimmed line.toList
  oneLine : '\n' ∉ line.toList
  holds : Holds line.toList (some b)

/-- A line that holds a byte is not blank. -/
theorem Holds.not_blank {line : List Char} {b : UInt8} (h : Holds line (some b)) : ¬ Blank line := by
  intro hblank
  have hword : codeWord line = codeWord [] := codeWord_append_blank hblank []
  exact (holds_some.mp h).1.ne_nil hword

/-- A line that holds a byte, without the white space around it, is the source line of that byte. -/
theorem Holds.standsFor_trim {line : List Char} {b : UInt8} (h : Holds line (some b))
    (hlf : '\n' ∉ line) : StandsFor (String.ofList (Text.trim line)) b := by
  have hholds : Holds (Text.trim line) (some b) := h.of_codeWord_eq (codeWord_trim line)
  have hone : '\n' ∉ Text.trim line := by
    obtain ⟨before, after, hsplit, -⟩ := Text.exists_eq_append_trim line
    intro hmem
    rw [hsplit] at hlf
    exact hlf (List.mem_append_left _ (List.mem_append_right _ hmem))
  refine ⟨?_, ?_, ?_, ?_⟩ <;> rw [String.toList_ofList]
  · exact hholds.not_blank
  · exact Text.trimmed_trim line
  · exact hone
  · exact hholds

/-- The source lines of what some lines spell stand for its bytes, one for one. -/
theorem Spells.standsFor {ls : List (List Char)} {p : Program} (h : Spells ls p)
    (hlf : ∀ line ∈ ls, '\n' ∉ line) : List.Forall₂ StandsFor p.sourceLines p.bytes := by
  induction h with
  | nil => exact .nil
  | skip _ _ ih => exact ih (List.forall_mem_cons.mp hlf).2
  | byte hline _ ih =>
    rw [List.forall_mem_cons] at hlf
    exact .cons (hline.standsFor_trim hlf.1) (ih hlf.2)

/-- Lines that stand for bytes spell those bytes, with themselves as source lines. -/
theorem spells_of_standsFor {lines : List String} {bytes : List UInt8}
    (h : List.Forall₂ StandsFor lines bytes) : Spells (lines.map String.toList) ⟨bytes, lines⟩ := by
  induction h with
  | nil => exact .nil
  | @cons line b lines bytes hline _ ih =>
    have hspells := Spells.byte hline.holds ih
    rw [hline.trimmed.trim_eq, cons, String.ofList_toList] at hspells
    exact hspells

/-- Lines that stand for bytes, put together in one text, are read for those bytes and themselves. -/
theorem ofSource_intercalate {lines : List String} {bytes : List UInt8}
    (h : List.Forall₂ StandsFor lines bytes) :
    ofSource ("\n".intercalate lines) = .ok ⟨bytes, lines⟩ := by
  have hline : ∀ line ∈ lines, '\n' ∉ line.toList ∧ line.toList.getLast? ≠ some '\r' ∧
      line.toList ≠ [] := by
    refine ((List.forall₂_and_left lines bytes).mp (h.imp fun line b hstands => ⟨?_, hstands⟩)).1
    refine ⟨hstands.oneLine, fun hlast => ?_, fun hnil => ?_⟩
    · exact absurd (hstands.trimmed.2 _ hlast) (by decide)
    · exact hstands.nonblank (hnil ▸ Text.blank_nil)
  have hsplit : Text.lines ("\n".intercalate lines).toList = lines.map String.toList := by
    rw [String.toList_intercalate]
    exact Text.lines_intercalate (List.forall_mem_map.mpr fun line h => (hline line h).1)
      (List.forall_mem_map.mpr fun line h => (hline line h).2.1)
      (List.forall_mem_map.mpr fun line h => (hline line h).2.2)
  rw [ofSource, hsplit]
  exact (spells_of_standsFor h).ofLines_eq 1

/-- An entry in the listing of a program with a source line for each byte shows the line of the byte that
its instruction begins with. -/
theorem Shows.source_line {p : Program} {e : ListingEntry} (h : Shows p e)
    (hstands : List.Forall₂ StandsFor p.sourceLines p.bytes) :
    ∃ line b, p.sourceLines[e.address]? = some line ∧ e.source = some line ∧
      e.text = Text.padRight 27 e.columns ++ " | " ++ line ∧
      e.bytes.head? = some b ∧ StandsFor line b := by
  have hbyte : e.address < p.bytes.length := h.inside
  have hlen : e.address < p.sourceLines.length := hstands.length_eq ▸ hbyte
  have hline := List.getElem?_eq_getElem hlen
  refine ⟨p.sourceLines[e.address], p.bytes[e.address], hline, h.source.trans hline,
    h.beside _ hline, ?_, ?_⟩
  · rw [h.head?_bytes, List.getElem?_eq_getElem hbyte]
  · exact (List.forall₂_iff_get.mp hstands).2 e.address hlen hbyte

/-- **Source lines are the program.** A program that was read from source has a source line for each of
its bytes, and reading these lines as a text gives the program again. In its listing no entry is without
a source line, and the one beside an entry is that of the byte the entry begins with. -/
theorem sourceLines_faithful {text : String} {p : Program} (h : ofSource text = .ok p) :
    p.sourceLines.length = p.bytes.length ∧
    List.Forall₂ StandsFor p.sourceLines p.bytes ∧
    ofSource ("\n".intercalate p.sourceLines) = .ok p ∧
    ∀ e ∈ p.entries, ∃ line b, p.sourceLines[e.address]? = some line ∧ e.source = some line ∧
      e.text = Text.padRight 27 e.columns ++ " | " ++ line ∧
      e.bytes.head? = some b ∧ StandsFor line b := by
  have hstands : List.Forall₂ StandsFor p.sourceLines p.bytes :=
    (ofLines_eq_ok.mp h).standsFor fun line hline => Text.notMem_of_mem_lines hline
  exact ⟨hstands.length_eq, hstands, ofSource_intercalate hstands,
    fun e he => (shows_of_mem_entries he).source_line hstands⟩

theorem sourceLines_faithful_indented :
    ofSource "  1 # HLT\r\n\n0" = .ok ⟨[1, 0], ["1 # HLT", "0"]⟩ ∧
    ofSource ("\n".intercalate ["1 # HLT", "0"]) = .ok ⟨[1, 0], ["1 # HLT", "0"]⟩ :=
  have hread : ofSource "  1 # HLT\r\n\n0" = .ok ⟨[1, 0], ["1 # HLT", "0"]⟩ := by decide
  ⟨hread, (sourceLines_faithful hread).2.2.1⟩

end EightBit.Program
