import SyncEngine.Ical.Revision

/-!
# Texts that are written and read back

A text is escaped, put after the name of its property and folded.  The physical lines are short enough for any reader,
the reader gets one line back from them, and its value reads as the text with every line break as a line feed.
-/

namespace SyncEngine
namespace Ical

open Utf8

/-- The terminator the writers use. -/
def crlf : Text := ['\r', '\n']

theorem isTerm_crlf : IsTerm crlf := .inr rfl

def textLine (name text : Text) : Text := name ++ ':' :: escapeText text

/-- None of what ends a name or a line. -/
def IsName (name : Text) : Prop := ∀ c ∈ name, c ≠ ':' ∧ c ≠ ';' ∧ c ≠ '"' ∧ c ≠ '\n' ∧ c ≠ '\r'

/-! ## Escaping -/

section Escaping

variable {text : Text} {c : Char}

theorem unescapeText_cons (hc : c ≠ '\\') (rest : Text) : unescapeText (c :: rest) = c :: unescapeText rest := by
  rw [unescapeText]
  · rintro _ rfl
    exact absurd rfl hc
  · rintro _ rfl
    exact absurd rfl hc
  · rintro _ _ rfl
    exact absurd rfl hc

theorem unescapeText_flatMap_escapeChar (text : Text) : unescapeText (text.flatMap escapeChar) = text := by
  induction text with
  | nil => rfl
  | cons c text ih =>
    rw [List.flatMap_cons]
    unfold escapeChar
    by_cases hback : c = '\\'
    · subst hback
      rw [if_pos rfl]
      show '\\' :: unescapeText (text.flatMap escapeChar) = _
      rw [ih]
    rw [if_neg hback]
    by_cases hsemi : c = ';'
    · subst hsemi
      rw [if_pos rfl]
      show ';' :: unescapeText (text.flatMap escapeChar) = _
      rw [ih]
    rw [if_neg hsemi]
    by_cases hcomma : c = ','
    · subst hcomma
      rw [if_pos rfl]
      show ',' :: unescapeText (text.flatMap escapeChar) = _
      rw [ih]
    rw [if_neg hcomma]
    by_cases hfeed : c = '\n'
    · subst hfeed
      rw [if_pos rfl]
      show '\n' :: unescapeText (text.flatMap escapeChar) = _
      rw [ih]
    rw [if_neg hfeed, List.singleton_append, unescapeText_cons hback]
    exact congrArg (List.cons c) ih

theorem normalizeBreaks_no_return (text : Text) : '\r' ∉ normalizeBreaks text := by
  induction text using normalizeBreaks.induct with
  | case1 rest ih => simp [normalizeBreaks, ih]
  | case2 rest hnext ih => simp [normalizeBreaks, ih]
  | case3 c rest hpair hreturn ih =>
    rw [normalizeBreaks]
    · simp only [List.mem_cons, not_or]
      exact ⟨fun h => hreturn h.symm, ih⟩
    · exact hpair
    · exact hreturn
  | case4 => simp [normalizeBreaks]

theorem noBreak_escapeText (text : Text) : NoBreak (escapeText text) := by
  intro c hc
  obtain ⟨d, hd, hcd⟩ := List.mem_flatMap.mp hc
  have hreturn : d ≠ '\r' := fun e => normalizeBreaks_no_return text (e ▸ hd)
  unfold escapeChar at hcd
  split at hcd
  · simp only [List.mem_cons, List.not_mem_nil, or_false, or_self] at hcd
    rw [hcd]
    decide
  split at hcd
  · simp only [List.mem_cons, List.not_mem_nil, or_false] at hcd
    rcases hcd with rfl | rfl <;> decide
  split at hcd
  · simp only [List.mem_cons, List.not_mem_nil, or_false] at hcd
    rcases hcd with rfl | rfl <;> decide
  split at hcd
  · simp only [List.mem_cons, List.not_mem_nil, or_false] at hcd
    rcases hcd with rfl | rfl <;> decide
  · rename_i hfeed
    rw [List.mem_singleton.mp hcd]
    exact ⟨hfeed, hreturn⟩

end Escaping

/-! ## Folding -/

section Width

variable {line read : Text}

theorem physicalFrom_foldFrom (hline : ∀ c ∈ line, c ≠ '\n') (hread : size read ≤ foldWidth) :
    ∀ physical ∈ physicalFrom read (foldFrom crlf (size read) line), size physical.content ≤ foldWidth := by
  have hended : ∀ {read rest : Text}, physicalFrom read (crlf ++ rest) = ⟨read, crlf⟩ :: physicalFrom [] rest := by
    intro read rest
    show physicalFrom read ('\r' :: '\n' :: rest) = _
    rw [physicalFrom, if_neg (by decide), physicalFrom, if_pos rfl]
    unfold PhysicalLine.ended
    rw [List.getLast?_concat, if_pos rfl, List.dropLast_concat]
    rfl
  induction line generalizing read with
  | nil =>
    unfold foldFrom
    rw [← List.append_nil crlf, hended]
    intro physical hphysical
    rw [List.mem_singleton.mp hphysical]
    exact hread
  | cons c line ih =>
    obtain ⟨hc, hline⟩ := List.forall_mem_cons.mp hline
    have hsize : c.utf8Size ≤ 4 := Char.utf8Size_le_four c
    unfold foldFrom
    split
    · have hnext : size [' ', c] = 1 + c.utf8Size := by
        rw [size_cons, size_cons, size_nil]
        rfl
      have hrest := @ih [' ', c] hline (by rw [hnext]; unfold foldWidth; omega)
      rw [hnext] at hrest
      rw [hended, physicalFrom, if_neg (by decide), physicalFrom, if_neg hc]
      intro physical hphysical
      rcases List.mem_cons.mp hphysical with rfl | hphysical
      · exact hread
      · exact hrest physical hphysical
    · rename_i hfits
      have hgrown : size (read ++ [c]) = size read + c.utf8Size := by
        rw [size_append, size_cons, size_nil]
        rfl
      have hrest := @ih (read ++ [c]) hline (by rw [hgrown]; omega)
      rw [hgrown] at hrest
      rw [physicalFrom, if_neg hc]
      exact hrest

end Width

/-! ## Reading back -/

section Lines

variable {name text : Text}

theorem noBreak_textLine (hname : IsName name) : NoBreak (textLine name text) := by
  have hplain : NoBreak name := fun c hc => (hname c hc).2.2.2
  exact hplain.append (List.forall_mem_cons.mpr ⟨by decide, noBreak_escapeText text⟩)

theorem tokenize_named (hname : IsName name) (hne : name ≠ []) (value : Text) :
    tokenize (name ++ ':' :: value) = some ⟨upper name, [], value⟩ := by
  have hcolon : ∀ c ∈ name, c ≠ ':' ∧ c ≠ '"' := fun c hc => ⟨(hname c hc).1, (hname c hc).2.2.1⟩
  have hsemi : ∀ c ∈ name, c ≠ ';' ∧ c ≠ '"' := fun c hc => ⟨(hname c hc).2.1, (hname c hc).2.2.1⟩
  have hsegment : splitUnquoted (name ++ []) ';' = [name] := by
    unfold splitUnquoted
    rw [splitUnquotedFrom_plain hsemi]
    rfl
  unfold tokenize splitOnceUnquoted
  rw [splitOnceUnquotedFrom_plain hcolon, splitOnceUnquotedFrom, if_neg (by decide), if_pos (by decide)]
  simp only [Option.map_some]
  rw [hsegment]
  dsimp only
  rw [if_neg hne]
  rfl

theorem contentLines_textLine (hname : IsName name) (hne : name ≠ []) :
    contentLines (foldLine (textLine name text) crlf) = [⟨upper name, [], escapeText text⟩] := by
  have hfold : ∀ c ∈ textLine name text, Foldable crlf c :=
    fun c hc => ⟨(noBreak_textLine hname c hc).1, fun _ => (noBreak_textLine hname c hc).2⟩
  rw [contentLines_foldLine isTerm_crlf hfold]
  unfold textLine
  rw [tokenize_named hname hne]
  rfl

theorem textLine_fresh (hne : name ≠ []) (hblank : Fresh name) : Fresh (foldLine (textLine name text) crlf) := by
  cases name with
  | nil => exact absurd rfl hne
  | cons c name =>
    obtain ⟨hspace, htab⟩ := hblank c rfl
    exact foldLine_fresh hspace htab

/-- Every name that is not empty and does not begin with a blank keeps its text: short physical lines, one line read
back, and a document of such lines is read back line by line. -/
theorem textLine_survives : (∀ name text : Text, IsName name → name ≠ [] →
      (∀ physical ∈ physicalLines (foldLine (textLine name text) crlf), size physical.content ≤ 75) ∧
        ∃ value, contentLines (foldLine (textLine name text) crlf) = [⟨upper name, [], value⟩] ∧
          unescapeText value = normalizeBreaks text) ∧
    ∀ lines : List (Text × Text), (∀ line ∈ lines, IsName line.1 ∧ line.1 ≠ [] ∧ Fresh line.1) →
      contentLines (lines.flatMap fun line => foldLine (textLine line.1 line.2) crlf) =
        lines.map fun line => ⟨upper line.1, [], escapeText line.2⟩ := by
  constructor
  · intro name text hname hne
    refine ⟨?_, escapeText text, contentLines_textLine hname hne, unescapeText_flatMap_escapeChar _⟩
    exact physicalFrom_foldFrom (fun c hc => (noBreak_textLine hname c hc).1) (Nat.zero_le foldWidth)
  · intro lines hlines
    have hread : contentLines (lines.flatMap fun line => foldLine (textLine line.1 line.2) crlf) =
        lines.flatMap fun line => contentLines (foldLine (textLine line.1 line.2) crlf) := by
      apply contentLines_flatMap
      · intro line hline
        obtain ⟨-, hne, hblank⟩ := hlines line (List.mem_of_mem_tail hline)
        exact textLine_fresh hne hblank
      · exact fun line _ => foldLine_whole isTerm_crlf
    rw [hread, List.map_eq_flatMap]
    apply List.flatMap_congr
    intro line hline
    obtain ⟨hname, hne, -⟩ := hlines line hline
    exact contentLines_textLine hname hne

theorem textLine_survives_summary :
    ∃ value, contentLines (foldLine (textLine "summary".toList "Café; 9:30\r\n\"bar\"".toList) crlf) =
        [⟨"SUMMARY".toList, [], value⟩] ∧ unescapeText value = "Café; 9:30\n\"bar\"".toList := by
  have hname : IsName "summary".toList := by
    unfold IsName
    decide
  obtain ⟨-, value, hread, hvalue⟩ :=
    textLine_survives.1 "summary".toList "Café; 9:30\r\n\"bar\"".toList hname (by decide)
  exact ⟨value, hread, hvalue⟩

/-- A name that begins with a blank goes on with the line before it. -/
theorem blank_name_joins : ¬ ∀ lines : List (Text × Text), (∀ line ∈ lines, IsName line.1) →
      (contentLines (lines.flatMap fun line => foldLine (textLine line.1 line.2) crlf)).length = lines.length := by
  intro h
  have hnames : ∀ line ∈ [("A".toList, "a".toList), (" B".toList, "b".toList)], IsName line.1 := by
    unfold IsName
    decide
  have hlength := h _ hnames
  revert hlength
  decide

end Lines

end Ical
end SyncEngine
