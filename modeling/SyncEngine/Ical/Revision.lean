import SyncEngine.Ical.Readings
import SyncEngine.Ical.Unfolding

/-!
# A revision for the reader

Apart from its bookkeeping, a reader reads from an edited document the lines that are kept and what is spliced in
before them.  A revision rewrites lines of bookkeeping and puts others in, and so changes none of that.
-/

namespace SyncEngine
namespace Ical

/-! ## Lines of bookkeeping -/

section Book

variable {text term : Text}

def NoBreak (text : Text) : Prop := ∀ c ∈ text, c ≠ '\n' ∧ c ≠ '\r'

theorem NoBreak.append {a b : Text} (ha : NoBreak a) (hb : NoBreak b) : NoBreak (a ++ b) :=
  List.forall_mem_append.mpr ⟨ha, hb⟩

theorem noBreak_of_isDigits (h : IsDigits text) : NoBreak text := by
  intro c hc
  have hdigit := h c hc
  constructor
  · rintro rfl
    exact nomatch hdigit
  · rintro rfl
    exact nomatch hdigit

theorem noBreak_toString (n : Nat) : NoBreak (toString n).toList := by
  have hdigits : (toString n).toList = decimal n := by
    show (Nat.repr n).toList = _
    unfold Nat.repr decimal
    exact String.toList_ofList
  rw [hdigits]
  exact noBreak_of_isDigits isDigits_decimal

theorem noBreak_padded (width n : Nat) : NoBreak (padded width n) := by
  unfold padded Mail.CalendarDate.padded
  rw [String.toList_append, String.toList_ofList]
  refine NoBreak.append ?_ (noBreak_toString n)
  intro c hc
  rw [(List.mem_replicate.mp hc).2]
  decide

theorem noBreak_formatUtc (instant : UtcDateTime) : NoBreak (formatUtc instant) := by
  have hsigns : ∀ negative : Prop, [Decidable negative] → NoBreak (if negative then ['-'] else []) := by
    intro negative _ c hc
    split at hc
    · rw [List.mem_singleton.mp hc]
      decide
    · exact absurd hc List.not_mem_nil
  have hmark : ∀ n, NoBreak ('T' :: padded 2 n) := fun n => List.forall_mem_cons.mpr ⟨by decide, noBreak_padded 2 n⟩
  have hzulu : NoBreak ['Z'] := List.forall_mem_singleton.mpr (by decide)
  unfold formatUtc
  dsimp only
  generalize Mail.CalendarDate.ofInstant instant = date
  generalize instant.nanos % Mail.CalendarDate.nanosPerDay / second = seconds
  exact (((((((hsigns _).append (noBreak_padded _ _)).append (noBreak_padded _ _)).append (noBreak_padded _ _)).append
    (hmark _)).append (noBreak_padded _ _)).append (noBreak_padded _ _)).append hzulu

def IsBook (text : Text) : Prop := ∃ name ∈ bookkeeping, ∃ value, NoBreak value ∧ text = name ++ ':' :: value

theorem tokenize_book {name value : Text} (hname : name ∈ bookkeeping) :
    tokenize (name ++ ':' :: value) = some ⟨name, [], value⟩ := by
  unfold bookkeeping at hname
  simp only [List.mem_cons, List.not_mem_nil, or_false] at hname
  rcases hname with rfl | rfl | rfl
  · rfl
  · rfl
  · rfl

theorem bookkeeping_noBreak {name : Text} (hname : name ∈ bookkeeping) : NoBreak name ∧ Fresh name ∧ name ≠ [] := by
  unfold bookkeeping at hname
  simp only [List.mem_cons, List.not_mem_nil, or_false] at hname
  rcases hname with rfl | rfl | rfl
  · exact ⟨by unfold NoBreak; decide, by intro c hc; cases hc; decide, by decide⟩
  · exact ⟨by unfold NoBreak; decide, by intro c hc; cases hc; decide, by decide⟩
  · exact ⟨by unfold NoBreak; decide, by intro c hc; cases hc; decide, by decide⟩

theorem IsBook.filter (h : IsBook text) (hterm : IsTerm term) :
    (contentLines (foldLine text term)).filter isOther = [] := by
  obtain ⟨name, hname, value, hvalue, rfl⟩ := h
  have hline : NoBreak (name ++ ':' :: value) :=
    (bookkeeping_noBreak hname).1.append (List.forall_mem_cons.mpr ⟨by decide, hvalue⟩)
  have hother : isOther ⟨name, [], value⟩ = false := by
    unfold bookkeeping at hname
    simp only [List.mem_cons, List.not_mem_nil, or_false] at hname
    rcases hname with rfl | rfl | rfl
    · rfl
    · rfl
    · rfl
  rw [contentLines_foldLine hterm (fun c hc => ⟨(hline c hc).1, fun _ => (hline c hc).2⟩), tokenize_book hname]
  simp [hother]

theorem IsBook.fresh (h : IsBook text) : Fresh (foldLine text term) := by
  obtain ⟨name, hname, value, -, rfl⟩ := h
  obtain ⟨-, hfresh, hne⟩ := bookkeeping_noBreak hname
  cases name with
  | nil => exact absurd rfl hne
  | cons c name =>
    obtain ⟨hspace, htab⟩ := hfresh c rfl
    exact foldLine_fresh hspace htab

end Book

/-! ## Lines that are bookkeeping already -/

section Named

variable {line rest plain : Text} {delim : Char} {t : ContentLine}

theorem splitOnceUnquotedFrom_plain (h : ∀ c ∈ plain, c ≠ delim ∧ c ≠ '"') :
    splitOnceUnquotedFrom delim false (plain ++ rest) =
      (splitOnceUnquotedFrom delim false rest).map fun (head, tail) => (plain ++ head, tail) := by
  induction plain with
  | nil => simp
  | cons c plain ih =>
    obtain ⟨⟨hdelim, hquote⟩, hplain⟩ := List.forall_mem_cons.mp h
    rw [List.cons_append, splitOnceUnquotedFrom, if_neg hquote, if_neg (by simp [hdelim]), ih hplain, Option.map_map]
    rfl

theorem splitUnquotedFrom_plain (h : ∀ c ∈ plain, c ≠ delim ∧ c ≠ '"') (segment : Text) :
    splitUnquotedFrom delim false segment (plain ++ rest) = splitUnquotedFrom delim false (segment ++ plain) rest := by
  induction plain generalizing segment with
  | nil => simp
  | cons c plain ih =>
    obtain ⟨⟨hdelim, hquote⟩, hplain⟩ := List.forall_mem_cons.mp h
    rw [List.cons_append, splitUnquotedFrom, if_neg hquote, if_neg (by simp [hdelim]), ih hplain, List.append_assoc]
    rfl

theorem tokenize_name (h : tokenize line = some t) (hquote : '"' ∉ propertyName line) :
    t.name = upper (propertyName line) := by
  have hsplit : propertyName line ++ line.dropWhile (fun c => c ≠ ';' && c ≠ ':') = line :=
    List.takeWhile_append_dropWhile
  have hstops : ∀ c ∈ propertyName line, c ≠ ';' ∧ c ≠ ':' := by
    intro c hc
    simpa using List.mem_takeWhile_imp hc
  have hcolon : ∀ c ∈ propertyName line, c ≠ ':' ∧ c ≠ '"' := fun c hc => ⟨(hstops c hc).2, fun e => hquote (e ▸ hc)⟩
  have hsemi : ∀ c ∈ propertyName line, c ≠ ';' ∧ c ≠ '"' := fun c hc => ⟨(hstops c hc).1, fun e => hquote (e ▸ hc)⟩
  have hnext : ∀ d after, line.dropWhile (fun c => c ≠ ';' && c ≠ ':') = d :: after → d = ';' ∨ d = ':' := by
    intro d after hdrop
    have hd := List.head?_dropWhile_not (fun c => c ≠ ';' && c ≠ ':') line
    rw [hdrop] at hd
    simp at hd
    tauto
  unfold tokenize splitOnceUnquoted at h
  rw [← hsplit, splitOnceUnquotedFrom_plain hcolon] at h
  generalize propertyName line = plain at *
  cases hdrop : line.dropWhile (fun c => c ≠ ';' && c ≠ ':') with
  | nil =>
    rw [hdrop] at h
    exact nomatch h
  | cons d after =>
    rw [hdrop] at h
    rcases hnext d after hdrop with rfl | rfl
    · rw [splitOnceUnquotedFrom, if_neg (by decide), if_neg (by decide)] at h
      cases hafter : splitOnceUnquotedFrom ':' false after with
      | none =>
        rw [hafter] at h
        exact nomatch h
      | some parts =>
        have hhead : splitUnquoted (plain ++ ';' :: parts.1) ';' = plain :: splitUnquotedFrom ';' false [] parts.1 := by
          unfold splitUnquoted
          rw [splitUnquotedFrom_plain hsemi, splitUnquotedFrom, if_neg (by decide), if_pos (by decide)]
          rfl
        rw [hafter] at h
        simp only [Option.map_some] at h
        rw [hhead] at h
        dsimp only at h
        split at h
        · exact nomatch h
        · rw [← Option.some.inj h]
    · have hhead : splitUnquoted (plain ++ []) ';' = [plain] := by
        unfold splitUnquoted
        rw [splitUnquotedFrom_plain hsemi]
        rfl
      rw [splitOnceUnquotedFrom, if_neg (by decide), if_pos (by decide)] at h
      simp only [Option.map_some] at h
      rw [hhead] at h
      dsimp only at h
      split at h
      · exact nomatch h
      · rw [← Option.some.inj h]

theorem delim_mem_of_splitOnce {quoted : Bool} {parts : Text × Text}
    (h : splitOnceUnquotedFrom delim quoted line = some parts) : delim ∈ line := by
  induction line generalizing quoted parts with
  | nil => exact nomatch h
  | cons c line ih =>
    have hlater : ∀ quoted, (splitOnceUnquotedFrom delim quoted line).map (fun (head, tail) => (c :: head, tail)) =
        some parts → delim ∈ c :: line := by
      intro quoted hmap
      obtain ⟨parts', hparts, -⟩ := Option.map_eq_some_iff.mp hmap
      exact List.mem_cons_of_mem c (ih hparts)
    rw [splitOnceUnquotedFrom] at h
    split at h
    · exact hlater _ h
    · split at h
      · rename_i hdelim
        simp only [Bool.and_eq_true, decide_eq_true_eq] at hdelim
        rw [hdelim.1]
        exact List.mem_cons_self
      · exact hlater _ h

theorem colon_mem_of_tokenize (h : tokenize line = some t) : ':' ∈ line := by
  unfold tokenize at h
  cases hsplit : splitOnceUnquoted line ':' with
  | none =>
    rw [hsplit] at h
    exact nomatch h
  | some parts => exact delim_mem_of_splitOnce hsplit

theorem propertyName_append (h : ':' ∈ line) : propertyName (line ++ rest) = propertyName line := by
  unfold propertyName
  induction line with
  | nil => exact absurd h List.not_mem_nil
  | cons c line ih =>
    rw [List.cons_append, List.takeWhile_cons, List.takeWhile_cons]
    split
    · rename_i hc
      have hne : c ≠ ':' := by
        simp only [Bool.and_eq_true, decide_eq_true_eq] at hc
        exact hc.2
      rw [ih ((List.mem_cons.mp h).resolve_left fun e => hne e.symm)]
    · rfl

theorem not_isOther_of_named (h : tokenize line = some t) {name : Text} (hname : name ∈ bookkeeping)
    (hnamed : eqIgnoreCase (propertyName line) name = true) : isOther t = false := by
  have hupper : upper (propertyName line) = upper name := of_decide_eq_true hnamed
  have hquote : '"' ∉ propertyName line := by
    intro hmem
    have hin : '"' ∈ upper name := hupper ▸ List.mem_map.mpr ⟨'"', hmem, rfl⟩
    revert hin
    unfold bookkeeping at hname
    simp only [List.mem_cons, List.not_mem_nil, or_false] at hname
    rcases hname with rfl | rfl | rfl
    · decide
    · decide
    · decide
  have ht : t.name = upper name := (tokenize_name h hquote).trans hupper
  unfold isOther
  rw [ht]
  revert hname
  unfold bookkeeping
  simp only [List.mem_cons, List.not_mem_nil, or_false]
  intro hname
  rcases hname with rfl | rfl | rfl
  · decide
  · decide
  · decide

theorem groupText_hidden {raw : Text} {i : Nat} (h : isNamed (Document.parse raw) bookkeeping i = true) :
    (contentLines ((Document.parse raw).groupText i)).filter isOther = [] := by
  obtain ⟨name, hname, hnamed⟩ := isNamed_iff.mp h
  obtain ⟨line, hread, hline⟩ := contentLines_groupText raw i
  rw [hread]
  cases htoken : tokenize line with
  | none => rfl
  | some t =>
    have hsame : propertyName line = propertyName ((Document.parse raw).logical i) := by
      rcases hline with rfl | hline
      · rfl
      · rw [← hline, propertyName_append (colon_mem_of_tokenize htoken)]
    have hother := not_isOther_of_named htoken hname (hsame ▸ hnamed)
    simp [hother]

end Named

/-! ## Edits as a reader sees them -/

section Reads

variable {raw text : Text} {edits : Edits} {added kept : Nat → List ContentLine} {index : Nat}

def Document.lineText (doc : Document) (edits : Edits) (index : Nat) : Text :=
  match (edits index).line with
  | .keep => doc.groupText index
  | .replace text => doc.fold index text
  | .remove => []

/-- Apart from the bookkeeping, a reader reads `added` before the logical lines and `kept` in their place. -/
structure Edits.Reads (doc : Document) (edits : Edits) (added kept : Nat → List ContentLine) : Prop where
  first : (edits 0).before = []
  before_whole : ∀ i, Whole (edits i).before
  before_fresh : ∀ i, Fresh (edits i).before
  added : ∀ i, (contentLines (edits i).before).filter isOther = added i
  line_whole : ∀ i, i + 1 < doc.len → Whole (doc.lineText edits i)
  line_fresh : ∀ i, 0 < i → i < doc.len → Fresh (doc.lineText edits i)
  kept : ∀ i, (contentLines (doc.lineText edits i)).filter isOther = kept i

namespace Edits

theorem reads_empty (raw : Text) : Edits.empty.Reads (Document.parse raw) (fun _ => [])
    fun i => (contentLines ((Document.parse raw).groupText i)).filter isOther where
  first := rfl
  before_whole := fun _ => .inl rfl
  before_fresh := fun _ => Fresh.nil
  added := fun _ => rfl
  line_whole := fun _ hi => groupText_whole hi
  line_fresh := fun _ hpos hi => groupText_fresh hpos hi
  kept := fun _ => rfl

namespace Reads

variable (h : edits.Reads (Document.parse raw) added kept)
include h

/-- Whole lines put in before a line are read after those that are put in there already. -/
theorem spliceBefore (hpos : 0 < index) (hwhole : Whole text) (hfresh : Fresh text) :
    (edits.spliceBefore index text).Reads (Document.parse raw)
      (Function.update added index (added index ++ (contentLines text).filter isOther)) kept := by
  have hline : ∀ i, (edits.spliceBefore index text i).line = (edits i).line := by
    intro i
    unfold Edits.spliceBefore
    by_cases hi : i = index
    · subst hi
      rw [Function.update_self]
    · rw [Function.update_of_ne hi]
  have htext : (Document.parse raw).lineText (edits.spliceBefore index text) = (Document.parse raw).lineText edits := by
    funext i
    unfold Document.lineText
    rw [hline]
  have hbefore : ∀ i, i ≠ index → edits.spliceBefore index text i = edits i := fun i hi => Function.update_of_ne hi _ _
  have hhere : (edits.spliceBefore index text index).before = (edits index).before ++ text := by
    unfold Edits.spliceBefore
    rw [Function.update_self]
  refine ⟨?_, ?_, ?_, ?_, ?_, ?_, ?_⟩
  · rw [hbefore 0 (by omega)]
    exact h.first
  · intro i
    by_cases hi : i = index
    · rw [hi, hhere]
      exact (h.before_whole index).append hwhole
    · rw [hbefore i hi]
      exact h.before_whole i
  · intro i
    by_cases hi : i = index
    · rw [hi, hhere]
      exact (h.before_fresh index).append hfresh
    · rw [hbefore i hi]
      exact h.before_fresh i
  · intro i
    by_cases hi : i = index
    · rw [hi, hhere, contentLines_append (h.before_whole index) hfresh, List.filter_append, h.added, Function.update_self]
    · rw [hbefore i hi, Function.update_of_ne hi]
      exact h.added i
  · rw [htext]
    exact h.line_whole
  · rw [htext]
    exact h.line_fresh
  · rw [htext]
    exact h.kept

theorem setLine {line : LineEdit} {lines : List ContentLine}
    (hwhole : Whole ((Document.parse raw).lineText (edits.setLine index line) index))
    (hfresh : Fresh ((Document.parse raw).lineText (edits.setLine index line) index))
    (hlines : (contentLines ((Document.parse raw).lineText (edits.setLine index line) index)).filter isOther = lines) :
    (edits.setLine index line).Reads (Document.parse raw) added (Function.update kept index lines) := by
  have hbefore : ∀ i, (edits.setLine index line i).before = (edits i).before := by
    intro i
    unfold Edits.setLine
    by_cases hi : i = index
    · subst hi
      rw [Function.update_self]
    · rw [Function.update_of_ne hi]
  have hother : ∀ i, i ≠ index → (Document.parse raw).lineText (edits.setLine index line) i =
      (Document.parse raw).lineText edits i := by
    intro i hi
    unfold Document.lineText Edits.setLine
    rw [Function.update_of_ne hi]
  refine ⟨?_, ?_, ?_, ?_, ?_, ?_, ?_⟩
  · rw [hbefore]
    exact h.first
  · intro i
    rw [hbefore]
    exact h.before_whole i
  · intro i
    rw [hbefore]
    exact h.before_fresh i
  · intro i
    rw [hbefore]
    exact h.added i
  · intro i hi
    by_cases he : i = index
    · exact he ▸ hwhole
    · rw [hother i he]
      exact h.line_whole i hi
  · intro i hpos hi
    by_cases he : i = index
    · exact he ▸ hfresh
    · rw [hother i he]
      exact h.line_fresh i hpos hi
  · intro i
    by_cases he : i = index
    · rw [he, Function.update_self]
      exact hlines
    · rw [hother i he, Function.update_of_ne he]
      exact h.kept i

theorem remove (index : Nat) : (edits.remove index).Reads (Document.parse raw) added (Function.update kept index []) := by
  have hnone : (Document.parse raw).lineText (edits.remove index) index = [] := by
    unfold Document.lineText Edits.remove Edits.setLine
    rw [Function.update_self]
  refine h.setLine ?_ ?_ ?_
  · exact .inl hnone
  · show Fresh ((Document.parse raw).lineText (edits.remove index) index)
    rw [hnone]
    exact Fresh.nil
  · show (contentLines ((Document.parse raw).lineText (edits.remove index) index)).filter isOther = []
    rw [hnone]
    rfl

theorem removeAll (indices : List Nat) : (indices.foldl Edits.remove edits).Reads (Document.parse raw) added
    fun i => if i ∈ indices then [] else kept i := by
  induction indices generalizing edits kept with
  | nil => simpa using h
  | cons index indices ih =>
    have hrest := ih (h.remove index)
    have hsame : (fun i => if i ∈ indices then [] else Function.update kept index [] i) =
        fun i => if i ∈ index :: indices then [] else kept i := by
      funext i
      by_cases hi : i = index
      · subst hi
        simp
      · simp [hi]
    rw [hsame] at hrest
    exact hrest

theorem replace (htext : IsBook text) (hnone : kept index = []) :
    (edits.replace index text).Reads (Document.parse raw) added kept := by
  have hterm := terminator_isTerm raw index
  have hline : (Document.parse raw).lineText (edits.replace index text) index =
      foldLine text ((Document.parse raw).terminator index) := by
    unfold Document.lineText Edits.replace Edits.setLine
    rw [Function.update_self]
    rfl
  have hread : (edits.setLine index (.replace text)).Reads (Document.parse raw) added (Function.update kept index []) := by
    refine h.setLine ?_ ?_ ?_
    · exact hline ▸ foldLine_whole hterm
    · exact hline ▸ htext.fresh
    · exact hline ▸ htext.filter hterm
  rw [← hnone, Function.update_eq_self] at hread
  exact hread

variable {vevent : Vevent}

theorem insert (htext : IsBook text) (hanchor : 0 < vevent.anchor) :
    (insert (Document.parse raw) vevent edits text).Reads (Document.parse raw) added kept := by
  have hterm := terminator_isTerm raw vevent.anchor
  have hread := h.spliceBefore hanchor (@foldLine_whole text _ hterm) htext.fresh
  rw [htext.filter hterm, List.append_nil, Function.update_eq_self] at hread
  exact hread

variable (hkept : ∀ i, isNamed (Document.parse raw) bookkeeping i = true → kept i = [])
include hkept

theorem replaceProperty {name : Text} (hname : name ∈ bookkeeping)
    (hproperty : vevent.property (Document.parse raw) name = some index) (htext : IsBook text) :
    (edits.replace index text).Reads (Document.parse raw) added kept := by
  refine h.replace htext (hkept index (isNamed_iff.mpr ⟨name, hname, ?_⟩))
  have hfound := List.find?_some hproperty
  exact hfound

theorem setOrInsert {name value : Text} (hname : name ∈ bookkeeping) (hvalue : NoBreak value)
    (hanchor : 0 < vevent.anchor) :
    (setOrInsert (Document.parse raw) vevent edits name value).Reads (Document.parse raw) added kept := by
  have htext : IsBook (name ++ ':' :: value) := ⟨name, hname, value, hvalue, rfl⟩
  unfold Ical.setOrInsert
  dsimp only
  cases hproperty : vevent.property (Document.parse raw) name with
  | none => exact h.insert htext hanchor
  | some group => exact h.replaceProperty hkept hname hproperty htext

theorem modified (vevent : Vevent) (stamp : UtcDateTime) : (match vevent.property (Document.parse raw) "LAST-MODIFIED".toList with
    | some group => edits.replace group ("LAST-MODIFIED:".toList ++ formatUtc stamp)
    | none => edits).Reads (Document.parse raw) added kept := by
  cases hproperty : vevent.property (Document.parse raw) "LAST-MODIFIED".toList with
  | none => exact h
  | some group =>
    have hname : "LAST-MODIFIED".toList ∈ bookkeeping := by decide
    exact h.replaceProperty hkept hname hproperty ⟨_, hname, formatUtc stamp, noBreak_formatUtc stamp, rfl⟩

theorem revise (hanchor : 0 < vevent.anchor) (stamp : UtcDateTime) (significant : Bool) :
    (revise (Document.parse raw) vevent edits stamp significant).Reads (Document.parse raw) added kept := by
  have hstamped := h.setOrInsert hkept (by decide : "DTSTAMP".toList ∈ bookkeeping) (noBreak_formatUtc stamp) hanchor
  unfold Ical.revise
  dsimp only
  have hmodified := hstamped.modified hkept vevent stamp
  cases significant with
  | false => exact hmodified
  | true =>
    rw [if_pos rfl]
    unfold bumpSequence
    exact hmodified.setOrInsert hkept (by decide) (noBreak_toString _) hanchor

omit hkept in
theorem contentLines_render : (contentLines ((Document.parse raw).render edits)).filter isOther =
    (List.range (Document.parse raw).len).flatMap fun i => added i ++ kept i := by
  have hsplit : ∀ i, (Document.parse raw).renderGroup edits i =
      (edits i).before ++ (Document.parse raw).lineText edits i := fun _ => rfl
  have hfresh : ∀ i ∈ (List.range (Document.parse raw).len).tail, Fresh ((Document.parse raw).renderGroup edits i) := by
    intro i hi
    rw [List.tail_range, List.mem_range'_1] at hi
    rw [hsplit]
    exact (h.before_fresh i).append (h.line_fresh i (by omega) (by omega))
  have hwhole : ∀ i ∈ (List.range (Document.parse raw).len).dropLast, Whole ((Document.parse raw).renderGroup edits i) := by
    intro i hi
    have hlt : i + 1 < (Document.parse raw).len := by
      obtain ⟨j, hj, hget⟩ := List.mem_iff_getElem.mp hi
      rw [List.length_dropLast, List.length_range] at hj
      rw [List.getElem_dropLast, List.getElem_range] at hget
      omega
    rw [hsplit]
    exact (h.before_whole i).append (h.line_whole i hlt)
  have hread : ∀ i ∈ List.range (Document.parse raw).len,
      (contentLines ((Document.parse raw).renderGroup edits i)).filter isOther = added i ++ kept i := by
    intro i hi
    rw [hsplit]
    by_cases hpos : 0 < i
    · rw [contentLines_append (h.before_whole i) (h.line_fresh i hpos (List.mem_range.mp hi)), List.filter_append,
        h.added, h.kept]
    · obtain rfl : i = 0 := by omega
      have hnone := h.added 0
      rw [h.first, contentLines_nil] at hnone
      rw [h.first, List.nil_append, h.kept, ← hnone]
      rfl
  rw [Document.render_eq, contentLines_flatMap hfresh hwhole, List.filter_flatMap]
  exact List.flatMap_congr hread

end Reads

end Edits

end Reads

end Ical
end SyncEngine
