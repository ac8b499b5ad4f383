import SyncEngine.Ical.Reader
import SyncEngine.Ical.Frame

/-!
# What the reader makes of an edited document

The reader unfolds the text and reads line by line.  Whole lines that are put together are read one after the other,
so the lines of an edited document are those of its logical lines, each with what is spliced in before it.
-/

namespace SyncEngine
namespace Ical

/-! ## Whole lines -/

section Lines

variable {lines before : List Text} {a b raw text : Text}

/-- No line is open at the end. -/
def Whole (text : Text) : Prop := text = [] ∨ text.getLast? = some '\n'

/-- The text does not go on with the line before it. -/
def Fresh (text : Text) : Prop := ∀ c, text.head? = some c → c ≠ ' ' ∧ c ≠ '\t'

theorem Fresh.nil : Fresh [] := fun _ h => nomatch h

theorem Fresh.append (ha : Fresh a) (hb : Fresh b) : Fresh (a ++ b) := by
  cases a with
  | nil => exact hb
  | cons c a => exact ha

theorem Whole.append (ha : Whole a) (hb : Whole b) : Whole (a ++ b) := by
  rcases hb with rfl | hb
  · rw [List.append_nil]
    exact ha
  · right
    rw [List.getLast?_append, hb]
    rfl

theorem unfoldLine_ne_nil : unfoldLine lines raw ≠ [] := by
  unfold unfoldLine
  dsimp only
  split
  · split
    · simp
    · simp
  · simp

theorem unfoldLine_append (hne : lines ≠ []) : unfoldLine (before ++ lines) raw = before ++ unfoldLine lines raw := by
  have hlast : (before ++ lines).getLast? = lines.getLast? := by
    rw [List.getLast?_append]
    cases hlast : lines.getLast? with
    | none => exact absurd (List.getLast?_eq_none_iff.mp hlast) hne
    | some last => rfl
  unfold unfoldLine
  dsimp only
  rw [hlast, List.dropLast_append_of_ne_nil hne]
  split
  · split
    · rw [List.append_assoc]
    · rw [List.append_assoc]
  · rw [List.append_assoc]

theorem foldl_unfoldLine_append (hne : lines ≠ []) (raws : List Text) :
    raws.foldl unfoldLine (before ++ lines) = before ++ raws.foldl unfoldLine lines := by
  induction raws generalizing lines with
  | nil => rfl
  | cons raw raws ih =>
    rw [List.foldl_cons, List.foldl_cons, unfoldLine_append hne]
    exact ih unfoldLine_ne_nil

theorem stripReturn_fresh (h : Fresh raw) : Fresh (stripReturn raw) := by
  unfold stripReturn
  split
  · intro c hc
    cases raw with
    | nil => exact nomatch hc
    | cons d raw =>
      cases raw with
      | nil => exact nomatch hc
      | cons e raw => exact h c hc
  · exact h

theorem unfoldLine_fresh (h : Fresh raw) : unfoldLine lines raw = lines ++ [stripReturn raw] := by
  have hfresh := stripReturn_fresh h
  unfold unfoldLine
  dsimp only
  split
  · rename_i c rest last hline hlast
    rw [hline] at hfresh
    obtain ⟨hspace, htab⟩ := hfresh c rfl
    rw [if_neg (by simp [hspace, htab])]
  · rfl

theorem unfoldLine_nil : unfoldLine [] raw = [stripReturn raw] := by
  unfold unfoldLine
  dsimp only
  split
  · rename_i hlast
    exact nomatch hlast
  · rfl

theorem head_splitOn_fresh (h : Fresh b) : ∃ first rest, b.splitOn '\n' = first :: rest ∧ Fresh first := by
  cases b with
  | nil => exact ⟨[], [], List.splitOn_nil '\n', Fresh.nil⟩
  | cons c b =>
    rw [List.splitOn_cons_eq_if_modifyHead]
    split
    · exact ⟨[], _, rfl, Fresh.nil⟩
    · cases hsplit : b.splitOn '\n' with
      | nil => exact absurd hsplit (List.splitOn_ne_nil '\n' b)
      | cons first rest => exact ⟨c :: first, rest, rfl, h⟩

theorem unfold_append (hb : Fresh b) : unfold (a ++ '\n' :: b) = unfold a ++ unfold b := by
  obtain ⟨first, rest, hsplit, hfirst⟩ := head_splitOn_fresh hb
  have hstart : ∀ lines : List Text, (b.splitOn '\n').foldl unfoldLine lines =
      rest.foldl unfoldLine (lines ++ [stripReturn first]) := by
    intro lines
    rw [hsplit, List.foldl_cons, unfoldLine_fresh hfirst]
  unfold unfold
  rw [List.splitOn_append_cons_self, List.foldl_append, hstart, hstart, List.nil_append]
  exact foldl_unfoldLine_append (by simp) rest

theorem contentLines_nil : contentLines [] = [] := rfl

theorem contentLines_append (ha : Whole a) (hb : Fresh b) : contentLines (a ++ b) = contentLines a ++ contentLines b := by
  have hbreak : ∀ a b : Text, Fresh b → contentLines (a ++ '\n' :: b) = contentLines a ++ contentLines b := by
    intro a b hb
    unfold contentLines
    rw [unfold_append hb, List.filterMap_append]
  rcases ha with rfl | ha
  · rw [contentLines_nil]
    rfl
  · obtain ⟨body, rfl⟩ : ∃ body, a = body ++ ['\n'] := by
      refine ⟨a.dropLast, (List.dropLast_append_getLast? '\n' ?_).symm⟩
      rw [ha]
      rfl
    have hbody := hbreak body [] Fresh.nil
    rw [contentLines_nil, List.append_nil] at hbody
    rw [List.append_assoc, List.singleton_append, hbreak body b hb, hbody]

theorem contentLines_flatMap {α : Type} {f : α → Text} {l : List α} (hfresh : ∀ x ∈ l.tail, Fresh (f x))
    (hwhole : ∀ x ∈ l.dropLast, Whole (f x)) : contentLines (l.flatMap f) = l.flatMap fun x => contentLines (f x) := by
  induction l with
  | nil => rfl
  | cons x l ih =>
    cases l with
    | nil => simp
    | cons y l =>
      have hrest : Fresh ((y :: l).flatMap f) := by
        have hall : ∀ l : List α, (∀ x ∈ l, Fresh (f x)) → Fresh (l.flatMap f) := by
          intro l
          induction l with
          | nil => exact fun _ => Fresh.nil
          | cons z l ihl =>
            intro h
            rw [List.flatMap_cons]
            exact (h z List.mem_cons_self).append (ihl fun x hx => h x (List.mem_cons_of_mem z hx))
        exact hall (y :: l) hfresh
      have hcons : (x :: y :: l).flatMap f = f x ++ (y :: l).flatMap f := List.flatMap_cons
      rw [hcons, contentLines_append (hwhole x (by simp)) hrest, ih (fun z hz => hfresh z (List.mem_cons_of_mem y hz))]
      · rfl
      intro z hz
      refine hwhole z ?_
      rw [List.dropLast_cons_of_ne_nil (by simp)]
      exact List.mem_cons_of_mem x hz

end Lines

/-! ## Folding -/

section Folding

variable {line term text : Text} {c : Char}

def IsTerm (term : Text) : Prop := term = ['\n'] ∨ term = ['\r', '\n']

theorem IsTerm.getLast? (h : IsTerm term) : term.getLast? = some '\n' := by
  rcases h with rfl | rfl
  · rfl
  · rfl

theorem foldFrom_whole (h : IsTerm term) (octets : Nat) : (foldFrom term octets line).getLast? = some '\n' := by
  induction line generalizing octets with
  | nil => exact h.getLast?
  | cons c line ih =>
    unfold foldFrom
    split
    · rw [List.getLast?_append]
      have htail : (' ' :: c :: foldFrom term (1 + c.utf8Size) line).getLast? = some '\n' := by
        rw [List.getLast?_cons, List.getLast?_cons, ih]
        rfl
      rw [htail]
      rfl
    · rw [List.getLast?_cons, ih]
      rfl

theorem foldLine_whole (h : IsTerm term) : Whole (foldLine line term) := .inr (foldFrom_whole h 0)

theorem foldLine_cons : ∃ rest, foldLine (c :: line) term = c :: rest := by
  have hsize : c.utf8Size ≤ 4 := Char.utf8Size_le_four c
  unfold foldLine foldFrom
  rw [if_neg (by unfold foldWidth; omega)]
  exact ⟨_, rfl⟩

theorem foldLine_fresh (hspace : c ≠ ' ') (htab : c ≠ '\t') : Fresh (foldLine (c :: line) term) := by
  obtain ⟨rest, hrest⟩ := @foldLine_cons line term c
  rw [hrest]
  intro d hd
  obtain rfl := Option.some.inj hd
  exact ⟨hspace, htab⟩

/-- A character that stays where it is when a line is folded and unfolded: no line feed, and no carriage return where
lines end without one. -/
def Foldable (term : Text) (c : Char) : Prop := c ≠ '\n' ∧ (term = ['\n'] → c ≠ '\r')

theorem splitOn_ended (h : IsTerm term) {done after : Text} (hdone : ∀ c ∈ done, Foldable term c) :
    ∃ raw, (done ++ (term ++ after)).splitOn '\n' = raw :: after.splitOn '\n' ∧ stripReturn raw = done := by
  have hno : '\n' ∉ done := fun hmem => (hdone '\n' hmem).1 rfl
  rcases h with rfl | rfl
  · refine ⟨done, List.splitOn_append_cons_self_of_not_mem hno after, ?_⟩
    unfold stripReturn
    rw [if_neg]
    intro hlast
    exact (hdone '\r' (List.mem_of_getLast? hlast)).2 rfl rfl
  · have hno' : '\n' ∉ done ++ ['\r'] := by
      simp only [List.mem_append, List.mem_singleton, not_or]
      exact ⟨hno, by decide⟩
    have htext : done ++ (['\r', '\n'] ++ after) = (done ++ ['\r']) ++ '\n' :: after := by simp
    refine ⟨done ++ ['\r'], by rw [htext, List.splitOn_append_cons_self_of_not_mem hno'], ?_⟩
    unfold stripReturn
    rw [List.getLast?_concat, if_pos rfl, List.dropLast_concat]

theorem foldable_space : Foldable term ' ' := ⟨by decide, fun _ => by decide⟩

theorem unfoldLine_space {lines : List Text} {last done raw : Text} (h : stripReturn raw = ' ' :: done) :
    unfoldLine (lines ++ [last]) raw = lines ++ [last ++ done] := by
  unfold unfoldLine
  dsimp only
  rw [h, List.getLast?_concat]
  dsimp only
  rw [if_pos (by simp), List.dropLast_concat]

theorem foldl_foldFrom (h : IsTerm term) (hline : ∀ c ∈ line, Foldable term c) {done : Text}
    (hdone : ∀ c ∈ done, Foldable term c) (octets : Nat) (lines : List Text) (last : Text) :
    ((' ' :: (done ++ foldFrom term octets line)).splitOn '\n').foldl unfoldLine (lines ++ [last]) =
      lines ++ [last ++ (done ++ line), []] := by
  induction line generalizing octets done last with
  | nil =>
    have hspaced : ∀ c ∈ ' ' :: done, Foldable term c := List.forall_mem_cons.mpr ⟨foldable_space, hdone⟩
    obtain ⟨raw, hsplit, hstrip⟩ := @splitOn_ended term h (' ' :: done) [] hspaced
    rw [List.append_nil] at hsplit
    show ((' ' :: done ++ term).splitOn '\n').foldl unfoldLine (lines ++ [last]) = _
    rw [hsplit, List.foldl_cons, unfoldLine_space hstrip, List.splitOn_nil, List.foldl_cons, List.foldl_nil,
      unfoldLine_fresh Fresh.nil, List.append_nil, List.append_assoc]
    rfl
  | cons c line ih =>
    obtain ⟨hc, hline⟩ := List.forall_mem_cons.mp hline
    unfold foldFrom
    split
    · have hspaced : ∀ c ∈ ' ' :: done, Foldable term c := List.forall_mem_cons.mpr ⟨foldable_space, hdone⟩
      obtain ⟨raw, hsplit, hstrip⟩ :=
        @splitOn_ended term h (' ' :: done) (' ' :: ([c] ++ foldFrom term (1 + c.utf8Size) line)) hspaced
      show ((' ' :: done ++ (term ++ ' ' :: ([c] ++ foldFrom term (1 + c.utf8Size) line))).splitOn '\n').foldl
        unfoldLine (lines ++ [last]) = _
      rw [hsplit, List.foldl_cons, unfoldLine_space hstrip, ih hline (List.forall_mem_singleton.mpr hc)]
      simp
    · have hgrown : ∀ d ∈ done ++ [c], Foldable term d :=
        List.forall_mem_append.mpr ⟨hdone, List.forall_mem_singleton.mpr hc⟩
      have htext : done ++ c :: foldFrom term (octets + c.utf8Size) line =
          (done ++ [c]) ++ foldFrom term (octets + c.utf8Size) line := by simp
      rw [htext, ih hline hgrown]
      simp

/-- A folded line is unfolded to what it was, unless it holds a line break itself. -/
theorem unfold_foldLine (h : IsTerm term) (hline : ∀ c ∈ line, Foldable term c) :
    unfold (foldLine line term) = [line, []] := by
  have hfrom : ∀ (line done : Text) (octets : Nat), (∀ c ∈ line, Foldable term c) → (∀ c ∈ done, Foldable term c) →
      ((done ++ foldFrom term octets line).splitOn '\n').foldl unfoldLine [] = [done ++ line, []] := by
    intro line
    induction line with
    | nil =>
      intro done octets _ hdone
      obtain ⟨raw, hsplit, hstrip⟩ := @splitOn_ended term h done [] hdone
      rw [List.append_nil] at hsplit
      show ((done ++ term).splitOn '\n').foldl unfoldLine [] = _
      rw [hsplit, List.splitOn_nil, List.foldl_cons, List.foldl_cons, List.foldl_nil, unfoldLine_fresh Fresh.nil,
        unfoldLine_nil, hstrip, List.append_nil]
      rfl
    | cons c line ih =>
      intro done octets hline hdone
      obtain ⟨hc, hline⟩ := List.forall_mem_cons.mp hline
      unfold foldFrom
      split
      · obtain ⟨raw, hsplit, hstrip⟩ :=
          @splitOn_ended term h done (' ' :: ([c] ++ foldFrom term (1 + c.utf8Size) line)) hdone
        show ((done ++ (term ++ ' ' :: ([c] ++ foldFrom term (1 + c.utf8Size) line))).splitOn '\n').foldl
          unfoldLine [] = _
        have hrest := foldl_foldFrom h hline (List.forall_mem_singleton.mpr hc) (1 + c.utf8Size) [] done
        rw [hsplit, List.foldl_cons, unfoldLine_nil, hstrip]
        exact hrest
      · have hgrown : ∀ d ∈ done ++ [c], Foldable term d :=
          List.forall_mem_append.mpr ⟨hdone, List.forall_mem_singleton.mpr hc⟩
        have htext : done ++ c :: foldFrom term (octets + c.utf8Size) line =
            (done ++ [c]) ++ foldFrom term (octets + c.utf8Size) line := by simp
        rw [htext, ih _ _ hline hgrown]
        simp
  exact hfrom line [] 0 hline fun _ hc => nomatch hc

theorem contentLines_foldLine (h : IsTerm term) (hline : ∀ c ∈ line, Foldable term c) :
    contentLines (foldLine line term) = (tokenize line).toList := by
  have hempty : tokenize [] = none := rfl
  unfold contentLines
  rw [unfold_foldLine h hline]
  cases htoken : tokenize line with
  | none => simp [htoken, hempty]
  | some token => simp [htoken, hempty]

end Folding

/-! ## The logical lines of a document -/

section Parsed

variable {lines : List PhysicalLine}

/-- A line whose terminator is there. -/
def PhysicalLine.Ended (line : PhysicalLine) : Prop := ∃ raw, '\n' ∉ raw ∧ line = PhysicalLine.ended raw

theorem PhysicalLine.Ended.isTerm {line : PhysicalLine} (h : line.Ended) : IsTerm line.term := by
  obtain ⟨raw, -, rfl⟩ := h
  unfold PhysicalLine.ended
  split
  · exact .inr rfl
  · exact .inl rfl

theorem PhysicalLine.Ended.text {line : PhysicalLine} (h : line.Ended) :
    ∃ raw, '\n' ∉ raw ∧ line.text = raw ++ ['\n'] ∧ stripReturn raw = line.content := by
  obtain ⟨raw, hraw, rfl⟩ := h
  refine ⟨raw, hraw, PhysicalLine.text_ended raw, ?_⟩
  unfold stripReturn PhysicalLine.ended
  split
  · rfl
  · rfl

def PhysicalLine.Open (line : PhysicalLine) : Prop := line.term = [] ∧ line.content ≠ [] ∧ '\n' ∉ line.content

/-- Every line is ended but the last, which may have no terminator, and then has content. -/
theorem physicalFrom_ended {read : Text} (hread : '\n' ∉ read) (rest : Text) :
    (∀ line ∈ (physicalFrom read rest).dropLast, line.Ended) ∧
      ∀ line ∈ physicalFrom read rest, line.Ended ∨ line.Open := by
  induction rest generalizing read with
  | nil =>
    unfold physicalFrom
    split
    · simp
    · rename_i hne
      constructor
      · exact fun line hline => absurd hline List.not_mem_nil
      · intro line hline
        rw [List.mem_singleton.mp hline]
        exact .inr ⟨rfl, hne, hread⟩
  | cons c rest ih =>
    unfold physicalFrom
    split
    · have hended : (PhysicalLine.ended read).Ended := ⟨read, hread, rfl⟩
      obtain ⟨hbut, hall⟩ := @ih [] (by simp)
      constructor
      · intro line hline
        cases hrest : physicalFrom [] rest with
        | nil =>
          rw [hrest] at hline
          cases hline
        | cons next others =>
          rw [hrest] at hline hbut
          rw [List.dropLast_cons_of_ne_nil (by simp)] at hline
          rcases List.mem_cons.mp hline with rfl | hline
          · exact hended
          · exact hbut line hline
      · intro line hline
        rcases List.mem_cons.mp hline with rfl | hline
        · exact .inl hended
        · exact hall line hline
    · rename_i hc
      refine ih ?_
      simp only [List.mem_append, List.mem_singleton, not_or]
      exact ⟨hread, fun h => hc h.symm⟩

theorem logicalGroups_shape (lines : List PhysicalLine) : (∀ group ∈ logicalGroups lines, group ≠ []) ∧
      (∀ group ∈ (logicalGroups lines).tail, ∀ first, group.head? = some first → first.isContinuation = false) ∧
      (logicalGroups lines).head?.bind List.head? = lines.head? := by
  induction lines with
  | nil => simp [logicalGroups]
  | cons line rest ih =>
    obtain ⟨hne, hfirst, hhead⟩ := ih
    unfold logicalGroups
    cases rest with
    | nil => simp [logicalGroups]
    | cons next rest =>
      cases hgroups : logicalGroups (next :: rest) with
      | nil =>
        rw [hgroups] at hhead
        cases hhead
      | cons group groups =>
        rw [hgroups] at hne hfirst hhead
        dsimp only
        by_cases hnext : next.isContinuation = true
        · rw [if_pos hnext]
          refine ⟨?_, hfirst, rfl⟩
          intro g hg
          rcases List.mem_cons.mp hg with rfl | hg
          · simp
          · exact hne g (List.mem_cons_of_mem group hg)
        · rw [if_neg hnext]
          refine ⟨?_, ?_, rfl⟩
          · intro g hg
            rcases List.mem_cons.mp hg with rfl | hg
            · simp
            · exact hne g hg
          · intro g hg first hg'
            rcases List.mem_cons.mp hg with rfl | hg
            · have hsame : some first = some next := hg'.symm.trans hhead
              rw [Option.some.inj hsame]
              simpa using hnext
            · exact hfirst g hg first hg'

theorem logicalGroups_continue (lines : List PhysicalLine) :
    ∀ group ∈ logicalGroups lines, ∀ line ∈ group.tail, line.isContinuation = true := by
  induction lines with
  | nil =>
    intro group h
    cases h
  | cons line rest ih =>
    have hsingle : ∀ l ∈ [line].tail, l.isContinuation = true := by
      intro l h
      cases h
    unfold logicalGroups
    cases rest with
    | nil =>
      intro group hgroup
      rw [List.mem_singleton.mp hgroup]
      exact hsingle
    | cons next rest =>
      obtain ⟨-, -, hhead⟩ := logicalGroups_shape (next :: rest)
      cases hgroups : logicalGroups (next :: rest) with
      | nil =>
        rw [hgroups] at hhead
        cases hhead
      | cons group groups =>
        rw [hgroups] at ih hhead
        dsimp only
        by_cases hnext : next.isContinuation = true
        · rw [if_pos hnext]
          intro g hg
          rcases List.mem_cons.mp hg with rfl | hg
          · intro l hl
            cases group with
            | nil => cases hhead
            | cons first group =>
              obtain rfl := Option.some.inj hhead
              rcases List.mem_cons.mp hl with rfl | hl
              · exact hnext
              · exact ih _ List.mem_cons_self l hl
          · exact ih g (List.mem_cons_of_mem group hg)
        · rw [if_neg hnext]
          intro g hg
          rcases List.mem_cons.mp hg with rfl | hg
          · exact hsingle
          · exact ih g hg

theorem mem_dropLast_flatten {α : Type} {l : List (List α)} (hne : ∀ g ∈ l, g ≠ []) {i : Nat} (hi : i + 1 < l.length)
    {x : α} (hx : x ∈ l[i]) : x ∈ l.flatten.dropLast := by
  have hsplit : l.flatten = (l.take (i + 1)).flatten ++ (l.drop (i + 1)).flatten := by
    rw [← List.flatten_append, List.take_append_drop]
  have hlater : (l.drop (i + 1)).flatten ≠ [] := by
    intro hnil
    have hin : l[i + 1] ∈ l.drop (i + 1) := List.mem_drop_iff_getElem.mpr ⟨0, by omega, rfl⟩
    exact hne _ (List.getElem_mem hi) (List.flatten_eq_nil_iff.mp hnil _ hin)
  rw [hsplit, List.dropLast_append_of_ne_nil hlater]
  refine List.mem_append_left _ (List.mem_flatten.mpr ⟨l[i], ?_, hx⟩)
  exact List.mem_take_iff_getElem.mpr ⟨i, by omega, rfl⟩

variable {raw : Text} {i : Nat}

def Document.groupText (doc : Document) (index : Nat) : Text := (doc.group index).flatMap PhysicalLine.text

theorem group_eq (hi : i < (Document.parse raw).len) : (Document.parse raw).group i = (Document.parse raw).groups[i] := by
  unfold Document.group
  rw [List.getD_eq_getElem?_getD, List.getElem?_eq_getElem hi]
  rfl

theorem mem_group {line : PhysicalLine} (hi : i < (Document.parse raw).len)
    (hline : line ∈ (Document.parse raw).group i) : line.Ended ∨ line.Open := by
  rw [group_eq hi] at hline
  refine (@physicalFrom_ended [] (by simp) raw).2 line ?_
  have hflat : (Document.parse raw).groups.flatten = physicalFrom [] raw := flatten_logicalGroups (physicalLines raw)
  rw [← hflat]
  exact List.mem_flatten.mpr ⟨_, List.getElem_mem hi, hline⟩

theorem group_eq_nil (hi : (Document.parse raw).len ≤ i) : (Document.parse raw).group i = [] := by
  unfold Document.group
  rw [List.getD_eq_getElem?_getD, List.getElem?_eq_none hi]
  rfl

theorem terminator_isTerm (raw : Text) (i : Nat) : IsTerm ((Document.parse raw).terminator i) := by
  unfold Document.terminator
  cases hlast : ((Document.parse raw).group i).getLast? with
  | none => exact .inr rfl
  | some line =>
    dsimp only
    split
    · exact .inr rfl
    · rename_i hterm
      have hline := List.mem_of_getLast? hlast
      by_cases hi : i < (Document.parse raw).len
      · rcases mem_group hi hline with hended | ⟨hnone, -⟩
        · exact hended.isTerm
        · exact absurd hnone hterm
      · rw [group_eq_nil (by omega)] at hline
        exact absurd hline List.not_mem_nil

theorem groupText_fresh (hpos : 0 < i) (hi : i < (Document.parse raw).len) :
    Fresh ((Document.parse raw).groupText i) := by
  obtain ⟨hne, hfirst, -⟩ := logicalGroups_shape (physicalLines raw)
  have hin : (Document.parse raw).group i ∈ (logicalGroups (physicalLines raw)).tail := by
    rw [group_eq hi]
    obtain ⟨j, rfl⟩ : ∃ j, i = j + 1 := ⟨i - 1, by omega⟩
    have htail : j < (logicalGroups (physicalLines raw)).tail.length := by
      rw [List.length_tail]
      have hlen : j + 1 < (logicalGroups (physicalLines raw)).length := hi
      omega
    have hget : (logicalGroups (physicalLines raw)).tail[j] = (Document.parse raw).groups[j + 1] :=
      List.getElem_tail htail
    rw [← hget]
    exact List.getElem_mem htail
  unfold Document.groupText
  cases hgroup : (Document.parse raw).group i with
  | nil => exact Fresh.nil
  | cons line rest =>
    have hcontinues : line.isContinuation = false := hfirst _ hin line (by rw [hgroup]; rfl)
    have hline := mem_group hi (by rw [hgroup]; exact List.mem_cons_self)
    rw [List.flatMap_cons]
    unfold PhysicalLine.text
    intro c hc
    cases hcontent : line.content with
    | cons d content =>
      rw [hcontent] at hc
      obtain rfl := Option.some.inj hc
      unfold PhysicalLine.isContinuation at hcontinues
      rw [hcontent] at hcontinues
      simpa using hcontinues
    | nil =>
      rw [hcontent] at hc
      rcases hline with hended | ⟨-, hsome, -⟩
      · rcases hended.isTerm with hterm | hterm
        · rw [hterm] at hc
          obtain rfl := Option.some.inj hc
          decide
        · rw [hterm] at hc
          obtain rfl := Option.some.inj hc
          decide
      · exact absurd hcontent hsome

theorem group_ended (hi : i < (Document.parse raw).len) :
    ∀ line ∈ ((Document.parse raw).group i).dropLast, line.Ended := by
  intro line hline
  rw [group_eq hi] at hline
  refine (@physicalFrom_ended [] (by simp) raw).1 line ?_
  have hflat : (Document.parse raw).groups.flatten = physicalFrom [] raw := flatten_logicalGroups (physicalLines raw)
  rw [← hflat]
  have hsplit : (Document.parse raw).groups = (Document.parse raw).groups.take i ++
      (Document.parse raw).groups[i] :: (Document.parse raw).groups.drop (i + 1) := by
    rw [← List.drop_eq_getElem_cons hi, List.take_append_drop]
  generalize (Document.parse raw).groups.drop (i + 1) = later at hsplit
  rw [hsplit, List.flatten_append, List.flatten_cons]
  have hne : (Document.parse raw).groups[i] ++ later.flatten ≠ [] := by
    intro hnil
    rw [(List.append_eq_nil_iff.mp hnil).1] at hline
    exact absurd hline List.not_mem_nil
  rw [List.dropLast_append_of_ne_nil hne]
  refine List.mem_append_right _ ?_
  by_cases hlater : later.flatten = []
  · rw [hlater, List.append_nil]
    exact hline
  · rw [List.dropLast_append_of_ne_nil hlater]
    exact List.mem_append_left _ (List.mem_of_mem_dropLast hline)

theorem groupText_whole (hi : i + 1 < (Document.parse raw).len) : Whole ((Document.parse raw).groupText i) := by
  obtain ⟨hne, -, -⟩ := logicalGroups_shape (physicalLines raw)
  have hlt : i < (Document.parse raw).len := by omega
  have hended : ∀ line ∈ (Document.parse raw).group i, line.Ended := by
    intro line hline
    rw [group_eq hlt] at hline
    refine (@physicalFrom_ended [] (by simp) raw).1 line ?_
    have hflat : (Document.parse raw).groups.flatten = physicalFrom [] raw := flatten_logicalGroups (physicalLines raw)
    rw [← hflat]
    exact mem_dropLast_flatten hne hi hline
  have hall : ∀ lines : List PhysicalLine, (∀ line ∈ lines, line.Ended) → Whole (lines.flatMap PhysicalLine.text) := by
    intro lines
    induction lines with
    | nil => exact fun _ => .inl rfl
    | cons line lines ih =>
      intro h
      rw [List.flatMap_cons]
      refine Whole.append (.inr ?_) (ih fun l hl => h l (List.mem_cons_of_mem line hl))
      unfold PhysicalLine.text
      rw [List.getLast?_append, (h line List.mem_cons_self).isTerm.getLast?]
      rfl
  exact hall _ hended

theorem foldl_continue {ls : List PhysicalLine} (hcontinue : ∀ l ∈ ls, l.isContinuation = true)
    (hended : ∀ l ∈ ls.dropLast, l.Ended) (hall : ∀ l ∈ ls, l.Ended ∨ l.Open) (last : Text) :
    ∃ line, (line = last ++ ls.flatMap (fun l => l.content.drop 1) ∨
        line ++ ['\r'] = last ++ ls.flatMap (fun l => l.content.drop 1)) ∧
      (((ls.flatMap PhysicalLine.text).splitOn '\n').foldl unfoldLine [last] = [line] ∨
        ((ls.flatMap PhysicalLine.text).splitOn '\n').foldl unfoldLine [last] = [line, []]) := by
  have hjoin : ∀ {last : Text} {l : PhysicalLine} {raw : Text}, l.isContinuation = true → stripReturn raw = l.content →
      unfoldLine [last] raw = [last ++ l.content.drop 1] := by
    intro last l raw hl hraw
    unfold PhysicalLine.isContinuation at hl
    unfold unfoldLine
    dsimp only
    rw [hraw]
    cases hcontent : l.content with
    | nil =>
      rw [hcontent] at hl
      exact nomatch hl
    | cons c rest =>
      rw [hcontent] at hl
      show (if (c = ' ' || c = '\t') = true then [] ++ [last ++ rest] else [last] ++ [c :: rest]) = _
      rw [if_pos hl]
      rfl
  induction ls generalizing last with
  | nil =>
    refine ⟨last, .inl (by simp), .inr ?_⟩
    show ([].splitOn '\n').foldl unfoldLine [last] = _
    rw [List.splitOn_nil, List.foldl_cons, List.foldl_nil, unfoldLine_fresh Fresh.nil]
    rfl
  | cons l ls ih =>
    have hl : l.isContinuation = true := hcontinue l List.mem_cons_self
    by_cases hend : l.Ended
    · obtain ⟨read, hread, htext, hstrip⟩ := hend.text
      obtain ⟨line, hline, hfold⟩ := ih (fun l' hl' => hcontinue l' (List.mem_cons_of_mem l hl'))
        (fun l' hl' => hended l' (by
          cases ls with
          | nil => exact absurd hl' List.not_mem_nil
          | cons next ls => exact List.mem_cons_of_mem l hl'))
        (fun l' hl' => hall l' (List.mem_cons_of_mem l hl')) (last ++ l.content.drop 1)
      refine ⟨line, by simpa only [List.flatMap_cons, List.append_assoc] using hline, ?_⟩
      rw [List.flatMap_cons, htext, List.append_assoc, List.singleton_append,
        List.splitOn_append_cons_self_of_not_mem hread, List.foldl_cons, hjoin hl hstrip]
      exact hfold
    · -- only the last line of the document is not ended
      obtain rfl : ls = [] := by
        cases ls with
        | nil => rfl
        | cons next ls => exact absurd (hended l List.mem_cons_self) hend
      obtain ⟨hterm, -, hno⟩ := (hall l List.mem_cons_self).resolve_left hend
      have hone : ([l].flatMap PhysicalLine.text).splitOn '\n' = [l.content] := by
        show (l.content ++ l.term ++ []).splitOn '\n' = _
        rw [hterm, List.append_nil, List.append_nil, List.splitOn_eq_singleton hno]
      rw [hone, List.foldl_cons, List.foldl_nil]
      by_cases hreturn : l.content.getLast? = some '\r'
      · -- the reader takes the carriage return off
        obtain ⟨body, hbody⟩ : ∃ body, l.content = body ++ ['\r'] :=
          ⟨l.content.dropLast, (List.dropLast_append_getLast? '\r' (by rw [hreturn]; rfl)).symm⟩
        have hstrip : stripReturn l.content = body := by
          unfold stripReturn
          rw [if_pos hreturn, hbody, List.dropLast_concat]
        cases body with
        | nil =>
          unfold PhysicalLine.isContinuation at hl
          rw [hbody] at hl
          exact nomatch hl
        | cons c body =>
          have hstart : (⟨c :: body, []⟩ : PhysicalLine).isContinuation = true := by
            unfold PhysicalLine.isContinuation at hl ⊢
            rw [hbody] at hl
            exact hl
          refine ⟨last ++ body, .inr ?_, .inl (hjoin hstart hstrip)⟩
          rw [List.flatMap_cons, hbody]
          simp
      · have hstrip : stripReturn l.content = l.content := by
          unfold stripReturn
          rw [if_neg hreturn]
        refine ⟨last ++ l.content.drop 1, .inl (by simp), .inl (hjoin hl hstrip)⟩

theorem contentLines_groupText (raw : Text) (i : Nat) :
    ∃ line, contentLines ((Document.parse raw).groupText i) = (tokenize line).toList ∧
      (line = (Document.parse raw).logical i ∨ line ++ ['\r'] = (Document.parse raw).logical i) := by
  have hempty : tokenize [] = none := rfl
  unfold Document.groupText Document.logical
  by_cases hi : i < (Document.parse raw).len
  · have hcontinue := logicalGroups_continue (physicalLines raw) _
      (by rw [group_eq hi]; exact List.getElem_mem hi : (Document.parse raw).group i ∈ logicalGroups (physicalLines raw))
    have hended := group_ended hi
    have hall : ∀ l ∈ (Document.parse raw).group i, l.Ended ∨ l.Open := fun l hl => mem_group hi hl
    cases hgroup : (Document.parse raw).group i with
    | nil => exact ⟨[], rfl, .inl rfl⟩
    | cons first rest =>
      rw [hgroup] at hcontinue hended hall
      have hread : ∃ line, (line = first.content ++ rest.flatMap (fun l => l.content.drop 1) ∨
          line ++ ['\r'] = first.content ++ rest.flatMap (fun l => l.content.drop 1)) ∧
          (unfold ((first :: rest).flatMap PhysicalLine.text) = [line] ∨
            unfold ((first :: rest).flatMap PhysicalLine.text) = [line, []]) := by
        by_cases hend : first.Ended
        · obtain ⟨read, hread, htext, hstrip⟩ := hend.text
          have hrest := foldl_continue hcontinue (fun l hl => hended l (by
            cases rest with
            | nil => exact absurd hl List.not_mem_nil
            | cons next rest => exact List.mem_cons_of_mem first hl))
            (fun l hl => hall l (List.mem_cons_of_mem first hl)) first.content
          unfold unfold
          rw [List.flatMap_cons, htext, List.append_assoc, List.singleton_append,
            List.splitOn_append_cons_self_of_not_mem hread, List.foldl_cons, unfoldLine_nil, hstrip]
          exact hrest
        · obtain rfl : rest = [] := by
            cases rest with
            | nil => rfl
            | cons next rest => exact absurd (hended first List.mem_cons_self) hend
          obtain ⟨hterm, -, hno⟩ := (hall first List.mem_cons_self).resolve_left hend
          have hone : unfold ([first].flatMap PhysicalLine.text) = [stripReturn first.content] := by
            show ((first.content ++ first.term ++ []).splitOn '\n').foldl unfoldLine [] = _
            rw [hterm, List.append_nil, List.append_nil, List.splitOn_eq_singleton hno, List.foldl_cons, List.foldl_nil,
              unfoldLine_nil]
          refine ⟨stripReturn first.content, ?_, .inl hone⟩
          rw [List.flatMap_nil, List.append_nil]
          unfold stripReturn
          split
          · rename_i hreturn
            exact .inr (List.dropLast_append_getLast? '\r' (by rw [hreturn]; rfl))
          · exact .inl rfl
      obtain ⟨line, hline, hunfold⟩ := hread
      refine ⟨line, ?_, hline⟩
      unfold contentLines
      rcases hunfold with hunfold | hunfold
      · rw [hunfold]
        cases htoken : tokenize line with
        | none => simp [htoken]
        | some token => simp [htoken]
      · rw [hunfold]
        cases htoken : tokenize line with
        | none => simp [htoken, hempty]
        | some token => simp [htoken, hempty]
  · rw [group_eq_nil (by omega)]
    exact ⟨[], rfl, .inl rfl⟩

end Parsed

end Ical
end SyncEngine
