import SyncEngine.Imap.PageRuns
import SyncEngine.Library.Fallible
import SyncEngine.Library.Spans

/-!
# UID sets as texts

The texts a pass names its UIDs with, computed in 32-bit arithmetic that may overflow, and what a server reads in them.
-/

namespace SyncEngine
namespace Imap

/-! ## What a server reads -/

/-- A number without a sign or a leading zero, of 32 bits. -/
def readUid (text : List Char) : Option Nat :=
  if text ≠ [] ∧ text.all Char.isDigit ∧ text.head? ≠ some '0' ∧ digitsValue text < 2 ^ 32 then some (digitsValue text)
  else none

/-- A UID, or all from one UID to another in either order.  A star is no UID of its own. -/
def readSpan (text : List Char) : Option (List Nat) :=
  match splitAtFirst [':'] text with
  | some (first, last) => do
    let first ← readUid first
    let last ← readUid last
    return Span.members (min first last, max first last)
  | none => (readUid text).map fun uid => [uid]

def readSet (text : List Char) : Option (List Nat) := ((text.splitOn ',').mapM readSpan).map List.flatten

/-! ## What a pass writes -/

/-- The sum as a number of 32 bits. -/
def add32 (a b : Nat) : Option Nat := if a + b < 2 ^ 32 then some (a + b) else none

def rangeText (s : Span) : List Char := decimal s.1 ++ ':' :: decimal s.2

def runSpans (start stop : Nat) : List Nat → Option (List Span)
  | [] => some [(start, stop)]
  | uid :: rest => do
    let next ← add32 stop 1
    if uid = next then runSpans start uid rest
    else return (start, stop) :: (← runSpans uid uid rest)

def partText (s : Span) : List Char := if s.1 = s.2 then decimal s.1 else rangeText s

def setSpans : List Nat → Option (List Span)
  | [] => some []
  | uid :: rest => runSpans uid uid rest

def uidSetText (sorted : List Nat) : Option (List Char) :=
  (setSpans sorted).map fun spans => [','].intercalate (spans.map partText)

/-- The width a limit gives the ranges of a mailbox that has UIDs up to `high`. -/
def rangeStep (low high limit : Nat) : Nat := if 0 < limit ∧ limit < 2 ^ 32 then limit else high - low

def rangeSetTexts (low high limit : Nat) : Option (List (List Char)) :=
  if high ≤ low then some []
  else
    let step := rangeStep low high limit
    (List.range' low (Span.countUp low high step) step).mapM fun start => do
      let past ← add32 start step
      return rangeText (start, min (past - 1) (high - 1))

def listedSetTexts (uids : List Nat) (limit : Nat) : Option (List (List Char)) :=
  if uids = [] then some []
  else (chunks (if limit = 0 then uids.length else limit) uids).mapM uidSetText

/-- The ranges down from `windowHigh`, the lowest from `lowFloor` on. -/
def rangesBelow (lowFloor step windowHigh : Nat) : List Span :=
  let windowLow := max lowFloor (windowHigh - (step - 1))
  if windowLow = lowFloor then [(windowLow, windowHigh)]
  else (windowLow, windowHigh) :: rangesBelow lowFloor step (windowLow - 1)
termination_by windowHigh
decreasing_by omega

def fullRangeTexts (high lowFloor fetchBatch : Nat) : Option (List (List Char × Nat)) :=
  if high < lowFloor then some []
  else do
    let step ← if fetchBatch = 0 then add32 (high - lowFloor) 1 else some (min fetchBatch (2 ^ 32 - 1))
    return (rangesBelow lowFloor step high).map fun s => (rangeText s, s.1)

def listTexts (uidsDesc : List Nat) (fetchBatch : Nat) : Option (List (List Char × Nat)) :=
  (chunks (if fetchBatch = 0 then max uidsDesc.length 1 else fetchBatch) uidsDesc).mapM fun chunk =>
    let sorted := ascending chunk
    (uidSetText sorted).map fun text => (text, sorted.headD 0)

/-- `low..uidNext` in spans of a width.  A sum past 32 bits would stop at the highest UID, which no end passes. -/
def spansUp (width uidNext low : Nat) : List Span :=
  if low < uidNext then
    let high := min (low + (width - 1)) (uidNext - 1)
    (low, high) :: spansUp width uidNext (high + 1)
  else []
termination_by uidNext - low
decreasing_by omega

def uidSpanTexts (uidNext limit : Nat) : List (List Char) :=
  (spansUp (max (if limit < 2 ^ 32 then limit else 2 ^ 32 - 1) 1) uidNext 1).map rangeText

/-! ## What is read of a text -/

section Read

variable {n : Nat} {s : Span} {spans : List Span} {uids : List Nat}

theorem decimal_head {rest : List Char} (h : decimal n = '0' :: rest) : n = 0 := by
  by_contra hne
  have hrest : IsDigits rest := fun c hc => isDigits_decimal c (h ▸ List.mem_cons_of_mem _ hc)
  have hvalue : digitsValue rest = n := by
    have hzero : digitsValue (decimal n) = 10 ^ rest.length * ('0'.toNat - 48) + digitsValue rest := by
      rw [h, digitsValue_cons]
    rw [digitsValue_decimal] at hzero
    have hnone : '0'.toNat - 48 = 0 := rfl
    rw [hnone, Nat.mul_zero, Nat.zero_add] at hzero
    exact hzero.symm
  have hlt := digitsValue_lt hrest
  rw [hvalue] at hlt
  have hpos : 0 < rest.length := by
    apply Nat.pos_of_ne_zero
    intro hlength
    rw [hlength, Nat.pow_zero] at hlt
    omega
  have hle : (decimal n).length ≤ rest.length := (Nat.length_toDigits_le_iff (by decide) hpos).mpr hlt
  rw [h, List.length_cons] at hle
  omega

theorem readUid_decimal (n : Nat) : readUid (decimal n) = if 0 < n ∧ n < 2 ^ 32 then some n else none := by
  have hdigits : (decimal n).all Char.isDigit = true := List.all_eq_true.mpr fun c hc => isDigits_decimal c hc
  have hhead : (decimal n).head? ≠ some '0' ↔ 0 < n := by
    constructor
    · intro h
      apply Nat.pos_of_ne_zero
      rintro rfl
      exact h rfl
    · intro h hzero
      cases htext : decimal n with
      | nil => exact decimal_ne_nil htext
      | cons c rest =>
        rw [htext, List.head?_cons] at hzero
        obtain rfl := Option.some.inj hzero
        have hn := decimal_head htext
        omega
  have hne : decimal n ≠ [] := decimal_ne_nil
  unfold readUid
  simp only [hdigits, hhead, hne, digitsValue_decimal, ne_eq, not_false_eq_true, true_and]

theorem not_mem_decimal {c : Char} (hc : c.isDigit = false) : c ∉ decimal n := by
  intro h
  have hdigit := isDigits_decimal c h
  rw [hc] at hdigit
  exact nomatch hdigit

theorem readSpan_rangeText (hspan : s.1 ≤ s.2) (hsmall : s.2 < 2 ^ 32) :
    readSpan (rangeText s) = if 0 < s.1 then some s.members else none := by
  have hcut : splitAtFirst [':'] (rangeText s) = some (decimal s.1, decimal s.2) :=
    splitAtFirst_eq_some_iff.mpr ⟨rfl, fun c hc he => not_mem_decimal rfl (he ▸ hc)⟩
  unfold readSpan
  rw [hcut]
  dsimp only
  rw [readUid_decimal, readUid_decimal]
  by_cases hpos : 0 < s.1
  · rw [if_pos hpos, if_pos (by omega), if_pos (by omega)]
    show some (Span.members (min s.1 s.2, max s.1 s.2)) = _
    rw [min_eq_left hspan, max_eq_right hspan]
  · rw [if_neg hpos, if_neg (by omega)]
    rfl

theorem readSpan_partText (hspan : s.1 ≤ s.2) (hsmall : s.2 < 2 ^ 32) :
    readSpan (partText s) = if 0 < s.1 then some s.members else none := by
  unfold partText
  by_cases hsame : s.1 = s.2
  · have hcut : splitAtFirst [':'] (decimal s.1) = none :=
      splitAtFirst_eq_none fun c hc he => not_mem_decimal rfl (he ▸ hc)
    have hone : s.members = [s.1] := by
      have hs : s = (s.1, s.1) := Prod.ext rfl hsame.symm
      rw [hs]
      exact Span.members_single _
    rw [if_pos hsame]
    unfold readSpan
    rw [hcut]
    dsimp only
    rw [readUid_decimal, hone]
    by_cases hpos : 0 < s.1
    · rw [if_pos hpos, if_pos (by omega)]
      rfl
    · rw [if_neg hpos, if_neg (by omega)]
      rfl
  · rw [if_neg hsame, readSpan_rangeText hspan hsmall]

/-- A text names the spans: a server reads their UIDs in it, and nothing where one of them starts with zero. -/
def Spells (text : List Char) (spans : List Span) : Prop :=
  ∀ uids, readSet text = some uids ↔ (∀ s ∈ spans, 0 < s.1) ∧ uids = spans.flatMap Span.members

theorem comma_not_mem_rangeText (s : Span) : ',' ∉ rangeText s := by
  intro h
  rcases List.mem_append.mp h with h | h
  · exact not_mem_decimal rfl h
  · rcases List.mem_cons.mp h with h | h
    · exact absurd h (by decide)
    · exact not_mem_decimal rfl h

theorem comma_not_mem_partText (s : Span) : ',' ∉ partText s := by
  unfold partText
  split
  · exact not_mem_decimal rfl
  · exact comma_not_mem_rangeText s

theorem spells_rangeText (hspan : s.1 ≤ s.2) (hsmall : s.2 < 2 ^ 32) : Spells (rangeText s) [s] := by
  intro uids
  unfold readSet
  rw [List.splitOn_eq_singleton (comma_not_mem_rangeText s), List.mapM_cons, readSpan_rangeText hspan hsmall]
  by_cases hpos : 0 < s.1
  · rw [if_pos hpos]
    show some [s.members].flatten = some uids ↔ _
    simp [hpos, eq_comm]
  · rw [if_neg hpos]
    show none = some uids ↔ _
    simp [hpos]

theorem spells_parts (hne : spans ≠ []) (h : ∀ s ∈ spans, s.1 ≤ s.2 ∧ s.2 < 2 ^ 32) :
    Spells ([','].intercalate (spans.map partText)) spans := by
  intro uids
  have hsplit : ([','].intercalate (spans.map partText)).splitOn ',' = spans.map partText := by
    apply List.splitOn_intercalate
    · intro text htext
      obtain ⟨s, -, rfl⟩ := List.mem_map.mp htext
      exact comma_not_mem_partText s
    · exact fun hnil => hne (List.map_eq_nil_iff.mp hnil)
  have hread : ∀ named, (spans.map partText).mapM readSpan = some named ↔
      (∀ s ∈ spans, 0 < s.1) ∧ named = spans.map Span.members := by
    clear hsplit hne
    induction spans with
    | nil => simp [eq_comm]
    | cons s spans ih =>
      obtain ⟨hs, hspans⟩ := List.forall_mem_cons.mp h
      intro named
      rw [List.map_cons, List.mapM_cons, readSpan_partText hs.1 hs.2]
      by_cases hpos : 0 < s.1
      · rw [if_pos hpos]
        show ((spans.map partText).mapM readSpan).bind (fun rest => some (s.members :: rest)) = some named ↔ _
        constructor
        · intro hsome
          obtain ⟨rest, hrest, hcons⟩ := Option.bind_eq_some_iff.mp hsome
          obtain ⟨hall, rfl⟩ := (ih hspans rest).mp hrest
          exact ⟨List.forall_mem_cons.mpr ⟨hpos, hall⟩, (Option.some.inj hcons).symm⟩
        · rintro ⟨hall, rfl⟩
          have hrest := (ih hspans _).mpr ⟨(List.forall_mem_cons.mp hall).2, rfl⟩
          rw [hrest]
          rfl
      · rw [if_neg hpos]
        constructor
        · intro hnone
          exact nomatch hnone
        · rintro ⟨hall, -⟩
          exact absurd (hall s List.mem_cons_self) hpos
  unfold readSet
  rw [hsplit]
  constructor
  · intro hsome
    obtain ⟨named, hnamed, rfl⟩ := Option.map_eq_some_iff.mp hsome
    obtain ⟨hall, rfl⟩ := (hread named).mp hnamed
    exact ⟨hall, (List.flatMap_def ..).symm⟩
  · rintro ⟨hall, rfl⟩
    rw [(hread _).mpr ⟨hall, rfl⟩, List.flatMap_def]
    rfl

end Read

/-! ## Sets of a pass -/

/-- A server reads each text, all of them name the wanted UIDs once each and no other, and none names more than the
limit where there is one. -/
def NamesOnce (wanted : List Nat) (limit : Nat) (texts : List (List Char)) : Prop :=
  ∃ named, List.Forall₂ (fun text uids => readSet text = some uids) texts named ∧ named.flatten.Perm wanted ∧
    (limit ≠ 0 → ∀ uids ∈ named, uids.length ≤ limit)

/-- Each group is listed with its lowest UID, and every group is below those before it. -/
structure Grouped (groups : List (List Char × Nat)) : Prop where
  lowest : ∀ group ∈ groups, ∀ uids, readSet group.1 = some uids → group.2 ∈ uids ∧ ∀ uid ∈ uids, group.2 ≤ uid
  descending : groups.Pairwise fun group group' => ∀ uids uids', readSet group.1 = some uids →
    readSet group'.1 = some uids' → ∀ uid ∈ uids, ∀ uid' ∈ uids', uid' < uid

def uidsOf (spans : List Span) : List Nat := spans.flatMap Span.members

section Names

variable {wanted uids : List Nat} {limit : Nat} {texts : List (List Char)} {sets : List (List Span)}
  {groups : List (List Char × Nat)}

theorem namesOnce_iff (h : List.Forall₂ Spells texts sets) (hspans : ∀ set ∈ sets, ∀ s ∈ set, s.1 ≤ s.2)
    (hperm : (sets.flatMap uidsOf).Perm wanted) (hlength : limit ≠ 0 → ∀ set ∈ sets, (uidsOf set).length ≤ limit) :
    NamesOnce wanted limit texts ↔ ∀ uid ∈ wanted, 0 < uid := by
  have hmem : ∀ uid, uid ∈ wanted ↔ ∃ set ∈ sets, ∃ s ∈ set, s.1 ≤ uid ∧ uid ≤ s.2 := by
    intro uid
    rw [← hperm.mem_iff]
    simp only [List.mem_flatMap, uidsOf, Span.mem_members]
  constructor
  · rintro ⟨named, hnamed, -, -⟩ uid huid
    have hpos : ∀ set ∈ sets, ∀ s ∈ set, 0 < s.1 := by
      clear hmem hperm hspans hlength
      induction h generalizing named with
      | nil => exact fun set hset => nomatch hset
      | cons hspells _ ih =>
        cases hnamed with
        | cons hread hrest => exact List.forall_mem_cons.mpr ⟨((hspells _).mp hread).1, ih _ hrest⟩
    obtain ⟨set, hset, s, hs, hlow, -⟩ := (hmem uid).mp huid
    exact Nat.lt_of_lt_of_le (hpos set hset s hs) hlow
  · intro hpos
    refine ⟨sets.map uidsOf, ?_, ?_, ?_⟩
    · have hall : ∀ set ∈ sets, ∀ s ∈ set, 0 < s.1 := fun set hset s hs =>
        hpos _ ((hmem _).mpr ⟨set, hset, s, hs, Nat.le_refl _, hspans set hset s hs⟩)
      clear hmem hperm hspans hlength
      induction h with
      | nil => exact .nil
      | cons hspells _ ih =>
        obtain ⟨hset, hsets⟩ := List.forall_mem_cons.mp hall
        exact .cons ((hspells _).mpr ⟨hset, rfl⟩) (ih hsets)
    · rw [← List.flatMap_def]
      exact hperm
    · intro hlimit named hnamed
      obtain ⟨set, hset, rfl⟩ := List.mem_map.mp hnamed
      exact hlength hlimit set hset

def SpellsFrom (group : List Char × Nat) (set : List Span) : Prop :=
  Spells group.1 set ∧ group.2 ∈ uidsOf set ∧ ∀ uid ∈ uidsOf set, group.2 ≤ uid

theorem set_of_group (h : List.Forall₂ SpellsFrom groups sets) {group : List Char × Nat} (hgroup : group ∈ groups) :
    ∃ set ∈ sets, SpellsFrom group set := by
  induction h with
  | nil => exact nomatch hgroup
  | cons hfirst _ ih =>
    rcases List.mem_cons.mp hgroup with rfl | hlater
    · exact ⟨_, List.mem_cons_self, hfirst⟩
    · obtain ⟨set, hset, hspells⟩ := ih hlater
      exact ⟨set, List.mem_cons_of_mem _ hset, hspells⟩

theorem grouped_of (h : List.Forall₂ SpellsFrom groups sets)
    (hdown : sets.Pairwise fun set set' => ∀ uid ∈ uidsOf set, ∀ uid' ∈ uidsOf set', uid' < uid) : Grouped groups := by
  induction h with
  | nil => exact ⟨fun group hgroup => (nomatch hgroup), .nil⟩
  | @cons group set groups sets hgroup hrest ih =>
    obtain ⟨hbelow, hdown⟩ := List.pairwise_cons.mp hdown
    obtain ⟨hlowest, hdescending⟩ := ih hdown
    constructor
    · intro group' hgroup' uids hread
      rcases List.mem_cons.mp hgroup' with rfl | hlater
      · rw [((hgroup.1 uids).mp hread).2]
        exact hgroup.2
      · exact hlowest group' hlater uids hread
    · apply List.pairwise_cons.mpr
      refine ⟨fun group' hgroup' uids uids' hread hread' => ?_, hdescending⟩
      obtain ⟨set', hset', hspells'⟩ := set_of_group hrest hgroup'
      rw [((hgroup.1 uids).mp hread).2, ((hspells'.1 uids').mp hread').2]
      exact hbelow set' hset'

end Names

/-! ## Listed UIDs -/

section Listed

variable {start stop limit : Nat} {rest uids : List Nat}

theorem runSpans_spec (hrun : start ≤ stop) (hsorted : (stop :: rest).Pairwise (· < ·))
    (hsmall : ∀ uid ∈ stop :: rest, uid < 2 ^ 32) :
    ∃ spans, runSpans start stop rest = some spans ∧ uidsOf spans = Span.members (start, stop) ++ rest ∧
      spans ≠ [] ∧ ∀ s ∈ spans, s.1 ≤ s.2 ∧ s.2 < 2 ^ 32 := by
  induction rest generalizing start stop with
  | nil =>
    refine ⟨[(start, stop)], rfl, by simp [uidsOf], List.cons_ne_nil _ _, ?_⟩
    intro s hs
    obtain rfl := List.mem_singleton.mp hs
    exact ⟨hrun, hsmall _ List.mem_cons_self⟩
  | cons uid rest ih =>
    obtain ⟨hstop, hrest⟩ := List.forall_mem_cons.mp hsmall
    obtain ⟨habove, hsorted⟩ := List.pairwise_cons.mp hsorted
    have hlt := habove uid List.mem_cons_self
    have huid := hrest uid List.mem_cons_self
    have hnext : add32 stop 1 = some (stop + 1) := if_pos (by omega)
    rw [runSpans, hnext]
    show ∃ spans, (if uid = stop + 1 then runSpans start uid rest
      else (runSpans uid uid rest).bind fun spans => some ((start, stop) :: spans)) = some spans ∧ _
    by_cases hadjacent : uid = stop + 1
    · obtain ⟨spans, hspans, huids, hne, hvalid⟩ := @ih start uid (by omega) hsorted hrest
      rw [if_pos hadjacent]
      refine ⟨spans, hspans, ?_, hne, hvalid⟩
      have hone : Span.members (start, uid) = Span.members (start, stop) ++ [uid] := by
        rw [← Span.members_single uid, hadjacent]
        exact (Span.members_append (by omega) (by omega)).symm
      rw [huids, hone, List.append_assoc]
      rfl
    · obtain ⟨spans, hspans, huids, hne, hvalid⟩ := ih (Nat.le_refl uid) hsorted hrest
      rw [if_neg hadjacent, hspans]
      refine ⟨(start, stop) :: spans, rfl, ?_, List.cons_ne_nil _ _, ?_⟩
      · show Span.members (start, stop) ++ uidsOf spans = _
        rw [huids, Span.members_single]
        rfl
      · exact List.forall_mem_cons.mpr ⟨⟨hrun, hstop⟩, hvalid⟩

theorem uidSetText_spec (hsorted : uids.Pairwise (· < ·)) (hsmall : ∀ uid ∈ uids, uid < 2 ^ 32) :
    ∃ text spans, uidSetText uids = some text ∧ uidsOf spans = uids ∧ (∀ s ∈ spans, s.1 ≤ s.2) ∧
      (uids = [] → text = []) ∧ (uids ≠ [] → Spells text spans) := by
  cases uids with
  | nil => exact ⟨[], [], rfl, rfl, fun s hs => (nomatch hs), fun _ => rfl, fun h => absurd rfl h⟩
  | cons uid rest =>
    obtain ⟨spans, hspans, huids, hne, hvalid⟩ := runSpans_spec (Nat.le_refl uid) hsorted hsmall
    refine ⟨_, spans, ?_, ?_, fun s hs => (hvalid s hs).1, fun h => (nomatch h), fun _ => spells_parts hne hvalid⟩
    · show (runSpans uid uid rest).map _ = _
      rw [hspans]
      rfl
    · rw [huids, Span.members_single]
      rfl

theorem texts_of_parts {parts : List (List Nat)}
    (h : ∀ part ∈ parts, part ≠ [] ∧ part.Pairwise (· < ·) ∧ ∀ uid ∈ part, uid < 2 ^ 32) :
    ∃ groups sets, parts.mapM uidSetText = some (groups.map Prod.fst) ∧
      (parts.mapM fun part => (uidSetText part).map fun text => (text, part.headD 0)) = some groups ∧
      List.Forall₂ SpellsFrom groups sets ∧ sets.map uidsOf = parts ∧ ∀ set ∈ sets, ∀ s ∈ set, s.1 ≤ s.2 := by
  induction parts with
  | nil => exact ⟨[], [], rfl, rfl, .nil, rfl, fun set hset => nomatch hset⟩
  | cons part parts ih =>
    obtain ⟨⟨hne, hsorted, hsmall⟩, hparts⟩ := List.forall_mem_cons.mp h
    obtain ⟨groups, sets, htexts, hgroups, hspells, huids, hspans⟩ := ih hparts
    obtain ⟨text, spans, htext, hset, hvalid, -, hreads⟩ := uidSetText_spec hsorted hsmall
    refine ⟨(text, part.headD 0) :: groups, spans :: sets, ?_, ?_, .cons ⟨hreads hne, ?_⟩ hspells, ?_, ?_⟩
    · rw [List.mapM_cons, htext, htexts]
      rfl
    · rw [List.mapM_cons, htext, hgroups]
      rfl
    · rw [hset]
      cases part with
      | nil => exact absurd rfl hne
      | cons first part =>
        refine ⟨List.mem_cons_self, fun uid huid => ?_⟩
        rcases List.mem_cons.mp huid with rfl | hlater
        · exact Nat.le_refl _
        · exact Nat.le_of_lt ((List.pairwise_cons.mp hsorted).1 uid hlater)
    · rw [List.map_cons, hset, huids]
    · intro set hmem
      rcases List.mem_cons.mp hmem with rfl | hlater
      · exact hvalid
      · exact hspans set hlater

theorem listedSetTexts_names (hsorted : uids.Pairwise (· < ·)) (hsmall : ∀ uid ∈ uids, uid < 2 ^ 32) :
    (∃ texts, listedSetTexts uids limit = some texts ∧ NamesOnce uids limit texts) ↔ ∀ uid ∈ uids, 0 < uid := by
  by_cases hempty : uids = []
  · subst hempty
    exact iff_of_true ⟨[], rfl, [], .nil, .refl _, fun _ _ huids => (nomatch huids)⟩ (fun uid huid => nomatch huid)
  · have hpos : 0 < if limit = 0 then uids.length else limit := by
      have hlength := List.length_pos_iff.mpr hempty
      split <;> omega
    have hparts : ∀ part ∈ chunks (if limit = 0 then uids.length else limit) uids, part ≠ [] ∧ part.Pairwise (· < ·) ∧
        ∀ uid ∈ part, uid < 2 ^ 32 := by
      intro part hpart
      have hsub := sublist_of_mem_chunks hpos hpart
      exact ⟨ne_nil_of_mem_chunks hpos hpart, hsorted.sublist hsub, fun uid huid => hsmall uid (hsub.subset huid)⟩
    obtain ⟨groups, sets, htexts, -, hspells, huids, hspans⟩ := texts_of_parts hparts
    have hreads : List.Forall₂ Spells (groups.map Prod.fst) sets := by
      rw [List.forall₂_map_left_iff]
      exact hspells.imp fun _ _ h => h.1
    have hflat : sets.flatMap uidsOf = uids := by rw [List.flatMap_def, huids, flatten_chunks hpos]
    have hnames : NamesOnce uids limit (groups.map Prod.fst) ↔ ∀ uid ∈ uids, 0 < uid := by
      apply namesOnce_iff hreads hspans
      · rw [hflat]
      · intro hlimit set hset
        have hpart : uidsOf set ∈ chunks (if limit = 0 then uids.length else limit) uids := by
          rw [← huids]
          exact List.mem_map_of_mem hset
        have hle := length_le_of_mem_chunks hpart
        rwa [if_neg hlimit] at hle
    have hwritten : listedSetTexts uids limit = some (groups.map Prod.fst) := by
      unfold listedSetTexts
      rw [if_neg hempty, htexts]
    rw [hwritten]
    exact ⟨fun ⟨texts, hsome, hread⟩ => hnames.mp (Option.some.inj hsome ▸ hread), fun h => ⟨_, rfl, hnames.mpr h⟩⟩

theorem ascending_eq_reverse {uids : List Nat} (h : uids.Pairwise (· > ·)) : ascending uids = uids.reverse := by
  have hsorted : (ascending uids).Pairwise (· ≤ ·) := List.pairwise_insertionSort _ _
  have hreverse : uids.reverse.Pairwise (· ≤ ·) := by
    rw [List.pairwise_reverse]
    exact h.imp fun hlt => Nat.le_of_lt hlt
  exact List.Perm.eq_of_pairwise' hsorted hreverse ((List.perm_insertionSort _ _).trans (List.reverse_perm _).symm)

theorem listTexts_names (hsorted : uids.Pairwise (· < ·)) (hsmall : ∀ uid ∈ uids, uid < 2 ^ 32) :
    (∃ groups, listTexts uids.reverse limit = some groups ∧ NamesOnce uids limit (groups.map Prod.fst) ∧
      Grouped groups) ↔ ∀ uid ∈ uids, 0 < uid := by
  have hpos : 0 < if limit = 0 then max uids.reverse.length 1 else limit := by split <;> omega
  have hdown : uids.reverse.Pairwise (· > ·) := List.pairwise_reverse.mpr hsorted
  generalize hchunks : chunks (if limit = 0 then max uids.reverse.length 1 else limit) uids.reverse = parts
  have hflat : parts.flatten = uids.reverse := by rw [← hchunks, flatten_chunks hpos]
  rw [← hflat] at hdown
  obtain ⟨hparts, hacross⟩ := List.pairwise_flatten.mp hdown
  have hascending : parts.map ascending = parts.map List.reverse :=
    List.map_congr_left fun part hpart => ascending_eq_reverse (hparts part hpart)
  have hmem : ∀ part ∈ parts, ∀ uid ∈ part, uid ∈ uids := by
    intro part hpart uid huid
    rw [← List.mem_reverse, ← hflat]
    exact List.mem_flatten_of_mem hpart huid
  have hvalid : ∀ part ∈ parts.map ascending, part ≠ [] ∧ part.Pairwise (· < ·) ∧ ∀ uid ∈ part, uid < 2 ^ 32 := by
    rw [hascending]
    intro part hpart
    obtain ⟨chunk, hchunk, rfl⟩ := List.mem_map.mp hpart
    refine ⟨?_, List.pairwise_reverse.mpr (hparts chunk hchunk), fun uid huid => ?_⟩
    · rw [ne_eq, List.reverse_eq_nil_iff]
      exact ne_nil_of_mem_chunks hpos (hchunks ▸ hchunk)
    · exact hsmall uid (hmem chunk hchunk uid (List.mem_reverse.mp huid))
  obtain ⟨groups, sets, -, hgroups, hspells, huids, hspans⟩ := texts_of_parts hvalid
  have hreads : List.Forall₂ Spells (groups.map Prod.fst) sets := by
    rw [List.forall₂_map_left_iff]
    exact hspells.imp fun _ _ h => h.1
  have hperm : (sets.flatMap uidsOf).Perm uids := by
    rw [List.flatMap_def, huids]
    have hparts' : (parts.map ascending).flatten.Perm parts.flatten := by
      rw [← List.flatMap_def]
      have hid : parts.flatten = parts.flatMap id := by rw [List.flatMap_id]
      rw [hid]
      exact List.Perm.flatMap_left parts fun part _ => List.perm_insertionSort _ _
    rw [hflat] at hparts'
    exact hparts'.trans (List.reverse_perm uids)
  have hlength : limit ≠ 0 → ∀ set ∈ sets, (uidsOf set).length ≤ limit := by
    intro hlimit set hset
    have hpart : uidsOf set ∈ parts.map ascending := by
      rw [← huids]
      exact List.mem_map_of_mem hset
    obtain ⟨chunk, hchunk, he⟩ := List.mem_map.mp hpart
    have hle := length_le_of_mem_chunks (hchunks ▸ hchunk)
    rw [if_neg hlimit] at hle
    rw [← he, ascending, List.length_insertionSort]
    exact hle
  have hgrouped : Grouped groups := by
    apply grouped_of hspells
    have hsets : (sets.map uidsOf).Pairwise fun part part' => ∀ uid ∈ part, ∀ uid' ∈ part', uid' < uid := by
      rw [huids, hascending, List.pairwise_map]
      refine hacross.imp fun hbelow uid huid uid' huid' => ?_
      exact hbelow uid (List.mem_reverse.mp huid) uid' (List.mem_reverse.mp huid')
    exact List.pairwise_map.mp hsets
  have hwritten : listTexts uids.reverse limit = some groups := by
    unfold listTexts
    rw [hchunks, ← hgroups, List.mapM_map]
    rfl
  have hnames := namesOnce_iff hreads hspans hperm hlength
  rw [hwritten]
  constructor
  · rintro ⟨groups', hsome, hread, -⟩
    obtain rfl := Option.some.inj hsome
    exact hnames.mp hread
  · exact fun h => ⟨groups, rfl, hnames.mpr h, hgrouped⟩

end Listed

section Ranges

variable {low high limit step windowHigh : Nat}

theorem rangeStep_pos (h : low < high) : 0 < rangeStep low high limit := by
  unfold rangeStep
  split <;> omega

theorem add32_eq_some {a b c : Nat} : add32 a b = some c ↔ a + b < 2 ^ 32 ∧ c = a + b := by
  unfold add32
  by_cases h : a + b < 2 ^ 32
  · rw [if_pos h]
    exact ⟨fun he => ⟨h, (Option.some.inj he).symm⟩, fun he => congrArg some he.2.symm⟩
  · rw [if_neg h]
    exact ⟨fun he => (nomatch he), fun he => absurd he.1 h⟩

/-- Where the last range would end if nothing cut it off. -/
def rangesPast (low high limit : Nat) : Nat :=
  low + Span.countUp low high (rangeStep low high limit) * rangeStep low high limit

/-- The ranges are written unless the end of the last of them passes 32 bits. -/
theorem rangeSetTexts_eq_some (h : low < high) {texts : List (List Char)} :
    rangeSetTexts low high limit = some texts ↔ rangesPast low high limit < 2 ^ 32 ∧
      texts = (List.range' low (Span.countUp low high (rangeStep low high limit)) (rangeStep low high limit)).map
        fun start => rangeText (Span.upTo high (rangeStep low high limit) start) := by
  have hpos := @rangeStep_pos low high limit h
  unfold rangeSetTexts rangesPast
  rw [if_neg (Nat.not_le_of_lt h)]
  dsimp only
  generalize rangeStep low high limit = step at *
  rw [Fallible.mapM_some_iff]
  obtain ⟨hstarts, hreach⟩ := @Span.countUp_spec low high step hpos
  generalize Span.countUp low high step = count at *
  have hone : ∀ start text, ((add32 start step).bind fun past => some (rangeText (start, min (past - 1) (high - 1)))) =
      some text ↔ start + step < 2 ^ 32 ∧ text = rangeText (Span.upTo high step start) := by
    intro start text
    rw [Option.bind_eq_some_iff]
    constructor
    · rintro ⟨past, hpast, htext⟩
      obtain ⟨hfits, rfl⟩ := add32_eq_some.mp hpast
      exact ⟨hfits, (Option.some.inj htext).symm⟩
    · rintro ⟨hfits, rfl⟩
      exact ⟨_, add32_eq_some.mpr ⟨hfits, rfl⟩, rfl⟩
  have hall : List.Forall₂ (fun start text => ((add32 start step).bind fun past =>
      some (rangeText (start, min (past - 1) (high - 1)))) = some text) (List.range' low count step) texts ↔
      (∀ start ∈ List.range' low count step, start + step < 2 ^ 32) ∧
        texts = (List.range' low count step).map fun start => rangeText (Span.upTo high step start) := by
    simp only [hone]
    generalize List.range' low count step = starts
    induction starts generalizing texts with
    | nil => simp
    | cons start starts ih =>
      cases texts with
      | nil => simp
      | cons text texts =>
        rw [List.forall₂_cons, ih, List.map_cons, List.cons.injEq, List.forall_mem_cons]
        tauto
  refine hall.trans (and_congr_left fun _ => ?_)
  have hcount : 0 < count := by
    apply Nat.pos_of_ne_zero
    rintro rfl
    omega
  constructor
  · intro hfits
    have hlast : low + step * (count - 1) ∈ List.range' low count step := List.mem_range'.mpr ⟨count - 1, by omega, rfl⟩
    have hmul : count * step = step * (count - 1) + step := by
      rw [Nat.mul_comm, ← Nat.mul_succ]
      congr 1
      omega
    have hlt := hfits _ hlast
    omega
  · intro hfits start hstart
    obtain ⟨i, hi, rfl⟩ := List.mem_range'.mp hstart
    have hle : (i + 1) * step ≤ count * step := Nat.mul_le_mul_right _ hi
    rw [Nat.succ_mul, Nat.mul_comm] at hle
    omega

theorem namesOnce_empty (limit : Nat) : NamesOnce [] limit [] := ⟨[], .nil, .refl _, fun _ _ huids => (nomatch huids)⟩

theorem range'_pos {count : Nat} (h : 0 < count) : (∀ uid ∈ List.range' low count, 0 < uid) ↔ 0 < low := by
  constructor
  · intro hall
    exact hall low (List.mem_range'_1.mpr (by omega))
  · intro hlow uid huid
    have hbounds := List.mem_range'_1.mp huid
    omega

theorem rangeSetTexts_names (h : low < high) (hhigh : high < 2 ^ 32) :
    (∃ texts, rangeSetTexts low high limit = some texts ∧ NamesOnce (List.range' low (high - low)) limit texts) ↔
      rangesPast low high limit < 2 ^ 32 ∧ 0 < low := by
  have hpos := @rangeStep_pos low high limit h
  have hstep : limit ≠ 0 → rangeStep low high limit ≤ limit ∨ rangeStep low high limit < 2 ^ 32 ∧ 2 ^ 32 ≤ limit := by
    intro hlimit
    unfold rangeStep
    split <;> omega
  have hnames : ∀ texts, rangeSetTexts low high limit = some texts →
      (NamesOnce (List.range' low (high - low)) limit texts ↔ 0 < low) := by
    intro texts htexts
    obtain ⟨-, rfl⟩ := (rangeSetTexts_eq_some h).mp htexts
    generalize rangeStep low high limit = step at *
    obtain ⟨hstarts, hreach⟩ := @Span.countUp_spec low high step hpos
    generalize Span.countUp low high step = count at *
    have hbelow : ∀ start ∈ List.range' low count step, start < high := by
      intro start hstart
      obtain ⟨i, hi, rfl⟩ := List.mem_range'.mp hstart
      rw [Nat.mul_comm]
      exact hstarts i hi
    have hspan : ∀ start ∈ List.range' low count step, (Span.upTo high step start).1 ≤ (Span.upTo high step start).2 ∧
        (Span.upTo high step start).2 < 2 ^ 32 := by
      intro start hstart
      have hlt := hbelow start hstart
      show start ≤ min (start + step - 1) (high - 1) ∧ min (start + step - 1) (high - 1) < 2 ^ 32
      omega
    have hspells : List.Forall₂ Spells
        ((List.range' low count step).map fun start => rangeText (Span.upTo high step start))
        ((List.range' low count step).map fun start => [Span.upTo high step start]) := by
      rw [List.forall₂_map_left_iff, List.forall₂_map_right_iff, List.forall₂_same]
      exact fun start hstart => spells_rangeText (hspan start hstart).1 (hspan start hstart).2
    have hperm : (((List.range' low count step).map fun start => [Span.upTo high step start]).flatMap uidsOf).Perm
        (List.range' low (high - low)) := by
      have hall := @Span.flatMap_upTo low high step count hpos (by omega) hreach
      rw [List.flatMap_map]
      simp only [uidsOf, List.flatMap_cons, List.flatMap_nil, List.append_nil]
      rw [hall]
    refine (namesOnce_iff hspells ?_ hperm ?_).trans (range'_pos (by omega))
    · intro set hset s hs
      obtain ⟨start, hstart, rfl⟩ := List.mem_map.mp hset
      obtain rfl := List.mem_singleton.mp hs
      exact (hspan start hstart).1
    · intro hlimit set hset
      obtain ⟨start, hstart, rfl⟩ := List.mem_map.mp hset
      have hlt := hbelow start hstart
      have hwidth := hstep hlimit
      simp only [uidsOf, List.flatMap_cons, List.flatMap_nil, List.append_nil, Span.length_members]
      show min (start + step - 1) (high - 1) + 1 - start ≤ limit
      omega
  constructor
  · rintro ⟨texts, htexts, hread⟩
    exact ⟨((rangeSetTexts_eq_some h).mp htexts).1, (hnames texts htexts).mp hread⟩
  · rintro ⟨hpast, hlow⟩
    have htexts := (rangeSetTexts_eq_some h).mpr ⟨hpast, rfl⟩
    exact ⟨_, htexts, (hnames _ htexts).mpr hlow⟩

/-- Every range is a part of what is left of the mailbox, no wider than the step, and the next is below it. -/
theorem rangesBelow_spec {lowFloor : Nat} (hstep : 0 < step) (hlow : lowFloor ≤ windowHigh) :
    (∀ s ∈ rangesBelow lowFloor step windowHigh, lowFloor ≤ s.1 ∧ s.1 ≤ s.2 ∧ s.2 ≤ windowHigh ∧ s.2 + 1 - s.1 ≤ step) ∧
      ((rangesBelow lowFloor step windowHigh).flatMap Span.members).Perm
        (List.range' lowFloor (windowHigh + 1 - lowFloor)) ∧
      (rangesBelow lowFloor step windowHigh).Pairwise fun s s' => s'.2 < s.1 := by
  fun_induction rangesBelow lowFloor step windowHigh with
  | case1 windowHigh windowLow hend =>
    have hlast : windowHigh + 1 - windowLow ≤ step := by omega
    refine ⟨?_, ?_, List.pairwise_singleton _ _⟩
    · intro s hs
      obtain rfl := List.mem_singleton.mp hs
      exact ⟨by omega, by omega, Nat.le_refl _, hlast⟩
    · rw [hend]
      show (List.range' lowFloor (windowHigh + 1 - lowFloor) ++ []).Perm _
      rw [List.append_nil]
  | case2 windowHigh windowLow hend ih =>
    obtain ⟨hspans, hperm, hdown⟩ := ih (by omega)
    have hlower : windowLow = windowHigh - (step - 1) := by omega
    refine ⟨?_, ?_, ?_⟩
    · intro s hs
      rcases List.mem_cons.mp hs with rfl | hs
      · show lowFloor ≤ windowLow ∧ windowLow ≤ windowHigh ∧ windowHigh ≤ windowHigh ∧ windowHigh + 1 - windowLow ≤ step
        omega
      · have hbounds := hspans s hs
        exact ⟨hbounds.1, hbounds.2.1, by omega, hbounds.2.2.2⟩
    · have hsplit : Span.members (lowFloor, windowLow - 1) ++ Span.members (windowLow - 1 + 1, windowHigh) =
          Span.members (lowFloor, windowHigh) := Span.members_append (by omega) (by omega)
      have hnext : windowLow - 1 + 1 = windowLow := by omega
      rw [hnext] at hsplit
      rw [List.flatMap_cons]
      show (Span.members (windowLow, windowHigh) ++ _).Perm (Span.members (lowFloor, windowHigh))
      rw [← hsplit]
      exact List.perm_append_comm.trans (hperm.append_right _)
    · apply List.pairwise_cons.mpr
      refine ⟨fun s hs => ?_, hdown⟩
      have hbounds := hspans s hs
      show s.2 < windowLow
      omega

theorem fullRangeTexts_names {lowFloor : Nat} (h : lowFloor ≤ high) (hhigh : high < 2 ^ 32) :
    (∃ groups, fullRangeTexts high lowFloor limit = some groups ∧
        NamesOnce (List.range' lowFloor (high + 1 - lowFloor)) limit (groups.map Prod.fst) ∧ Grouped groups) ↔
      0 < lowFloor := by
  have hgroups : ∀ step, 0 < step → (limit ≠ 0 → step ≤ limit) →
      ((NamesOnce (List.range' lowFloor (high + 1 - lowFloor)) limit
        (((rangesBelow lowFloor step high).map fun s => (rangeText s, s.1)).map Prod.fst) ∧
        Grouped ((rangesBelow lowFloor step high).map fun s => (rangeText s, s.1))) ↔ 0 < lowFloor) := by
    intro step hstep hlimit
    obtain ⟨hspans, hperm, hdown⟩ := rangesBelow_spec hstep h
    have hspells : ∀ s ∈ rangesBelow lowFloor step high, Spells (rangeText s) [s] := by
      intro s hs
      have hbounds := hspans s hs
      exact spells_rangeText hbounds.2.1 (by omega)
    have huids : ∀ s : Span, uidsOf [s] = s.members := fun s => by simp [uidsOf]
    have hnames := @namesOnce_iff (List.range' lowFloor (high + 1 - lowFloor)) limit
      ((rangesBelow lowFloor step high).map rangeText) ((rangesBelow lowFloor step high).map fun s => [s])
      (by
        rw [List.forall₂_map_left_iff, List.forall₂_map_right_iff, List.forall₂_same]
        exact hspells)
      (by
        intro set hset s hs
        obtain ⟨s', hs', rfl⟩ := List.mem_map.mp hset
        obtain rfl := List.mem_singleton.mp hs
        exact (hspans s hs').2.1)
      (by
        rw [List.flatMap_map]
        simp only [huids]
        exact hperm)
      (by
        intro hlimited set hset
        obtain ⟨s, hs, rfl⟩ := List.mem_map.mp hset
        have hbounds := hspans s hs
        have hwidth := hlimit hlimited
        rw [huids, Span.length_members]
        omega)
    have hgrouped : Grouped ((rangesBelow lowFloor step high).map fun s => (rangeText s, s.1)) := by
      apply @grouped_of ((rangesBelow lowFloor step high).map fun s => [s])
      · rw [List.forall₂_map_left_iff, List.forall₂_map_right_iff, List.forall₂_same]
        intro s hs
        have hbounds := hspans s hs
        refine ⟨hspells s hs, ?_, fun uid huid => ?_⟩
        · rw [huids]
          exact Span.mem_members.mpr ⟨Nat.le_refl _, hbounds.2.1⟩
        · rw [huids] at huid
          exact (Span.mem_members.mp huid).1
      · rw [List.pairwise_map]
        refine hdown.imp fun hbelow uid huid uid' huid' => ?_
        rw [huids] at huid huid'
        have hu := Span.mem_members.mp huid
        have hu' := Span.mem_members.mp huid'
        omega
    have hfst : ((rangesBelow lowFloor step high).map fun s => (rangeText s, s.1)).map Prod.fst =
        (rangesBelow lowFloor step high).map rangeText := by
      rw [List.map_map]
      rfl
    rw [hfst]
    exact (and_iff_left hgrouped).trans (hnames.trans (range'_pos (by omega)))
  unfold fullRangeTexts
  rw [if_neg (Nat.not_lt_of_le h)]
  by_cases hzero : limit = 0
  · subst hzero
    rw [if_pos rfl]
    constructor
    · rintro ⟨groups, hsome, hread⟩
      obtain ⟨step, hstep, hsome⟩ := Option.bind_eq_some_iff.mp hsome
      obtain ⟨-, rfl⟩ := add32_eq_some.mp hstep
      obtain rfl := Option.some.inj hsome
      exact (hgroups _ (Nat.succ_pos _) (fun h => absurd rfl h)).mp hread
    · intro hpos
      refine ⟨_, ?_, (hgroups (high - lowFloor + 1) (Nat.succ_pos _) (fun h => absurd rfl h)).mpr hpos⟩
      rw [add32_eq_some.mpr ⟨by omega, rfl⟩]
      rfl
  · rw [if_neg hzero]
    have hread := hgroups (min limit (2 ^ 32 - 1)) (by omega) (fun _ => by omega)
    constructor
    · rintro ⟨groups, hsome, hnames⟩
      obtain rfl := Option.some.inj hsome
      exact hread.mp hnames
    · exact fun hpos => ⟨_, rfl, hread.mpr hpos⟩

end Ranges

/-! ## Spans of the whole mailbox -/

section Spans

variable {width uidNext low limit : Nat}

theorem spansUp_spec (hwidth : 0 < width) :
    (∀ s ∈ spansUp width uidNext low, low ≤ s.1 ∧ s.1 ≤ s.2 ∧ s.2 < uidNext ∧ s.2 + 1 - s.1 ≤ width) ∧
      (spansUp width uidNext low).flatMap Span.members = List.range' low (uidNext - low) := by
  fun_induction spansUp width uidNext low with
  | case1 low hlow high ih =>
    obtain ⟨hspans, hflat⟩ := ih
    constructor
    · intro s hs
      rcases List.mem_cons.mp hs with rfl | hs
      · show low ≤ low ∧ low ≤ high ∧ high < uidNext ∧ high + 1 - low ≤ width
        omega
      · have hbounds := hspans s hs
        exact ⟨by omega, hbounds.2⟩
    · have hcount : uidNext - low = (high + 1 - low) + (uidNext - (high + 1)) := by omega
      have hnext : high + 1 = low + (high + 1 - low) := by omega
      rw [List.flatMap_cons, hflat, hcount, ← List.range'_append_1, ← hnext]
      rfl
  | case2 low hlow =>
    have hnone : uidNext - low = 0 := by omega
    rw [hnone]
    exact ⟨fun s hs => (nomatch hs), rfl⟩

theorem uidSpanTexts_names (hnext : uidNext < 2 ^ 32) :
    NamesOnce (List.range' 1 (uidNext - 1)) limit (uidSpanTexts uidNext limit) := by
  obtain ⟨hspans, hflat⟩ := @spansUp_spec (max (if limit < 2 ^ 32 then limit else 2 ^ 32 - 1) 1) uidNext 1 (by omega)
  have hwidth : limit ≠ 0 → max (if limit < 2 ^ 32 then limit else 2 ^ 32 - 1) 1 ≤ limit := by
    intro hlimit
    split <;> omega
  unfold uidSpanTexts
  generalize max (if limit < 2 ^ 32 then limit else 2 ^ 32 - 1) 1 = width at *
  have huids : ∀ s : Span, uidsOf [s] = s.members := fun s => by simp [uidsOf]
  have hspells : List.Forall₂ Spells ((spansUp width uidNext 1).map rangeText) ((spansUp width uidNext 1).map fun s => [s]) := by
    rw [List.forall₂_map_left_iff, List.forall₂_map_right_iff, List.forall₂_same]
    intro s hs
    have hbounds := hspans s hs
    exact spells_rangeText hbounds.2.1 (by omega)
  apply (namesOnce_iff hspells ?_ ?_ ?_).mpr
  · intro uid huid
    have hbounds := List.mem_range'_1.mp huid
    omega
  · intro set hset s hs
    obtain ⟨s', hs', rfl⟩ := List.mem_map.mp hset
    obtain rfl := List.mem_singleton.mp hs
    exact (hspans s hs').2.1
  · rw [List.flatMap_map]
    simp only [huids]
    rw [hflat]
  · intro hlimit set hset
    obtain ⟨s, hs, rfl⟩ := List.mem_map.mp hset
    have hbounds := hspans s hs
    have hle := hwidth hlimit
    rw [huids, Span.length_members]
    omega

end Spans

/-! ## Every set -/

/-- The sets of a mailbox from `low` to `high` and of a list of its UIDs name what they are for, and no sum passes
32 bits. -/
structure SetsRight (low high limit : Nat) (uids : List Nat) : Prop where
  range : ∃ texts, rangeSetTexts low high limit = some texts ∧ NamesOnce (List.range' low (high - low)) limit texts
  listed : ∃ texts, listedSetTexts uids limit = some texts ∧ NamesOnce uids limit texts
  fullRange : ∃ groups, fullRangeTexts high low limit = some groups ∧
    NamesOnce (List.range' low (high + 1 - low)) limit (groups.map Prod.fst) ∧ Grouped groups
  list : ∃ groups, listTexts uids.reverse limit = some groups ∧ NamesOnce uids limit (groups.map Prod.fst) ∧ Grouped groups
  spec : ∃ text, uidSetText uids = some text ∧ (uids = [] → text = []) ∧ (uids ≠ [] → NamesOnce uids 0 [text])
  spans : NamesOnce (List.range' 1 (high - 1)) limit (uidSpanTexts high limit)

/-- The bounds for which they do: none is zero, and the last range does not pass 32 bits before it is cut off. -/
structure SetsFit (low high limit : Nat) (uids : List Nat) : Prop where
  low_pos : low ≤ high → 0 < low
  past : low < high → rangesPast low high limit < 2 ^ 32
  uids_pos : ∀ uid ∈ uids, 0 < uid

section Every

variable {low high limit : Nat} {uids : List Nat}

theorem uidSetText_names (hsorted : uids.Pairwise (· < ·)) (hsmall : ∀ uid ∈ uids, uid < 2 ^ 32) :
    (∃ text, uidSetText uids = some text ∧ (uids = [] → text = []) ∧ (uids ≠ [] → NamesOnce uids 0 [text])) ↔
      ∀ uid ∈ uids, 0 < uid := by
  obtain ⟨text, spans, htext, hset, hspans, hnil, hreads⟩ := uidSetText_spec hsorted hsmall
  rw [htext]
  by_cases hempty : uids = []
  · subst hempty
    exact iff_of_true ⟨text, rfl, fun _ => hnil rfl, fun hne => absurd rfl hne⟩ (fun uid huid => nomatch huid)
  · have hperm : ([spans].flatMap uidsOf).Perm uids := by
      rw [List.flatMap_cons, List.flatMap_nil, List.append_nil, hset]
    have hnames : NamesOnce uids 0 [text] ↔ ∀ uid ∈ uids, 0 < uid := by
      apply namesOnce_iff (.cons (hreads hempty) .nil) _ hperm (fun hzero => absurd rfl hzero)
      intro set hmem
      obtain rfl := List.mem_singleton.mp hmem
      exact hspans
    constructor
    · rintro ⟨text', hsome, -, hread⟩
      obtain rfl := Option.some.inj hsome
      exact hnames.mp (hread hempty)
    · exact fun h => ⟨text, rfl, fun hnone => absurd hnone hempty, fun _ => hnames.mpr h⟩

theorem uidSets_right_iff (hhigh : high < 2 ^ 32) (hsorted : uids.Pairwise (· < ·))
    (hsmall : ∀ uid ∈ uids, uid < 2 ^ 32) : SetsRight low high limit uids ↔ SetsFit low high limit uids := by
  constructor
  · intro h
    refine ⟨fun hle => (fullRangeTexts_names hle hhigh).mp h.fullRange, fun hlt => ?_,
      (listedSetTexts_names hsorted hsmall).mp h.listed⟩
    exact ((rangeSetTexts_names hlt hhigh).mp h.range).1
  · intro h
    refine ⟨?_, (listedSetTexts_names hsorted hsmall).mpr h.uids_pos, ?_, (listTexts_names hsorted hsmall).mpr h.uids_pos,
      (uidSetText_names hsorted hsmall).mpr h.uids_pos, uidSpanTexts_names hhigh⟩
    · by_cases hlt : low < high
      · exact (rangeSetTexts_names hlt hhigh).mpr ⟨h.past hlt, h.low_pos (Nat.le_of_lt hlt)⟩
      · have hnone : high - low = 0 := by omega
        refine ⟨[], ?_, ?_⟩
        · unfold rangeSetTexts
          rw [if_pos (Nat.le_of_not_lt hlt)]
        · rw [hnone]
          exact namesOnce_empty limit
    · by_cases hle : low ≤ high
      · exact (fullRangeTexts_names hle hhigh).mpr (h.low_pos hle)
      · have hnone : high + 1 - low = 0 := by omega
        refine ⟨[], ?_, ?_, fun group hgroup => (nomatch hgroup), .nil⟩
        · unfold fullRangeTexts
          rw [if_pos (Nat.lt_of_not_le hle)]
        · rw [hnone]
          exact namesOnce_empty limit

theorem uidSets_right_iff_seven : SetsRight 1 8 3 [2, 3, 7] ↔ SetsFit 1 8 3 [2, 3, 7] :=
  uidSets_right_iff (by decide) (by decide) (by decide)

/-- The last of the ranges up to the highest UID passes 32 bits. -/
theorem last_range_overflows : ¬SetsRight 1 (2 ^ 32 - 1) 1000 [] := by
  intro h
  have hpast := ((rangeSetTexts_names (by decide) (by decide)).mp h.range).1
  revert hpast
  decide

end Every

end Imap
end SyncEngine
