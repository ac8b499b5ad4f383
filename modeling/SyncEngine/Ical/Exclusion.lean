import SyncEngine.Ical.Revision

/-!
# A removed occurrence stays removed

Removing an occurrence writes an exclusion and takes out the override that names the occurrence exactly.  The reader
folds every other override of the series over the exclusions, by the wall clock alone: the occurrence is excluded from
what is read where no event left reads as an override at its wall clock.
-/

namespace SyncEngine
namespace Ical

open Fallible (bind_eq_ok)

/-! ## Where a line goes in -/

section Scanning

variable {doc : Document} {n : Nat} {s : Scan} {component : Text}

/-- The scan after `n` lines: what goes into an event goes in after a line. -/
structure Scan.Anchored (n : Nat) (s : Scan) : Prop where
  ended : ∀ v ∈ s.vevents, 0 < v.anchor
  started : ∀ v, s.current = some v → v.start < n ∧ (v.anchor = v.start ∨ 0 < v.anchor)

theorem Scan.Anchored.onBegin (h : s.Anchored n) : (s.onBegin n component).Anchored (n + 1) := by
  refine ⟨h.ended, ?_⟩
  intro v hv
  unfold Scan.onBegin at hv
  cases hcurrent : s.current with
  | none =>
    simp only [hcurrent] at hv
    split at hv
    · obtain rfl := Option.some.inj hv
      exact ⟨Nat.lt_succ_self n, .inl rfl⟩
    · exact nomatch hv
  | some u =>
    obtain ⟨hlt, hanchor⟩ := h.started u hcurrent
    simp only [hcurrent, Option.some.injEq] at hv
    subst hv
    split
    · exact ⟨Nat.lt_succ_of_lt hlt, .inr (by show 0 < n; omega)⟩
    · exact ⟨Nat.lt_succ_of_lt hlt, hanchor⟩

theorem Scan.Anchored.onEnd (h : s.Anchored n) : (s.onEnd n component).Anchored (n + 1) := by
  unfold Scan.onEnd
  dsimp only
  cases hcurrent : s.current with
  | none => exact ⟨h.ended, fun v hv => nomatch hv⟩
  | some u =>
    obtain ⟨hlt, hanchor⟩ := h.started u hcurrent
    dsimp only
    split
    · refine ⟨?_, fun v hv => nomatch hv⟩
      intro v hv
      rcases List.mem_append.mp hv with hv | hv
      · exact h.ended v hv
      · rw [List.mem_singleton.mp hv]
        show 0 < if u.anchor = u.start then n else u.anchor
        split
        · omega
        · omega
    · refine ⟨h.ended, ?_⟩
      intro v hv
      obtain rfl := Option.some.inj hv
      exact ⟨Nat.lt_succ_of_lt hlt, hanchor⟩

theorem Scan.Anchored.onProperty (h : s.Anchored n) : (s.onProperty n).Anchored (n + 1) := by
  unfold Scan.onProperty
  cases hcurrent : s.current with
  | none => exact ⟨h.ended, fun v hv => absurd (hcurrent.symm.trans hv) (by simp)⟩
  | some u =>
    obtain ⟨hlt, hanchor⟩ := h.started u hcurrent
    dsimp only
    split
    · refine ⟨h.ended, ?_⟩
      intro v hv
      obtain rfl := Option.some.inj hv
      exact ⟨Nat.lt_succ_of_lt hlt, hanchor⟩
    · refine ⟨h.ended, ?_⟩
      intro v hv
      obtain rfl := Option.some.inj (hcurrent.symm.trans hv)
      exact ⟨Nat.lt_succ_of_lt hlt, hanchor⟩

theorem scan_anchored {resource : Resource} (h : scan doc = .ok resource) : ∀ v ∈ resource.vevents, 0 < v.anchor := by
  have hrun : ∀ n, ((List.range n).foldl (Scan.step doc) Scan.start).Anchored n := by
    intro n
    induction n with
    | zero => exact ⟨fun v hv => absurd hv List.not_mem_nil, fun v hv => nomatch hv⟩
    | succ n ih =>
      rw [List.range_succ, List.foldl_append, List.foldl_cons, List.foldl_nil]
      unfold Scan.step
      dsimp only
      split
      · exact ih.onBegin
      · split
        · exact ih.onEnd
        · exact ih.onProperty
  unfold scan at h
  dsimp only at h
  split at h
  · exact nomatch h
  · obtain rfl := Except.ok.inj h
    exact (hrun doc.len).ended

end Scanning

/-! ## What is left -/

variable {ρ κ β : Type} {o : Outside ρ κ β} {text out : Text} {occurrence : CalendarDateTime} {stamp : UtcDateTime}

/-- The lines of a resource with the exclusion of an occurrence put in, and without the override that names the
occurrence exactly. -/
def leftLines (windowsToIana : Text → Option Text) (doc : Document) (resource : Resource) (master : Vevent)
    (occurrence : CalendarDateTime) : List ContentLine :=
  (List.range doc.len).flatMap fun i =>
    (if i = master.anchor then contentLines (doc.fold i (dateTimeLine "EXDATE".toList occurrence)) else []) ++
      if (resource.overrideFor windowsToIana doc occurrence).any (fun vevent => vevent.groups.contains i) then []
      else contentLines (doc.groupText i)

theorem dateTimeLine_fresh {term : Text} : Fresh (foldLine (dateTimeLine "EXDATE".toList occurrence) term) := by
  obtain ⟨rest, hline⟩ : ∃ rest, dateTimeLine "EXDATE".toList occurrence = 'E' :: rest := by
    cases occurrence with
    | date date => exact ⟨_, rfl⟩
    | floating at_ => exact ⟨_, rfl⟩
    | zoned at_ zone =>
      unfold dateTimeLine
      dsimp only
      split
      · exact ⟨_, rfl⟩
      · exact ⟨_, rfl⟩
  rw [hline]
  exact foldLine_fresh (by decide) (by decide)

theorem contentLines_exclude {resource : Resource} {master : Vevent} {edits : Edits} (hanchor : 0 < master.anchor)
    (h : exclude o (Document.parse text) master resource occurrence stamp Edits.empty = .ok edits) :
    (contentLines ((Document.parse text).render edits)).filter isOther =
      (leftLines o.windowsToIana (Document.parse text) resource master occurrence).filter isOther := by
  unfold exclude at h
  split at h
  · obtain ⟨start, -, h⟩ := bind_eq_ok.mp h
    obtain ⟨-, -, h⟩ := bind_eq_ok.mp h
    obtain rfl := Except.ok.inj h
    have hterm := terminator_isTerm text master.anchor
    have hinserted := (Edits.reads_empty text).spliceBefore hanchor
      (@foldLine_whole (dateTimeLine "EXDATE".toList occurrence) _ hterm) dateTimeLine_fresh
    have hremoved : (onSome (resource.overrideFor o.windowsToIana (Document.parse text) occurrence) removeComponent
        (insert (Document.parse text) master Edits.empty (dateTimeLine "EXDATE".toList occurrence))).Reads
        (Document.parse text)
        (Function.update (fun _ => []) master.anchor ((contentLines ((Document.parse text).fold master.anchor
          (dateTimeLine "EXDATE".toList occurrence))).filter isOther)) fun i =>
          if (resource.overrideFor o.windowsToIana (Document.parse text) occurrence).any
            (fun vevent => vevent.groups.contains i) then []
          else (contentLines ((Document.parse text).groupText i)).filter isOther := by
      cases resource.overrideFor o.windowsToIana (Document.parse text) occurrence with
      | none => exact hinserted
      | some vevent =>
        simp only [Option.any_some, List.contains_eq_mem, decide_eq_true_eq]
        exact hinserted.removeAll vevent.groups
    have hhidden : ∀ i, isNamed (Document.parse text) bookkeeping i = true →
        (if (resource.overrideFor o.windowsToIana (Document.parse text) occurrence).any
            (fun vevent => vevent.groups.contains i) then []
          else (contentLines ((Document.parse text).groupText i)).filter isOther) = [] := by
      intro i hi
      split
      · rfl
      · exact groupText_hidden hi
    rw [(hremoved.revise hhidden hanchor stamp true).contentLines_render]
    unfold leftLines
    rw [List.filter_flatMap]
    apply List.flatMap_congr
    intro i _
    rw [List.filter_append]
    congr 1
    · by_cases hi : i = master.anchor
      · rw [if_pos hi, hi, Function.update_self]
      · rw [if_neg hi, Function.update_of_ne hi]
        rfl
    · split
      · rfl
      · rfl
  · exact nomatch h

/-- A removed occurrence is excluded from what is read just where the lines that are left leave it out: the series has
an exclusion at its wall clock, and no other event reads as an override there. -/
theorem excludeOccurrenceIcal_excludes {event : Event}
    (hexclude : excludeOccurrenceIcal o text occurrence stamp = .ok out)
    (hread : parseCalendarObject o.windowsToIana out = .ok event) :
    event.Excludes (overrideKey occurrence event.start) ↔ ∃ resource master, scan (Document.parse text) = .ok resource ∧
        resource.master (Document.parse text) = .ok master ∧
        LeavesOut o.windowsToIana (leftLines o.windowsToIana (Document.parse text) resource master occurrence)
          occurrence := by
  obtain ⟨resource, hscan, hexclude⟩ := bind_eq_ok.mp hexclude
  obtain ⟨master, hmaster, hexclude⟩ := bind_eq_ok.mp hexclude
  obtain ⟨edits, hedits, hexclude⟩ := bind_eq_ok.mp hexclude
  obtain rfl := Except.ok.inj hexclude
  have hanchor := scan_anchored hscan master (Resource.master_mem hmaster)
  have hleaves : LeavesOut o.windowsToIana (contentLines ((Document.parse text).render edits)) occurrence ↔ _ :=
    leavesOut_congr (contentLines_exclude hanchor hedits)
  have hexcludes : event.Excludes (overrideKey occurrence event.start) ↔
      LeavesOut o.windowsToIana (contentLines ((Document.parse text).render edits)) occurrence :=
    parseCalendarObject_excludes hread
  rw [hexcludes, hleaves]
  constructor
  · exact fun h => ⟨resource, master, hscan, hmaster, h⟩
  · rintro ⟨resource', master', hscan', hmaster', h⟩
    rw [hscan] at hscan'
    obtain rfl := Except.ok.inj hscan'
    rw [hmaster] at hmaster'
    obtain rfl := Except.ok.inj hmaster'
    exact h

namespace Sample

/-- A weekly series, and the override of one occurrence. -/
def weekly (recurrenceId : Text) : Text :=
  line "BEGIN:VCALENDAR" ++ line "BEGIN:VEVENT" ++ line "UID:w" ++ line "DTSTART;TZID=Europe/Amsterdam:20260105T093000" ++
    line "RRULE:FREQ=WEEKLY" ++ line "SEQUENCE:3" ++ line "END:VEVENT" ++ line "BEGIN:VEVENT" ++ line "UID:w" ++
    recurrenceId ++ line "SUMMARY:Moved?" ++ line "END:VEVENT" ++ line "END:VCALENDAR"

def monday : CalendarDateTime := .zoned ⟨⟨2026, 1, 26⟩, 9, 30, 0⟩ (.iana "Europe/Amsterdam".toList)

/-- The override goes by the time of the occurrence. -/
def byTime : Text := weekly (line "RECURRENCE-ID;TZID=Europe/Amsterdam:20260126T093000")

/-- The override goes by the day of the occurrence alone. -/
def byDay : Text := weekly (line "RECURRENCE-ID;VALUE=DATE:20260126")

def removed (text : Text) : Except IcalError Text := excludeOccurrenceIcal outside text monday clearRule.stamp

def readBack (text : Text) : Except IcalError Event := do
  let out ← removed text
  parseCalendarObject outside.windowsToIana out

/-- How the override at the occurrence reads after it is removed. -/
def override (text : Text) : Option (Option RecurrenceOverride) :=
  match readBack text with
  | .ok event => some (event.recurrence.bind fun recurrence => recurrence.overrides.get? (overrideKey monday event.start))
  | .error _ => none

theorem readBack_ok {text : Text} {found : Option RecurrenceOverride} (h : override text = some found) :
    ∃ out event, removed text = .ok out ∧ parseCalendarObject outside.windowsToIana out = .ok event ∧
      event.recurrence.bind (fun recurrence => recurrence.overrides.get? (overrideKey monday event.start)) = found := by
  unfold override at h
  cases hread : readBack text with
  | error e =>
    rw [hread] at h
    exact nomatch h
  | ok event =>
    rw [hread] at h
    obtain ⟨out, hout, hevent⟩ := bind_eq_ok.mp hread
    exact ⟨out, event, hout, hevent, Option.some.inj h⟩

end Sample

open Sample in
theorem excludeOccurrenceIcal_excludes_byTime :
    ∃ out, removed byTime = .ok out ∧ ∃ resource master, scan (Document.parse byTime) = .ok resource ∧
      resource.master (Document.parse byTime) = .ok master ∧
      LeavesOut outside.windowsToIana (leftLines outside.windowsToIana (Document.parse byTime) resource master monday)
        monday := by
  have hexcluded : override byTime = some (some .excluded) := by decide
  obtain ⟨out, event, hout, hread, hfound⟩ := readBack_ok hexcluded
  exact ⟨out, hout, (excludeOccurrenceIcal_excludes hout hread).mp hfound⟩

open Sample in
theorem excludeOccurrenceIcal_readds : ¬ ∀ (text out : Text) (occurrence : CalendarDateTime) (stamp : UtcDateTime)
    (event : Event), excludeOccurrenceIcal outside text occurrence stamp = .ok out →
      parseCalendarObject outside.windowsToIana out = .ok event → event.Excludes (overrideKey occurrence event.start) := by
  intro h
  have hpatch : override byDay = some (some (.patch ⟨none, none, none, some "Moved?".toList, none, none, false⟩)) := by
    decide
  obtain ⟨out, event, hout, hread, hfound⟩ := readBack_ok hpatch
  have hexcludes := h byDay out monday clearRule.stamp event hout hread
  unfold Event.Excludes at hexcludes
  rw [hfound] at hexcludes
  exact nomatch hexcludes

end Ical
end SyncEngine
