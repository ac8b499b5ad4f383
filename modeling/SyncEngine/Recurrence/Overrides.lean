import SyncEngine.Recurrence.Horizons
import SyncEngine.Recurrence.Earlier

/-!
# What each recurrence id contributes

An instance is known by its original start, with whatever fraction of a second this has, and an override by its
key.  The overrides are looked up by the start cut to whole seconds, so an instance that starts within a second
is not found by its own key.
-/

namespace SyncEngine
namespace Recurrence

open Fallible StableSort

/-! ## Two ways to select from a list -/

section Select

variable {α β : Type} {p q : α → Bool} {f : α → Option β} {l : List α}

/-- Two selections from a list are the same but for order where what only one takes is what only the other does. -/
theorem filterMap_filter_perm_iff : ((l.filter p).filterMap f).Perm ((l.filter q).filterMap f) ↔
    ((l.filter fun a => p a && !q a).filterMap f).Perm ((l.filter fun a => q a && !p a).filterMap f) := by
  have hsplit : ∀ p q : α → Bool, ((l.filter p).filterMap f).Perm
      ((l.filter fun a => p a && q a).filterMap f ++ (l.filter fun a => p a && !q a).filterMap f) := by
    intro p q
    have hperm := (List.filter_append_perm q (l.filter p)).symm.filterMap f
    rw [List.filter_filter, List.filter_filter, List.filterMap_append] at hperm
    simpa only [Bool.and_comm] using hperm
  have hcomm : (fun a => p a && q a) = fun a => q a && p a := funext fun a => Bool.and_comm _ _
  have hp := hsplit p q
  have hq := hsplit q p
  rw [hcomm] at hp
  constructor
  · intro h
    exact (List.perm_append_left_iff _).mp ((hp.symm.trans h).trans hq)
  · intro h
    exact (hp.trans ((List.perm_append_left_iff _).mpr h)).trans hq.symm

end Select

variable {Zone : Type} {tz : Tzdb Zone} {hostZone : TimeZoneId} {event : Event} {ctx : Context Zone}
variable {overrides : List (LocalDateTime × RecurrenceOverride)} {d : Date} {horizon : Horizon} {base : List Date}

/-! ## Recurrence ids -/

/-- The recurrence id of a base instance. -/
def originalStart (ctx : Context Zone) (date : Date) : LocalDateTime := ⟨date, ctx.time⟩

def recurrenceIds (ctx : Context Zone) (overrides : List (LocalDateTime × RecurrenceOverride)) (base : List Date) :
    List LocalDateTime :=
  (base.map (originalStart ctx) ++ overrides.map (·.1)).dedup

/-- The row of an instance that no override replaces, within the horizon. -/
def plainRow (tz : Tzdb Zone) (event : Event) (horizon : Horizon) (ctx : Context Zone) (date : Date) :
    Option OccurrenceRow :=
  (value (wholePlain tz event ctx date)).filter (startsIn horizon)

/-- The row a recurrence id stands for: that of its override, if there is one, and else the plain one. -/
def contribution (tz : Tzdb Zone) (event : Event) (horizon : Horizon) (ctx : Context Zone)
    (overrides : List (LocalDateTime × RecurrenceOverride)) (rid : LocalDateTime) : Option OccurrenceRow :=
  match overrides.lookup rid with
  | some .excluded => none
  | some (.patch patch) => (value (wholeOverride tz event ctx rid patch)).filter (startsIn horizon)
  | none => plainRow tz event horizon ctx rid.date

def Replaces (tz : Tzdb Zone) (event : Event) (horizon : Horizon) (ctx : Context Zone)
    (overrides : List (LocalDateTime × RecurrenceOverride)) (base : List Date) (rows : List OccurrenceRow) : Prop :=
  rows.Perm ((recurrenceIds ctx overrides base).filterMap (contribution tz event horizon ctx overrides))

def unclaimed (ctx : Context Zone) (overrides : List (LocalDateTime × RecurrenceOverride)) (date : Date) : Bool :=
  (overrides.lookup (originalStart ctx date)).isNone

theorem originalStart_eq_instanceRid (h : ctx.time.nanosecond = 0) (date : Date) :
    originalStart ctx date = instanceRid ctx.time date := by
  obtain ⟨zone, start, hour, minute, second, nanosecond, proper⟩ := ctx
  obtain rfl : nanosecond = 0 := h
  rfl

theorem unclaimed_eq_untouched (h : ctx.time.nanosecond = 0) : unclaimed ctx overrides = untouched ctx overrides := by
  funext date
  unfold unclaimed untouched
  rw [originalStart_eq_instanceRid h]

theorem mem_keys_iff {rid : LocalDateTime} : rid ∈ overrides.map (·.1) ↔ (overrides.lookup rid).isNone = false := by
  rw [Option.isNone_eq_false_iff, Option.isSome_iff_ne_none, ne_eq, List.lookup_eq_none_iff, List.mem_map]
  constructor
  · rintro ⟨entry, hentry, rfl⟩ hnone
    exact (bne_iff_ne.mp (hnone entry hentry)) rfl
  · intro hnot
    by_contra hno
    refine hnot fun entry hentry => ?_
    rw [bne_iff_ne]
    intro heq
    exact hno ⟨entry, hentry, heq.symm⟩

theorem recurrenceIds_perm (hsorted : overrides.Pairwise fun a b => a.1 < b.1) (hnodup : base.Nodup) :
    (recurrenceIds ctx overrides base).Perm
      ((base.filter (unclaimed ctx overrides)).map (originalStart ctx) ++ overrides.map (·.1)) := by
  have hinjective : Function.Injective (originalStart ctx) := fun a b h => congrArg LocalDateTime.date h
  have hkeys : (overrides.map (·.1)).Nodup := (List.pairwise_map.mpr hsorted).imp fun hlt => ne_of_lt hlt
  have hapart : ∀ rid ∈ (base.filter (unclaimed ctx overrides)).map (originalStart ctx), rid ∉ overrides.map (·.1) := by
    intro rid hrid
    obtain ⟨date, hdate, rfl⟩ := List.mem_map.mp hrid
    have hnone : (overrides.lookup (originalStart ctx date)).isNone = true := (List.mem_filter.mp hdate).2
    rw [mem_keys_iff, hnone]
    exact Bool.noConfusion
  refine (List.perm_ext_iff_of_nodup (List.nodup_dedup _) ?_).mpr ?_
  · refine List.Nodup.append ((hnodup.filter _).map hinjective) hkeys ?_
    intro rid hrid hkey
    exact hapart rid hrid hkey
  · intro rid
    rw [List.mem_dedup, List.mem_append, List.mem_append]
    by_cases hkey : rid ∈ overrides.map (·.1)
    · simp only [hkey, or_true]
    · simp only [hkey, or_false]
      rw [List.mem_map, List.mem_map]
      constructor
      · rintro ⟨date, hdate, rfl⟩
        refine ⟨date, List.mem_filter.mpr ⟨hdate, ?_⟩, rfl⟩
        rw [mem_keys_iff, Bool.not_eq_false] at hkey
        exact hkey
      · rintro ⟨date, hdate, hrid⟩
        exact ⟨date, List.mem_of_mem_filter hdate, hrid⟩

theorem contribution_of_mem {entry : LocalDateTime × RecurrenceOverride}
    (hsorted : overrides.Pairwise fun a b => a.1 < b.1) (h : entry ∈ overrides) :
    contribution tz event horizon ctx overrides entry.1 =
      (value (wholeAddition tz event ctx entry)).filter (startsIn horizon) := by
  obtain ⟨rid, override⟩ := entry
  have hlookup := (lookup_eq_some_iff hsorted).mpr h
  unfold contribution
  rw [hlookup]
  cases override with
  | excluded => rfl
  | patch patch => rfl

theorem contribution_of_unclaimed (h : unclaimed ctx overrides d = true) :
    contribution tz event horizon ctx overrides (originalStart ctx d) = plainRow tz event horizon ctx d := by
  have hlookup := Option.isNone_iff_eq_none.mp h
  unfold contribution
  rw [hlookup]
  rfl

/-- What the ids contribute: the plain rows of the instances without an override of their own, and the rows of
the overrides. -/
theorem contributions_perm (hsorted : overrides.Pairwise fun a b => a.1 < b.1) (hnodup : base.Nodup) :
    ((recurrenceIds ctx overrides base).filterMap (contribution tz event horizon ctx overrides)).Perm
      ((base.filter (unclaimed ctx overrides)).filterMap (plainRow tz event horizon ctx) ++
        overrides.filterMap fun entry => (value (wholeAddition tz event ctx entry)).filter (startsIn horizon)) := by
  refine ((recurrenceIds_perm hsorted hnodup).filterMap _).trans (.of_eq ?_)
  rw [List.filterMap_append, List.filterMap_map, List.filterMap_map]
  congr 1
  · refine List.filterMap_congr ?_
    intro date hdate
    exact contribution_of_unclaimed (List.mem_filter.mp hdate).2
  · refine List.filterMap_congr ?_
    intro entry hentry
    exact contribution_of_mem hsorted hentry

/-! ## Where the instances are found by their own ids -/

def plainStart (tz : Tzdb Zone) (event : Event) (horizon : Horizon) (ctx : Context Zone) (date : Date) :
    Option UtcDateTime :=
  (plainRow tz event horizon ctx date).map (·.start)

/-- The instances shown in spite of an override, and those left out for the override of another time, are
equally many at every instant. -/
def FoundByStart (tz : Tzdb Zone) (event : Event) (horizon : Horizon) (ctx : Context Zone)
    (overrides : List (LocalDateTime × RecurrenceOverride)) (base : List Date) : Prop :=
  ((base.filter fun d => untouched ctx overrides d && !unclaimed ctx overrides d).filterMap
      (plainStart tz event horizon ctx)).Perm
    ((base.filter fun d => unclaimed ctx overrides d && !untouched ctx overrides d).filterMap
      (plainStart tz event horizon ctx))

theorem foundByStart_of_whole (h : ctx.time.nanosecond = 0) : FoundByStart tz event horizon ctx overrides base := by
  unfold FoundByStart
  rw [unclaimed_eq_untouched h]

def rowAt (tz : Tzdb Zone) (event : Event) (ctx : Context Zone) (start : UtcDateTime) : Option OccurrenceRow :=
  value do
    let finish ← addDuration tz ctx.zone start event.duration
    let start ← timestampToUtc start
    let finish ← timestampToUtc finish
    return some (mkRow tz event start finish none)

theorem plainRow_eq_rowAt : plainRow tz event horizon ctx d =
    (plainStart tz event horizon ctx d).bind (rowAt tz event ctx) := by
  unfold plainStart
  cases hrow : plainRow tz event horizon ctx d with
  | none => rfl
  | some row =>
    have hwhole := (Option.filter_eq_some_iff.mp hrow).1
    have hstart := wholePlain_start hwhole
    show some row = rowAt tz event ctx row.start
    rw [← hwhole]
    unfold wholePlain resolveRange rowAt
    rw [hstart]
    show value ((do
        let finish ← addDuration tz ctx.zone row.start event.duration
        let start ← timestampToUtc row.start
        let finish ← timestampToUtc finish
        return (start, finish)) >>= _) = _
    cases addDuration tz ctx.zone row.start event.duration with
    | error e => rfl
    | ok finish =>
      show value ((timestampToUtc row.start >>= _) >>= _) = value (timestampToUtc row.start >>= _)
      cases timestampToUtc row.start with
      | error e => rfl
      | ok start =>
        show value ((timestampToUtc finish >>= _) >>= _) = value (timestampToUtc finish >>= _)
        cases timestampToUtc finish with
        | error e => rfl
        | ok finish => rfl

theorem plainRows_perm_iff {p q : Date → Bool} : ((base.filter p).filterMap (plainRow tz event horizon ctx)).Perm
        ((base.filter q).filterMap (plainRow tz event horizon ctx)) ↔
      ((base.filter p).filterMap (plainStart tz event horizon ctx)).Perm
        ((base.filter q).filterMap (plainStart tz event horizon ctx)) := by
  have hstarts : ∀ l : List Date, l.filterMap (plainStart tz event horizon ctx) =
      (l.filterMap (plainRow tz event horizon ctx)).map (·.start) := by
    intro l
    rw [List.map_filterMap]
    rfl
  have hrows : ∀ l : List Date, l.filterMap (plainRow tz event horizon ctx) =
      (l.filterMap (plainStart tz event horizon ctx)).filterMap (rowAt tz event ctx) := by
    intro l
    rw [List.filterMap_filterMap]
    exact List.filterMap_congr fun date _ => plainRow_eq_rowAt
  constructor
  · intro h
    rw [hstarts, hstarts]
    exact h.map _
  · intro h
    rw [hrows, hrows]
    exact h.filterMap _

/-- The rows of a recurring event are the contributions of its recurrence ids just where the instances are found
by their own starts, as they are when the event starts on a whole second.  No instance after the window starts
within the horizon. -/
theorem expand_replaces_iff {recurrence : RecurrenceSet} {rows : List OccurrenceRow}
    (hrecurs : event.Recurs recurrence) (h : expand tz hostZone event horizon = .ok rows) :
    ∃ ctx windowEnd base, context tz hostZone event.start = .ok ctx ∧ windowEndOf horizon = .ok windowEnd ∧
      baseDates ctx windowEnd recurrence = .ok base ∧
      (Replaces tz event horizon ctx recurrence.overrides base rows ↔
        FoundByStart tz event horizon ctx recurrence.overrides base) ∧
      (ctx.time.nanosecond = 0 → FoundByStart tz event horizon ctx recurrence.overrides base) ∧
      (OffsetsBelowDay tz → ∀ d, windowEnd < d → plainRow tz event horizon ctx d = none) := by
  rw [expand_eq_recurring hrecurs] at h
  obtain ⟨ctx, windowEnd, base, hctx, hend, hbase, rfl⟩ := recurring_rows h
  have hnodup := baseDates_nodup hbase
  refine ⟨ctx, windowEnd, base, hctx, hend, hbase, ?_, foundByStart_of_whole, ?_⟩
  · have hfound : (sortRows ((gathered tz event ctx recurrence.overrides base).filter (startsIn horizon))).Perm
        ((base.filter (untouched ctx recurrence.overrides)).filterMap (plainRow tz event horizon ctx) ++
          recurrence.overrides.filterMap fun entry =>
            (value (wholeAddition tz event ctx entry)).filter (startsIn horizon)) := by
      have hgathered : ((gathered tz event ctx recurrence.overrides base).filter (startsIn horizon)).Perm _ :=
        (gathered_perm recurrence.sorted hnodup).filter _
      rw [List.filter_append, List.filter_filterMap, List.filter_filterMap] at hgathered
      exact (sortBy_perm _).trans hgathered
    have hexpected : ((recurrenceIds ctx recurrence.overrides base).filterMap
        (contribution tz event horizon ctx recurrence.overrides)).Perm _ := contributions_perm recurrence.sorted hnodup
    unfold Replaces FoundByStart
    rw [hfound.congr_left, hexpected.congr_right, List.perm_append_right_iff, filterMap_filter_perm_iff]
    exact plainRows_perm_iff
  · intro hoffset d hlate
    unfold plainRow
    cases hrow : value (wholePlain tz event ctx d) with
    | none => rfl
    | some row =>
      have hafter := starts_after hoffset hend hlate hrow
      rw [Option.filter_some_neg]
      unfold startsIn inWindow
      rw [decide_eq_false (not_lt.mpr hafter), Bool.and_false]

/-! ## A start within a second -/

/-- Half a second after nine o'clock. -/
def Sample.halfSecond : Time := ⟨9, 0, 0, 500000000, by decide⟩

/-- Three days from New Year on, without the second. -/
def Sample.removing (time : Time) : RecurrenceSet :=
  ⟨[Sample.threeDays], [], [(⟨Sample.january2, time⟩, .excluded)], List.pairwise_singleton _ _⟩

def Sample.meetingAt (time : Time) : Event :=
  { Sample.meeting (Sample.removing time) with start := .zoned ⟨Sample.newYear, time⟩ (.iana "Etc/UTC") }

def Sample.rowAt (start : Nat) (h : start < UtcDateTime.rangeNanos) : OccurrenceRow :=
  ⟨"meeting", ⟨start, h⟩, ⟨start, h⟩, none, "2025b"⟩

theorem meetingAt_recurs (time : Time) : (Sample.meetingAt time).Recurs (Sample.removing time) :=
  ⟨rfl, rfl, List.cons_ne_nil _ _, rfl⟩

/-- An instance that is excluded at its own start, half a second past nine, is shown. -/
theorem expand_shows_excluded :
    ¬∀ (tz : Tzdb Unit) (hostZone : TimeZoneId) (event : Event) (horizon : Horizon) (recurrence : RecurrenceSet)
      (rows : List OccurrenceRow), event.Recurs recurrence → expand tz hostZone event horizon = .ok rows →
      ∀ ctx windowEnd base, context tz hostZone event.start = .ok ctx → windowEndOf horizon = .ok windowEnd →
        baseDates ctx windowEnd recurrence = .ok base →
        Replaces tz event horizon ctx recurrence.overrides base rows := by
  intro h
  have hrows : expand Sample.utcOnly (.iana "Etc/UTC") (Sample.meetingAt Sample.halfSecond) Sample.month =
      .ok [Sample.rowAt 379409216400500000000 (by decide), Sample.rowAt 379409302800500000000 (by decide),
        Sample.rowAt 379409389200500000000 (by decide)] := by decide +kernel
  have hbase : baseDates ⟨(), Sample.newYear, Sample.halfSecond⟩ Sample.february2 (Sample.removing Sample.halfSecond) =
      .ok [Sample.newYear, Sample.january2, ⟨2024, 1, 3, by decide, by decide⟩] := by decide +kernel
  have hreplaces := h _ _ _ _ _ _ (meetingAt_recurs _) hrows ⟨(), Sample.newYear, Sample.halfSecond⟩
    Sample.february2 _ rfl (by decide) hbase
  have hlength := hreplaces.length_eq
  revert hlength
  decide

/-- At nine o'clock sharp the second day is left out. -/
theorem expand_leaves_out : ∃ base, baseDates Sample.atNine Sample.february2 (Sample.removing Sample.nine) = .ok base ∧
      Replaces Sample.utcOnly (Sample.meetingAt Sample.nine) Sample.month Sample.atNine
        (Sample.removing Sample.nine).overrides base
        [Sample.rowAt 379409216400000000000 (by decide), Sample.rowAt 379409389200000000000 (by decide)] := by
  have hrows : expand Sample.utcOnly (.iana "Etc/UTC") (Sample.meetingAt Sample.nine) Sample.month =
      .ok [Sample.rowAt 379409216400000000000 (by decide), Sample.rowAt 379409389200000000000 (by decide)] := by
    decide +kernel
  obtain ⟨ctx, windowEnd, base, hctx, hend, hbase, hiff, hwhole, -⟩ := expand_replaces_iff (meetingAt_recurs _) hrows
  obtain rfl : Sample.atNine = ctx := Except.ok.inj hctx
  obtain rfl : Sample.february2 = windowEnd :=
    Except.ok.inj ((by decide : .ok Sample.february2 = windowEndOf Sample.month).trans hend)
  exact ⟨base, hbase, hiff.mpr (hwhole rfl)⟩

end Recurrence

namespace Recurrence

/-!
## An event with one rule

Without excluded rules and overrides the rows are those of the rule's dates.  Two selections of the dates give the
same rows just where they have the same starts.
-/

open Fallible StableSort

theorem noOverrides_sorted :
    ([] : List (LocalDateTime × RecurrenceOverride)).Pairwise fun a b => a.1 < b.1 := List.Pairwise.nil

def RecurrenceSet.alone (rule : RecurrenceRule) : RecurrenceSet := ⟨[rule], [], [], noOverrides_sorted⟩

def Event.repeating (event : Event) (rule : RecurrenceRule) : Event :=
  { event with recurrence := some (.alone rule) }

variable {Zone : Type} {tz : Tzdb Zone} {hostZone : TimeZoneId} {event : Event} {ctx : Context Zone}
variable {horizon : Horizon} {windowEnd : Date} {rule : RecurrenceRule} {dates : List Date} {rows : List OccurrenceRow}

theorem repeating_recurs (hcancelled : event.cancelled = false) (hrid : event.recurrenceId = none) :
    (event.repeating rule).Recurs (.alone rule) :=
  ⟨hcancelled, hrid, List.cons_ne_nil _ _, rfl⟩

/-- Every date comes to a range of instants. -/
def Resolves (tz : Tzdb Zone) (event : Event) (ctx : Context Zone) (dates : List Date) : Prop :=
  ∀ d ∈ dates, ∃ range, resolveRange tz ctx.zone ⟨d, ctx.time⟩ event.duration = .ok range

theorem baseDates_alone (h : ruleDates ctx windowEnd rule = .ok dates) :
    baseDates ctx windowEnd (.alone rule) = .ok (sortDedup dates) := by
  have hincluded : [rule].mapM (ruleDates ctx windowEnd) = .ok [dates] := by
    rw [List.mapM_cons, h]
    rfl
  unfold baseDates
  show ([rule].mapM (ruleDates ctx windowEnd) >>= _) = _
  rw [hincluded]
  show Except.ok (sortDedup ([dates].flatten.filter _)) = _
  rw [List.flatten_singleton, List.filter_eq_self.mpr]
  intro d _
  rfl

theorem resolves_iff : Resolves tz event ctx dates ↔
    ∃ found, (sortDedup dates).mapM (instanceRow tz event horizon ctx []) = .ok found := by
  rw [mapM_ok_iff]
  constructor
  · intro h d hd
    obtain ⟨range, hrange⟩ := h d (mem_sortDedup.mp hd)
    refine ⟨rowIn tz event horizon range none, ?_⟩
    show (resolveRange tz ctx.zone ⟨d, ctx.time⟩ event.duration >>= _) = _
    rw [hrange]
    rfl
  · intro h d hd
    obtain ⟨row, hrow⟩ := h d (mem_sortDedup.mpr hd)
    obtain ⟨range, hrange, -⟩ := bind_eq_ok.mp hrow
    exact ⟨range, hrange⟩

theorem expand_repeating_iff (hcancelled : event.cancelled = false) (hrid : event.recurrenceId = none) :
    expand tz hostZone (event.repeating rule) horizon = .ok rows ↔
      ∃ ctx windowEnd dates, context tz hostZone event.start = .ok ctx ∧ windowEndOf horizon = .ok windowEnd ∧
        ruleDates ctx windowEnd rule = .ok dates ∧ Resolves tz event ctx dates ∧
        rows = sortRows ((sortDedup dates).filterMap (plainRow tz event horizon ctx)) := by
  rw [expand_eq_recurring (repeating_recurs hcancelled hrid)]
  have hrows : ∀ {ctx : Context Zone} {dates : List Date} {found : List (Option OccurrenceRow)},
      (sortDedup dates).mapM (instanceRow tz event horizon ctx []) = .ok found →
        found.reduceOption = (sortDedup dates).filterMap (plainRow tz event horizon ctx) := by
    intro ctx dates found hfound
    rw [reduceOption_mapM hfound]
    exact List.filterMap_congr fun date _ => value_instanceRow
  constructor
  · intro h
    obtain ⟨ctx, hctx, h⟩ := bind_eq_ok.mp h
    obtain ⟨windowEnd, hend, h⟩ := bind_eq_ok.mp h
    obtain ⟨base, hbase, h⟩ := bind_eq_ok.mp h
    obtain ⟨found, hfound, h⟩ := bind_eq_ok.mp h
    obtain ⟨included, hincluded, -⟩ := bind_eq_ok.mp hbase
    obtain ⟨dates, hdates⟩ := mapM_ok_iff.mp ⟨included, hincluded⟩ rule List.mem_cons_self
    obtain rfl := Except.ok.inj (hbase.symm.trans (baseDates_alone hdates))
    refine ⟨ctx, windowEnd, dates, hctx, hend, hdates, resolves_iff.mpr ⟨found, hfound⟩, ?_⟩
    obtain rfl := Except.ok.inj h
    show sortRows ((found ++ []).reduceOption) = _
    rw [List.append_nil, hrows hfound]
  · rintro ⟨ctx, windowEnd, dates, hctx, hend, hdates, hresolves, rfl⟩
    obtain ⟨found, hfound⟩ := resolves_iff.mp hresolves
    have hfound' : (sortDedup dates).mapM (instanceRow tz (event.repeating rule) horizon ctx []) = .ok found := hfound
    have hctx' : context tz hostZone (event.repeating rule).start = .ok ctx := hctx
    unfold recurring
    rw [hctx']
    show (windowEndOf horizon >>= _) = _
    rw [hend]
    show (baseDates ctx windowEnd (.alone rule) >>= _) = _
    rw [baseDates_alone hdates]
    show ((sortDedup dates).mapM (instanceRow tz (event.repeating rule) horizon ctx []) >>= _) = _
    rw [hfound']
    show Except.ok (sortRows ((found ++ []).reduceOption)) = _
    rw [List.append_nil, hrows hfound]

/-! ## Two selections -/

theorem plainRow_of_key {d d' : Date} {row row' : OccurrenceRow} (h : plainRow tz event horizon ctx d = some row)
    (h' : plainRow tz event horizon ctx d' = some row') (hkey : rowKey row = rowKey row') : row = row' := by
  have hat : ∀ {d : Date} {row : OccurrenceRow}, plainRow tz event horizon ctx d = some row →
      rowAt tz event ctx row.start = some row := by
    intro d row hrow
    have hstart : plainStart tz event horizon ctx d = some row.start := by
      unfold plainStart
      rw [hrow]
      rfl
    rw [plainRow_eq_rowAt, hstart] at hrow
    exact hrow
  have hsame : row.start = row'.start := congrArg (fun key => (ofLex key).1) hkey
  have hrow := hat h
  rw [hsame, hat h'] at hrow
  exact (Option.some.inj hrow).symm

theorem sortRows_eq_iff {ds ds' : List Date} : sortRows (ds.filterMap (plainRow tz event horizon ctx)) =
        sortRows (ds'.filterMap (plainRow tz event horizon ctx)) ↔
      (ds.filterMap (plainRow tz event horizon ctx)).Perm (ds'.filterMap (plainRow tz event horizon ctx)) := by
  constructor
  · intro h
    have hleft := @sortBy_perm _ _ _ rowKey (ds.filterMap (plainRow tz event horizon ctx))
    have hright := @sortBy_perm _ _ _ rowKey (ds'.filterMap (plainRow tz event horizon ctx))
    unfold sortRows at h
    rw [h] at hleft
    exact hleft.symm.trans hright
  · intro h
    refine eq_of_keys (((sortBy_perm _).trans h).trans (sortBy_perm _).symm) (sortBy_keys h) ?_
    intro row hrow row' hrow' hkey
    obtain ⟨d, -, hd⟩ := List.mem_filterMap.mp ((sortBy_perm _).mem_iff.mp hrow)
    obtain ⟨d', -, hd'⟩ := List.mem_filterMap.mp ((sortBy_perm _).mem_iff.mp hrow')
    exact plainRow_of_key hd hd' hkey

/-- The rows of the dates that satisfy `p` are the rows that start by an instant just where `p` says so of every
date with a row. -/
theorem sortRows_filter_iff {base : List Date} {p : Date → Bool} {instant : UtcDateTime} :
    sortRows ((base.filter p).filterMap (plainRow tz event horizon ctx)) =
        (sortRows (base.filterMap (plainRow tz event horizon ctx))).filter (fun row => row.start ≤ instant) ↔
      ∀ d ∈ base, ∀ row, plainRow tz event horizon ctx d = some row → (p d = true ↔ row.start ≤ instant) := by
  let q : Date → Bool := fun d => (plainRow tz event horizon ctx d).any fun row => row.start ≤ instant
  have hfilter : (sortRows (base.filterMap (plainRow tz event horizon ctx))).filter (fun row => row.start ≤ instant) =
      sortRows ((base.filter q).filterMap (plainRow tz event horizon ctx)) := by
    unfold sortRows
    rw [← sortBy_filter, List.filter_filterMap, List.filterMap_filter]
    congr 1
    refine List.filterMap_congr ?_
    intro d _
    show (plainRow tz event horizon ctx d).filter _ = if (plainRow tz event horizon ctx d).any _ = true then _ else _
    cases plainRow tz event horizon ctx d with
    | none => simp
    | some row => rw [Option.filter_some, Option.any_some]
  have hq : ∀ {d : Date} {row : OccurrenceRow}, plainRow tz event horizon ctx d = some row →
      (q d = true ↔ row.start ≤ instant) := by
    intro d row hrow
    show (plainRow tz event horizon ctx d).any _ = true ↔ _
    rw [hrow, Option.any_some, decide_eq_true_eq]
  rw [hfilter, sortRows_eq_iff, filterMap_filter_perm_iff]
  constructor
  · intro hperm d hd row hrow
    have hmem : ∀ {p q : Date → Bool}, p d = true → q d = false →
        row ∈ (base.filter fun a => p a && !q a).filterMap (plainRow tz event horizon ctx) := by
      intro p q hp hq
      refine List.mem_filterMap.mpr ⟨d, List.mem_filter.mpr ⟨hd, ?_⟩, hrow⟩
      rw [hp, hq]
      rfl
    constructor
    · intro hp
      by_contra hlate
      have hnot : q d = false := by rw [← Bool.not_eq_true, hq hrow]; exact hlate
      have hother := hperm.mem_iff.mp (hmem hp hnot)
      obtain ⟨d', hd', hrow'⟩ := List.mem_filterMap.mp hother
      have hin := (List.mem_filter.mp hd').2
      rw [Bool.and_eq_true, hq hrow'] at hin
      exact hlate hin.1
    · intro hearly
      by_contra hp
      rw [Bool.not_eq_true] at hp
      have hother := hperm.mem_iff.mpr (hmem ((hq hrow).mpr hearly) hp)
      obtain ⟨d', hd', hrow'⟩ := List.mem_filterMap.mp hother
      have hin := (List.mem_filter.mp hd').2
      rw [Bool.and_eq_true, Bool.not_eq_true', ← Bool.not_eq_true, hq hrow'] at hin
      exact hin.2 hearly
  · intro hall
    have hnone : ∀ {p' q' : Date → Bool}, (∀ d ∈ base, ∀ row, plainRow tz event horizon ctx d = some row →
        p' d = q' d) → (base.filter fun a => p' a && !q' a).filterMap (plainRow tz event horizon ctx) = [] := by
      intro p' q' hsame
      rw [List.filterMap_eq_nil_iff]
      intro d hd
      obtain ⟨hin, hboth⟩ := List.mem_filter.mp hd
      cases hrow : plainRow tz event horizon ctx d with
      | none => rfl
      | some row =>
        rw [hsame d hin row hrow, Bool.and_not_self] at hboth
        exact nomatch hboth
    have hsame : ∀ d ∈ base, ∀ row, plainRow tz event horizon ctx d = some row → p d = q d := by
      intro d hd row hrow
      rw [Bool.eq_iff_iff, hall d hd row hrow, hq hrow]
    rw [hnone hsame, hnone fun d hd row hrow => (hsame d hd row hrow).symm]

end Recurrence
end SyncEngine
