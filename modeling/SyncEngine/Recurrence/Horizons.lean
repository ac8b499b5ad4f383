import SyncEngine.Recurrence.Excluded

/-!
# Expanding over adjoining horizons

The rows of a horizon are those of its two parts.  A wider horizon has more base instances; an override of one
of these gives the same row as before, when it was an addition, but in another place, and this shows only
between rows with the same start and the same recurrence id.
-/

namespace SyncEngine
namespace Recurrence

open Fallible StableSort

variable {Zone : Type} {tz : Tzdb Zone} {hostZone : TimeZoneId} {event : Event} {ctx : Context Zone}
variable {overrides : List (LocalDateTime × RecurrenceOverride)} {d : Date}

/-! ## Rows without a horizon -/

/-- The row of a patched instance, wherever it starts. -/
def wholeOverride (tz : Tzdb Zone) (event : Event) (ctx : Context Zone) (rid : LocalDateTime) (patch : PatchObject) :
    Except ExpandError (Option OccurrenceRow) :=
  if patchCancelled patch then .ok none
  else do
    let ridUtc ← resolve tz ctx.zone rid
    let start ← orInvalid rid (patchStart patch)
    let zoneId ← orInvalid rid (patchTimezone patch)
    let zone ← zoneOr tz ctx.zone zoneId
    let duration ← orInvalid rid (patchDuration patch)
    let range ← resolveRange tz zone (start.getD rid) (duration.getD event.duration)
    return some (mkRow tz event range.1 range.2 (some ridUtc))

/-- The row of an instance that is not patched. -/
def wholePlain (tz : Tzdb Zone) (event : Event) (ctx : Context Zone) (date : Date) :
    Except ExpandError (Option OccurrenceRow) := do
  let range ← resolveRange tz ctx.zone ⟨date, ctx.time⟩ event.duration
  return some (mkRow tz event range.1 range.2 none)

def wholeAddition (tz : Tzdb Zone) (event : Event) (ctx : Context Zone) :
    LocalDateTime × RecurrenceOverride → Except ExpandError (Option OccurrenceRow)
  | (_, .excluded) => .ok none
  | (rid, .patch patch) => wholeOverride tz event ctx rid patch

def startsIn (horizon : Horizon) (row : OccurrenceRow) : Bool := inWindow horizon row.start

theorem value_bind_filter {α ε : Type} {p : OccurrenceRow → Bool} {x : Except ε α} {f g : α → Except ε (Option OccurrenceRow)}
    (h : ∀ a, value (f a) = (value (g a)).filter p) : value (x >>= f) = (value (x >>= g)).filter p := by
  cases x with
  | error e => rfl
  | ok a => exact h a

variable {horizon : Horizon}

theorem rowIn_eq_filter {range : UtcDateTime × UtcDateTime} {rid : Option UtcDateTime} :
    rowIn tz event horizon range rid = (some (mkRow tz event range.1 range.2 rid)).filter (startsIn horizon) := by
  unfold rowIn
  by_cases hin : inWindow horizon range.1 = true
  · rw [if_pos hin, Option.filter_some_pos]
    exact hin
  · rw [if_neg hin, Option.filter_some_neg]
    rwa [Bool.not_eq_true] at hin

variable {rid : LocalDateTime}

theorem value_overrideRow {patch : PatchObject} : value (overrideRow tz event horizon ctx rid patch) =
      (value (wholeOverride tz event ctx rid patch)).filter (startsIn horizon) := by
  unfold overrideRow wholeOverride
  split
  · rfl
  · refine value_bind_filter fun _ => value_bind_filter fun _ => value_bind_filter fun _ => ?_
    refine value_bind_filter fun _ => value_bind_filter fun _ => value_bind_filter fun _ => ?_
    exact rowIn_eq_filter

def wholeInstance (tz : Tzdb Zone) (event : Event) (ctx : Context Zone)
    (overrides : List (LocalDateTime × RecurrenceOverride)) (date : Date) : Option OccurrenceRow :=
  match overrides.lookup (instanceRid ctx.time date) with
  | some override => value (wholeAddition tz event ctx (instanceRid ctx.time date, override))
  | none => value (wholePlain tz event ctx date)

theorem value_instanceRow : value (instanceRow tz event horizon ctx overrides d) =
      (wholeInstance tz event ctx overrides d).filter (startsIn horizon) := by
  unfold instanceRow wholeInstance
  split
  · rename_i hover
    rw [hover]
    rfl
  · rename_i patch hover
    rw [hover]
    exact value_overrideRow
  · rename_i hover
    rw [hover]
    exact value_bind_filter fun _ => rowIn_eq_filter

theorem value_additionRow {entry : LocalDateTime × RecurrenceOverride} : value (additionRow tz event horizon ctx entry) =
      (value (wholeAddition tz event ctx entry)).filter (startsIn horizon) := by
  obtain ⟨rid, override⟩ := entry
  cases override with
  | excluded => rfl
  | patch patch => exact value_overrideRow

/-- All the rows, in the order they are found. -/
def gathered (tz : Tzdb Zone) (event : Event) (ctx : Context Zone)
    (overrides : List (LocalDateTime × RecurrenceOverride)) (base : List Date) : List OccurrenceRow :=
  base.filterMap (wholeInstance tz event ctx overrides) ++
    (overrides.filter (!(base.map (instanceRid ctx.time)).contains ·.1)).filterMap
      fun entry => value (wholeAddition tz event ctx entry)

variable {recurrence : RecurrenceSet} {rows : List OccurrenceRow}

theorem recurring_rows (h : recurring tz hostZone event horizon recurrence = .ok rows) :
    ∃ ctx windowEnd base, context tz hostZone event.start = .ok ctx ∧ windowEndOf horizon = .ok windowEnd ∧
      baseDates ctx windowEnd recurrence = .ok base ∧
      rows = sortRows ((gathered tz event ctx recurrence.overrides base).filter (startsIn horizon)) := by
  obtain ⟨ctx, hctx, h⟩ := bind_eq_ok.mp h
  obtain ⟨windowEnd, hend, h⟩ := bind_eq_ok.mp h
  obtain ⟨base, hbase, h⟩ := bind_eq_ok.mp h
  obtain ⟨found, hfound, h⟩ := bind_eq_ok.mp h
  obtain ⟨additions, hadditions, h⟩ := bind_eq_ok.mp h
  obtain rfl := Except.ok.inj h
  refine ⟨ctx, windowEnd, base, hctx, hend, hbase, congrArg sortRows ?_⟩
  unfold gathered
  rw [List.reduceOption_append, reduceOption_mapM hfound, reduceOption_mapM hadditions, List.filter_append,
    List.filter_filterMap, List.filter_filterMap]
  simp only [value_instanceRow, value_additionRow]

/-! ## What is gathered -/

def untouched (ctx : Context Zone) (overrides : List (LocalDateTime × RecurrenceOverride)) (date : Date) : Bool :=
  (overrides.lookup (instanceRid ctx.time date)).isNone

theorem instanceRid_injective {time : Time} : Function.Injective (instanceRid time) := by
  intro a b h
  exact congrArg LocalDateTime.date h

theorem lookup_eq_some_iff {override : RecurrenceOverride} (hsorted : overrides.Pairwise fun a b => a.1 < b.1) :
    overrides.lookup rid = some override ↔ (rid, override) ∈ overrides := by
  induction overrides with
  | nil => simp
  | cons entry rest ih =>
    obtain ⟨rid', over'⟩ := entry
    rw [List.lookup_cons]
    by_cases heq : rid = rid'
    · subst heq
      have hnot : (rid, override) ∉ rest := by
        intro ho
        have hlt : rid < rid := (List.pairwise_cons.mp hsorted).1 (rid, override) ho
        exact lt_irrefl _ hlt
      simp only [beq_self_eq_true, Option.some.injEq, List.mem_cons, Prod.mk.injEq, true_and]
      constructor
      · exact fun h => .inl h.symm
      · rintro (h | h)
        · exact h.symm
        · exact absurd h hnot
    · rw [beq_false_of_ne heq, ih hsorted.of_cons]
      simp [heq]

variable {base : List Date}

theorem overridden_perm (hsorted : overrides.Pairwise fun a b => a.1 < b.1) (hnodup : base.Nodup) :
    ((base.filter (!untouched ctx overrides ·)).filterMap fun date =>
        (overrides.lookup (instanceRid ctx.time date)).map ((instanceRid ctx.time date), ·)).Perm
      (overrides.filter ((base.map (instanceRid ctx.time)).contains ·.1)) := by
  have hoverrides : overrides.Nodup := hsorted.imp fun hlt heq => by
    rw [heq] at hlt
    exact lt_irrefl _ hlt
  refine (List.perm_ext_iff_of_nodup ?_ (hoverrides.filter _)).mpr ?_
  · refine List.Nodup.filterMap ?_ (hnodup.filter _)
    intro a b entry ha hb
    rw [Option.mem_def, Option.map_eq_some_iff] at ha hb
    obtain ⟨_, -, rfl⟩ := ha
    obtain ⟨_, -, heq⟩ := hb
    exact instanceRid_injective (congrArg Prod.fst heq).symm
  · rintro ⟨rid, override⟩
    rw [List.mem_filterMap, List.mem_filter, List.contains_iff_mem, List.mem_map]
    constructor
    · rintro ⟨date, hdate, heq⟩
      rw [Option.map_eq_some_iff] at heq
      obtain ⟨over', hover, heq⟩ := heq
      obtain ⟨rfl, rfl⟩ := Prod.mk.inj heq
      exact ⟨(lookup_eq_some_iff hsorted).mp hover, date, List.mem_of_mem_filter hdate, rfl⟩
    · rintro ⟨hmem, date, hdate, hrid⟩
      have hover := (lookup_eq_some_iff hsorted).mpr hmem
      simp only at hrid
      refine ⟨date, List.mem_filter.mpr ⟨hdate, ?_⟩, ?_⟩
      · unfold untouched
        rw [hrid, hover]
        rfl
      · rw [hrid, hover]
        rfl

theorem gathered_perm (hsorted : overrides.Pairwise fun a b => a.1 < b.1) (hnodup : base.Nodup) :
    (gathered tz event ctx overrides base).Perm
      ((base.filter (untouched ctx overrides)).filterMap (fun date => value (wholePlain tz event ctx date)) ++
        overrides.filterMap fun entry => value (wholeAddition tz event ctx entry)) := by
  have hplain : ∀ l : List Date, (l.filter (untouched ctx overrides)).filterMap (wholeInstance tz event ctx overrides) =
      (l.filter (untouched ctx overrides)).filterMap fun date => value (wholePlain tz event ctx date) := by
    intro l
    refine List.filterMap_congr ?_
    intro date hdate
    have hnone := Option.isNone_iff_eq_none.mp (List.mem_filter.mp hdate).2
    unfold wholeInstance
    rw [hnone]
  have hover : ∀ l : List Date, (l.filter (!untouched ctx overrides ·)).filterMap (wholeInstance tz event ctx overrides) =
        ((l.filter (!untouched ctx overrides ·)).filterMap fun date =>
          (overrides.lookup (instanceRid ctx.time date)).map ((instanceRid ctx.time date), ·)).filterMap
            fun entry => value (wholeAddition tz event ctx entry) := by
    intro l
    rw [List.filterMap_filterMap]
    refine List.filterMap_congr ?_
    intro date hdate
    have htouched := (List.mem_filter.mp hdate).2
    unfold untouched at htouched
    unfold wholeInstance
    cases hlookup : overrides.lookup (instanceRid ctx.time date) with
    | none =>
      rw [hlookup] at htouched
      exact nomatch htouched
    | some override => rfl
  have hbase : (base.filterMap (wholeInstance tz event ctx overrides)).Perm
      ((base.filter (untouched ctx overrides)).filterMap (fun date => value (wholePlain tz event ctx date)) ++
        (overrides.filter ((base.map (instanceRid ctx.time)).contains ·.1)).filterMap
          fun entry => value (wholeAddition tz event ctx entry)) := by
    refine ((List.filter_append_perm (untouched ctx overrides) base).symm.filterMap _).trans ?_
    rw [List.filterMap_append, hplain, hover]
    exact ((overridden_perm hsorted hnodup).filterMap _).append_left _
  unfold gathered
  refine (hbase.append_right _).trans ?_
  rw [List.append_assoc, ← List.filterMap_append]
  exact ((List.filter_append_perm _ overrides).filterMap _).append_left _

/-! ## Two horizons side by side -/

def OffsetsBelowDay (tz : Tzdb Zone) : Prop :=
  ∀ zone wall t, tz.toZoned zone wall = some t → |utcNanos t - wall.nanos| < nanosPerDay

variable {row : OccurrenceRow}

theorem wholePlain_start (h : value (wholePlain tz event ctx d) = some row) :
    tz.toZoned ctx.zone ⟨d, ctx.time⟩ = some row.start := by
  cases hwhole : wholePlain tz event ctx d with
  | error e =>
    rw [hwhole] at h
    exact nomatch h
  | ok found =>
    rw [hwhole] at h
    obtain rfl : found = some row := h
    obtain ⟨range, hrange, hrow⟩ := bind_eq_ok.mp hwhole
    obtain rfl := Option.some.inj (Except.ok.inj hrow)
    obtain ⟨start, hstart, hrange⟩ := bind_eq_ok.mp hrange
    obtain ⟨finish, -, hrange⟩ := bind_eq_ok.mp hrange
    obtain ⟨start', hstart', hrange⟩ := bind_eq_ok.mp hrange
    obtain ⟨finish', -, hrange⟩ := bind_eq_ok.mp hrange
    obtain rfl := Except.ok.inj hrange
    unfold timestampToUtc at hstart'
    split at hstart'
    · obtain rfl := Except.ok.inj hstart'
      exact orOutOfRange_eq_ok.mp hstart
    · exact nomatch hstart'

variable {windowEnd : Date}

theorem starts_after (hoffset : OffsetsBelowDay tz) (hend : windowEndOf horizon = .ok windowEnd) (hlate : windowEnd < d)
    (h : value (wholePlain tz event ctx d) = some row) : horizon.finish ≤ row.start := by
  have hnear := hoffset _ _ _ (wholePlain_start h)
  obtain ⟨last, hlast, hend⟩ := bind_eq_ok.mp hend
  rw [addDays_eq_ok_iff] at hend
  have hnumber : last.number = utcNanos horizon.finish / nanosPerDay :=
    Date.ofNumber?_eq_some_iff.mp (orOutOfRange_eq_ok.mp hlast)
  have hlt : windowEnd.number < d.number := hlate
  have htime := ctx.time.nanos_bounds
  have hwall : (⟨d, ctx.time⟩ : LocalDateTime).nanos = d.number * nanosPerDay + ctx.time.nanos := rfl
  rw [abs_lt, hwall] at hnear
  unfold utcNanos at hnear hnumber
  rw [UtcDateTime.le_def]
  unfold nanosPerDay at *
  omega

variable {horizon' : Horizon} {windowEnd' : Date}

theorem windowEndOf_mono (h : windowEndOf horizon = .ok windowEnd) (h' : windowEndOf horizon' = .ok windowEnd')
    (hle : horizon.finish ≤ horizon'.finish) : windowEnd ≤ windowEnd' := by
  obtain ⟨last, hlast, hend⟩ := bind_eq_ok.mp h
  obtain ⟨last', hlast', hend'⟩ := bind_eq_ok.mp h'
  rw [addDays_eq_ok_iff] at hend hend'
  have hnumber := Date.ofNumber?_eq_some_iff.mp (orOutOfRange_eq_ok.mp hlast)
  have hnumber' := Date.ofNumber?_eq_some_iff.mp (orOutOfRange_eq_ok.mp hlast')
  rw [UtcDateTime.le_def] at hle
  unfold utcNanos nanosPerDay at hnumber hnumber'
  show windowEnd.number ≤ windowEnd'.number
  omega

theorem baseDates_nodup (h : baseDates ctx windowEnd recurrence = .ok base) : base.Nodup := by
  obtain ⟨included, -, h⟩ := bind_eq_ok.mp h
  obtain ⟨excluded, -, h⟩ := bind_eq_ok.mp h
  obtain rfl := Except.ok.inj h
  exact (sortDedup_sorted _).imp fun hlt => ne_of_lt hlt

variable {base' : List Date}

theorem baseDates_narrow
    (h : baseDates ctx windowEnd recurrence = .ok base) (h' : baseDates ctx windowEnd' recurrence = .ok base')
    (hle : windowEnd ≤ windowEnd') : base.Perm (base'.filter (· ≤ windowEnd)) := by
  refine (List.perm_ext_iff_of_nodup (baseDates_nodup h) ((baseDates_nodup h').filter _)).mpr ?_
  intro d
  rw [List.mem_filter, mem_baseDates h, mem_baseDates h', decide_eq_true_eq]
  constructor
  · exact fun hd => ⟨⟨le_trans hd.1 hle, hd.2⟩, hd.1⟩
  · exact fun hd => ⟨hd.2, hd.1.2⟩

theorem gathered_narrow (hoffset : OffsetsBelowDay tz) (hend : windowEndOf horizon = .ok windowEnd)
    (hend' : windowEndOf horizon' = .ok windowEnd') (hle : horizon.finish ≤ horizon'.finish)
    (h : baseDates ctx windowEnd recurrence = .ok base) (h' : baseDates ctx windowEnd' recurrence = .ok base') :
    ((gathered tz event ctx recurrence.overrides base').filter (startsIn horizon)).Perm
      ((gathered tz event ctx recurrence.overrides base).filter (startsIn horizon)) := by
  have hperm : (gathered tz event ctx recurrence.overrides base).Perm _ :=
    gathered_perm recurrence.sorted (baseDates_nodup h)
  have hperm' : (gathered tz event ctx recurrence.overrides base').Perm _ :=
    gathered_perm recurrence.sorted (baseDates_nodup h')
  refine (hperm'.filter _).trans ((?_ : List.Perm _ _).trans (hperm.filter _).symm)
  rw [List.filter_append, List.filter_append]
  refine List.Perm.append_right _ ?_
  have hbase := baseDates_narrow h h' (windowEndOf_mono hend hend' hle)
  refine List.Perm.trans (List.Perm.of_eq ?_) (((hbase.filter _).filterMap _).symm.filter _)
  rw [List.filter_filterMap, List.filter_filterMap, List.filter_comm]
  generalize base'.filter (untouched ctx recurrence.overrides) = dates
  rw [List.filterMap_filter]
  refine List.filterMap_congr ?_
  intro date _
  by_cases hin : date ≤ windowEnd
  · rw [if_pos (decide_eq_true hin)]
  · rw [if_neg (by simpa using hin)]
    cases hrow : value (wholePlain tz event ctx date) with
    | none => rfl
    | some row =>
      have hafter := starts_after hoffset hend (not_le.mp hin) hrow
      rw [Option.filter_some_neg]
      unfold startsIn inWindow
      rw [decide_eq_false (not_lt.mpr hafter), Bool.and_false]

variable {a b c : UtcDateTime} {ab bc ac : List OccurrenceRow}

/-- Two lists of rows that differ at most in the order of those with the same start and recurrence id. -/
structure SameRows (rows rows' : List OccurrenceRow) : Prop where
  perm : rows.Perm rows'
  keys : rows.map rowKey = rows'.map rowKey

theorem SameRows.refl (rows : List OccurrenceRow) : SameRows rows rows := ⟨.refl _, rfl⟩

theorem startsIn_split (hab : a < b) (hbc : b < c) (row : OccurrenceRow) :
    (startsIn ⟨a, c, hab.trans hbc⟩ row && decide (row.start < b)) = startsIn ⟨a, b, hab⟩ row ∧
    (startsIn ⟨a, c, hab.trans hbc⟩ row && !decide (row.start < b)) = startsIn ⟨b, c, hbc⟩ row := by
  unfold startsIn inWindow
  rw [UtcDateTime.lt_def] at hab hbc
  constructor
  · rw [Bool.eq_iff_iff]
    simp only [Bool.and_eq_true, decide_eq_true_eq, UtcDateTime.lt_def, UtcDateTime.le_def]
    omega
  · rw [Bool.eq_iff_iff]
    simp only [Bool.and_eq_true, Bool.not_eq_true', decide_eq_true_eq, decide_eq_false_iff_not,
      UtcDateTime.lt_def, UtcDateTime.le_def]
    omega

theorem rowKey_start_le {row' : OccurrenceRow} (h : rowKey row ≤ rowKey row') : row.start ≤ row'.start := by
  rcases Prod.Lex.le_iff.mp h with hlt | ⟨heq, -⟩
  · exact le_of_lt hlt
  · exact le_of_eq heq

theorem sortRows_split (hab : a < b) (hbc : b < c) (rows : List OccurrenceRow) :
    sortRows (rows.filter (startsIn ⟨a, c, hab.trans hbc⟩)) =
      sortRows (rows.filter (startsIn ⟨a, b, hab⟩)) ++ sortRows (rows.filter (startsIn ⟨b, c, hbc⟩)) := by
  have hdown : ∀ row row' : OccurrenceRow, rowKey row ≤ rowKey row' → decide (row'.start < b) = true →
      decide (row.start < b) = true := by
    intro row row' hkey hlt
    exact decide_eq_true (lt_of_le_of_lt (rowKey_start_le hkey) (of_decide_eq_true hlt))
  have hsplit := filter_append_filter (sortBy_pairwise (rows.filter (startsIn ⟨a, c, hab.trans hbc⟩))) hdown
  unfold sortRows
  rw [← hsplit, ← sortBy_filter, ← sortBy_filter, List.filter_filter, List.filter_filter]
  congr 2
  · refine List.filter_congr fun row _ => ?_
    rw [Bool.and_comm]
    exact (startsIn_split hab hbc row).1
  · refine List.filter_congr fun row _ => ?_
    rw [Bool.and_comm]
    exact (startsIn_split hab hbc row).2

theorem recurring_splits (hoffset : OffsetsBelowDay tz) (hab : a < b) (hbc : b < c)
    (h₁ : recurring tz hostZone event ⟨a, b, hab⟩ recurrence = .ok ab)
    (h₂ : recurring tz hostZone event ⟨b, c, hbc⟩ recurrence = .ok bc)
    (h₃ : recurring tz hostZone event ⟨a, c, hab.trans hbc⟩ recurrence = .ok ac) :
    ∃ ab', ac = ab' ++ bc ∧ SameRows ab' ab := by
  obtain ⟨ctx, end₁, base₁, hctx, hend₁, hbase₁, rfl⟩ := recurring_rows h₁
  obtain ⟨ctx₂, end₂, base₂, hctx₂, hend₂, hbase₂, rfl⟩ := recurring_rows h₂
  obtain ⟨ctx₃, end₃, base₃, hctx₃, hend₃, hbase₃, rfl⟩ := recurring_rows h₃
  obtain rfl := Except.ok.inj (hctx.symm.trans hctx₂)
  obtain rfl := Except.ok.inj (hctx.symm.trans hctx₃)
  -- The second part ends where the whole does, so its base instances are the same.
  obtain rfl : end₂ = end₃ := Except.ok.inj (hend₂.symm.trans hend₃)
  obtain rfl := Except.ok.inj (hbase₂.symm.trans hbase₃)
  have hperm : ((gathered tz event ctx recurrence.overrides base₂).filter (startsIn ⟨a, b, hab⟩)).Perm _ :=
    gathered_narrow hoffset hend₁ hend₃ (le_of_lt hbc) hbase₁ hbase₃
  refine ⟨_, sortRows_split hab hbc _, ?_, ?_⟩
  · exact ((sortBy_perm _).trans hperm).trans (sortBy_perm _).symm
  · exact sortBy_keys hperm

theorem inWindow_split (hab : a < b) (hbc : b < c) (start : UtcDateTime) :
    inWindow ⟨a, c, hab.trans hbc⟩ start = (inWindow ⟨a, b, hab⟩ start || inWindow ⟨b, c, hbc⟩ start) ∧
      (inWindow ⟨a, b, hab⟩ start && inWindow ⟨b, c, hbc⟩ start) = false := by
  unfold inWindow
  rw [UtcDateTime.lt_def] at hab hbc
  constructor
  · rw [Bool.eq_iff_iff]
    simp only [Bool.and_eq_true, Bool.or_eq_true, decide_eq_true_eq, UtcDateTime.lt_def, UtcDateTime.le_def]
    omega
  · rw [Bool.eq_false_iff]
    simp only [ne_eq, Bool.and_eq_true, decide_eq_true_eq, UtcDateTime.lt_def, UtcDateTime.le_def]
    omega

theorem rowIn_split (hab : a < b) (hbc : b < c) (range : UtcDateTime × UtcDateTime) (rid : Option UtcDateTime) :
    (rowIn tz event ⟨a, c, hab.trans hbc⟩ range rid).toList =
      (rowIn tz event ⟨a, b, hab⟩ range rid).toList ++ (rowIn tz event ⟨b, c, hbc⟩ range rid).toList := by
  obtain ⟨hor, hnot⟩ := inWindow_split hab hbc range.1
  unfold rowIn
  rw [hor]
  cases h₁ : inWindow ⟨a, b, hab⟩ range.1 with
  | false => rfl
  | true =>
    rw [h₁, Bool.true_and] at hnot
    rw [hnot]
    rfl

theorem single_rows (h : single tz hostZone event horizon = .ok rows) :
    ∃ ctx range, context tz hostZone event.start = .ok ctx ∧
      resolveRange tz ctx.zone ⟨ctx.date, ctx.time⟩ event.duration = .ok range ∧
      rows = (rowIn tz event horizon range none).toList := by
  obtain ⟨ctx, hctx, h⟩ := bind_eq_ok.mp h
  obtain ⟨range, hrange, h⟩ := bind_eq_ok.mp h
  exact ⟨ctx, range, hctx, hrange, (Except.ok.inj h).symm⟩

theorem standaloneInstance_rows {rid : CalendarDateTime}
    (h : standaloneInstance tz hostZone event horizon rid = .ok rows) :
    ∃ ctx range, context tz hostZone event.start = .ok ctx ∧
      resolveRange tz ctx.zone ⟨ctx.date, ctx.time⟩ event.duration = .ok range ∧
      rows = (rowIn tz event horizon range (resolvePoint tz hostZone rid).toOption).toList := by
  obtain ⟨ctx, hctx, h⟩ := bind_eq_ok.mp h
  obtain ⟨range, hrange, h⟩ := bind_eq_ok.mp h
  refine ⟨ctx, range, hctx, hrange, ?_⟩
  unfold rowIn
  split at h
  · rename_i hin
    obtain ⟨ridUtc, hrid, h⟩ := bind_eq_ok.mp h
    obtain rfl := Except.ok.inj h
    rw [if_pos hin, hrid]
    rfl
  · rename_i hout
    obtain rfl := Except.ok.inj h
    rw [if_neg hout]
    rfl

/-- The rows of a horizon are those of its first part, but for the order of those with the same start and
recurrence id, followed by those of its second part. -/
theorem expand_splits (hoffset : OffsetsBelowDay tz) (hab : a < b) (hbc : b < c)
    (h₁ : expand tz hostZone event ⟨a, b, hab⟩ = .ok ab) (h₂ : expand tz hostZone event ⟨b, c, hbc⟩ = .ok bc)
    (h₃ : expand tz hostZone event ⟨a, c, hab.trans hbc⟩ = .ok ac) :
    ∃ ab', ac = ab' ++ bc ∧ SameRows ab' ab ∧ ((∀ r ∈ ab', ∀ r' ∈ ab', rowKey r = rowKey r' → r = r') → ab' = ab) := by
  suffices hparts : ∃ ab', ac = ab' ++ bc ∧ SameRows ab' ab by
    obtain ⟨ab', hac, hsame⟩ := hparts
    exact ⟨ab', hac, hsame, eq_of_keys hsame.perm hsame.keys⟩
  unfold expand at h₁ h₂ h₃
  by_cases hcancelled : event.cancelled = true
  · rw [if_pos hcancelled] at h₁ h₂ h₃
    obtain rfl := Except.ok.inj h₁
    obtain rfl := Except.ok.inj h₂
    obtain rfl := Except.ok.inj h₃
    exact ⟨[], rfl, .refl _⟩
  · rw [if_neg hcancelled] at h₁ h₂ h₃
    cases hrid : event.recurrenceId with
    | some rid =>
      rw [hrid] at h₁ h₂ h₃
      obtain ⟨ctx, range, hctx, hrange, rfl⟩ := standaloneInstance_rows h₁
      obtain ⟨ctx₂, range₂, hctx₂, hrange₂, rfl⟩ := standaloneInstance_rows h₂
      obtain ⟨ctx₃, range₃, hctx₃, hrange₃, rfl⟩ := standaloneInstance_rows h₃
      obtain rfl := Except.ok.inj (hctx.symm.trans hctx₂)
      obtain rfl := Except.ok.inj (hctx.symm.trans hctx₃)
      obtain rfl := Except.ok.inj (hrange.symm.trans hrange₂)
      obtain rfl := Except.ok.inj (hrange.symm.trans hrange₃)
      exact ⟨_, rowIn_split hab hbc _ _, .refl _⟩
    | none =>
      rw [hrid] at h₁ h₂ h₃
      dsimp only at h₁ h₂ h₃
      cases hrecurrence : event.recurrence.filter (!·.rules.isEmpty) with
      | some recurrence =>
        rw [hrecurrence] at h₁ h₂ h₃
        exact recurring_splits hoffset hab hbc h₁ h₂ h₃
      | none =>
        rw [hrecurrence] at h₁ h₂ h₃
        obtain ⟨ctx, range, hctx, hrange, rfl⟩ := single_rows h₁
        obtain ⟨ctx₂, range₂, hctx₂, hrange₂, rfl⟩ := single_rows h₂
        obtain ⟨ctx₃, range₃, hctx₃, hrange₃, rfl⟩ := single_rows h₃
        obtain rfl := Except.ok.inj (hctx.symm.trans hctx₂)
        obtain rfl := Except.ok.inj (hctx.symm.trans hctx₃)
        obtain rfl := Except.ok.inj (hrange.symm.trans hrange₂)
        obtain rfl := Except.ok.inj (hrange.symm.trans hrange₃)
        exact ⟨_, rowIn_split hab hbc _ _, .refl _⟩

/-! ## Two overrides in one place -/

open Sample

def Sample.hour : Int := 3600000000000

/-- Amsterdam in the spring of 2024: an hour ahead of UTC, and two from three o'clock on 31 March.  A time in the
gap before is taken as it was before. -/
def Sample.amsterdam : Tzdb Unit :=
  zoneAhead "Europe/Amsterdam" fun wall =>
    if wall.nanos < (⟨⟨2024, 3, 31, year_inRange, by decide⟩, ⟨3, 0, 0, 0, by decide⟩⟩ : LocalDateTime).nanos
    then hour else 2 * hour

theorem zoneAhead_offsets {name : String} {ahead : LocalDateTime → Int}
    (h : ∀ wall, |ahead wall| < nanosPerDay) : OffsetsBelowDay (zoneAhead name ahead) := by
  intro zone wall t ht
  have hahead := h wall
  unfold zoneAhead at ht
  dsimp only at ht
  split at ht
  · rename_i hrange
    obtain rfl := Option.some.inj ht
    unfold utcNanos
    rw [abs_lt] at hahead ⊢
    dsimp only
    omega
  · exact nomatch ht

theorem amsterdam_offsets : OffsetsBelowDay amsterdam := by
  refine zoneAhead_offsets fun wall => ?_
  split
  · decide
  · decide

def Sample.halfPast (hour : Nat) (h : hour < 24) : LocalDateTime :=
  ⟨⟨2024, 3, 31, year_inRange, by decide⟩, ⟨hour, 30, 0, 0, ⟨h, by decide, by decide, by decide⟩⟩⟩

def Sample.moved (duration : String) : RecurrenceOverride :=
  .patch [("start", .text "2024-03-10T10:00:00"), ("duration", .text duration)]

/-- Half past three on 30 and 31 March, with 31 March and a time that the clock skips moved to one time. -/
def Sample.twoMoved : Event where
  key := "meeting"
  start := .zoned ⟨⟨2024, 3, 30, year_inRange, by decide⟩, ⟨3, 30, 0, 0, by decide⟩⟩ (.iana "Europe/Amsterdam")
  duration := Duration.zero
  cancelled := false
  recurrence := some {
    rules := [{ RecurrenceRule.new .daily with bound := .count 2 Nat.two_pos }]
    excludedRules := []
    overrides := [(halfPast 2 (by decide), moved "PT1H"), (halfPast 3 (by decide), moved "PT2H")]
    sorted := by decide }
  recurrenceId := none

/-- The start of a day of 2024, counted from New Year. -/
def Sample.day (n : Nat) (h : n < 366) : UtcDateTime :=
  ⟨379409184000000000000 + n * 86400000000000, by unfold UtcDateTime.rangeNanos; omega⟩

def Sample.movedRow (finish : Nat) (h : finish < UtcDateTime.rangeNanos) : OccurrenceRow :=
  ⟨"meeting", ⟨379415178000000000000, by decide⟩, ⟨finish, h⟩, some ⟨379416965400000000000, by decide⟩, "2025b"⟩

def Sample.anHour : OccurrenceRow := movedRow 379415181600000000000 (by decide)

def Sample.twoHours : OccurrenceRow := movedRow 379415185200000000000 (by decide)

/-- The instance of 30 March. -/
def Sample.unmoved : OccurrenceRow :=
  ⟨"meeting", ⟨379416882600000000000, by decide⟩, ⟨379416882600000000000, by decide⟩, none, "2025b"⟩

def Sample.march1 : UtcDateTime := day 60 (by decide)

def Sample.march15 : UtcDateTime := day 74 (by decide)

def Sample.april15 : UtcDateTime := day 105 (by decide)

theorem expand_firstHalf : expand amsterdam (.iana "Etc/UTC") twoMoved
    ⟨march1, march15, by decide⟩ = .ok [anHour, twoHours] := by decide +kernel

theorem expand_secondHalf : expand amsterdam (.iana "Etc/UTC") twoMoved
    ⟨march15, april15, by decide⟩ = .ok [unmoved] := by decide +kernel

theorem expand_both : expand amsterdam (.iana "Etc/UTC") twoMoved
    ⟨march1, april15, by decide⟩ = .ok [twoHours, anHour, unmoved] := by
  decide +kernel

/-- Two rows with the same start and recurrence id change places. -/
theorem expand_swaps_rows :
    ¬∀ (tz : Tzdb Unit) (hostZone : TimeZoneId) (event : Event) (a b c : UtcDateTime) (hab : a < b) (hbc : b < c)
      (ab bc ac : List OccurrenceRow), OffsetsBelowDay tz → expand tz hostZone event ⟨a, b, hab⟩ = .ok ab →
      expand tz hostZone event ⟨b, c, hbc⟩ = .ok bc → expand tz hostZone event ⟨a, c, hab.trans hbc⟩ = .ok ac →
      ac = ab ++ bc := by
  intro h
  have heq := h _ _ _ _ _ _ _ _ _ _ _ amsterdam_offsets expand_firstHalf expand_secondHalf expand_both
  revert heq
  decide

theorem expand_splits_moved : ∃ ab', [twoHours, anHour, unmoved] = ab' ++ [unmoved] ∧
      SameRows ab' [anHour, twoHours] := by
  obtain ⟨ab', hac, hsame, -⟩ := expand_splits amsterdam_offsets _ _ expand_firstHalf expand_secondHalf expand_both
  exact ⟨ab', hac, hsame⟩

end Recurrence
end SyncEngine
