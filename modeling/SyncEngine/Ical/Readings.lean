import SyncEngine.Ical.Reader

/-!
# What the reader excludes

An occurrence is excluded from what is read where an exclusion of the series names its wall clock and no other event
reads as an override at that wall clock.
-/

namespace SyncEngine
namespace Ical

open Fallible (bind_eq_ok)

variable {windowsToIana : Text → Option Text} {vevent : Component} {seriesStart : CalendarDateTime} {key : LocalDateTime}
  {event event' : Event}

def reading (windowsToIana : Text → Option Text) (seriesStart : CalendarDateTime) (vevent : Component) :
    Option (LocalDateTime × OverridePatch) :=
  match recurrenceIdOf windowsToIana vevent, overridePatch windowsToIana vevent with
  | .ok (some recurrenceId), .ok patch => some (overrideKey recurrenceId seriesStart, patch)
  | _, _ => none

def Event.Excludes (event : Event) (key : LocalDateTime) : Prop :=
  event.recurrence.bind (fun recurrence => recurrence.overrides.get? key) = some .excluded

def Names (windowsToIana : Text → Option Text) (seriesStart : CalendarDateTime) (vevent : Component)
    (key : LocalDateTime) : Prop :=
  ∃ line ∈ vevent.allProperties "EXDATE".toList, ∃ value ∈ parseDateTimeList windowsToIana line,
    overrideKey value seriesStart = key

/-! ## Folding -/

theorem foldOverride_eq_ok_iff : foldOverride windowsToIana event vevent = .ok event' ↔
    ∃ key patch, reading windowsToIana event.start vevent = some (key, patch) ∧
      event' = event.withOverride key patch := by
  unfold foldOverride reading
  cases hid : recurrenceIdOf windowsToIana vevent with
  | error e => simp [bind, Except.bind]
  | ok recurrenceId =>
    cases recurrenceId with
    | none => simp [bind, Except.bind, throw, throwThe, MonadExceptOf.throw]
    | some recurrenceId =>
      cases hpatch : overridePatch windowsToIana vevent with
      | error e => simp [bind, Except.bind]
      | ok patch =>
        constructor
        · intro h
          exact ⟨_, _, rfl, (Except.ok.inj h).symm⟩
        · rintro ⟨key, patch', h, rfl⟩
          obtain ⟨rfl, rfl⟩ := Prod.mk.inj (Option.some.inj h)
          rfl

theorem withOverride_excludes {patch : OverridePatch} {other : LocalDateTime} :
    (event.withOverride key patch).Excludes other ↔ other ≠ key ∧ event.Excludes other := by
  show ((event.recurrence.getD .none).overrides.put key (.patch patch)).get? other = some .excluded ↔ _
  rw [Keyed.get?_put]
  by_cases hkey : other = key
  · rw [if_pos hkey]
    simp [hkey]
  · rw [if_neg hkey]
    unfold Event.Excludes
    cases event.recurrence with
    | none => simp [hkey, EventRecurrence.none]
    | some recurrence => simp [hkey]

theorem foldVevents_start (representative index : Nat) (vevents : List Component) (event : Event) :
    (foldVevents windowsToIana representative index vevents event).start = event.start := by
  induction vevents generalizing index event with
  | nil => rfl
  | cons vevent rest ih =>
    unfold foldVevents
    by_cases hrepresentative : index = representative
    · rw [if_pos hrepresentative]
      exact ih _ _
    · rw [if_neg hrepresentative]
      cases hfold : foldOverride windowsToIana event vevent with
      | error e => exact ih _ _
      | ok next =>
        obtain ⟨k, patch, -, rfl⟩ := foldOverride_eq_ok_iff.mp hfold
        exact ih _ _

theorem foldVevents_excludes {representative index : Nat} {vevents : List Component} :
    (foldVevents windowsToIana representative index vevents event).Excludes key ↔ event.Excludes key ∧
      ∀ i vevent, vevents[i]? = some vevent → index + i ≠ representative →
        ∀ patch, reading windowsToIana event.start vevent ≠ some (key, patch) := by
  induction vevents generalizing index event with
  | nil => simp [foldVevents]
  | cons vevent rest ih =>
    -- the first event, and those after it
    have hsplit : (∀ i v, (vevent :: rest)[i]? = some v → index + i ≠ representative →
          ∀ patch, reading windowsToIana event.start v ≠ some (key, patch)) ↔
        (index ≠ representative → ∀ patch, reading windowsToIana event.start vevent ≠ some (key, patch)) ∧
          ∀ i v, rest[i]? = some v → index + 1 + i ≠ representative →
            ∀ patch, reading windowsToIana event.start v ≠ some (key, patch) := by
      constructor
      · intro h
        refine ⟨h 0 vevent rfl, fun i v hv hne => h (i + 1) v hv (by omega)⟩
      · rintro ⟨hfirst, hrest⟩ i v hv hne
        cases i with
        | zero =>
          obtain rfl := Option.some.inj hv
          exact hfirst hne
        | succ i => exact hrest i v hv (by omega)
    rw [hsplit]
    unfold foldVevents
    by_cases hrepresentative : index = representative
    · rw [if_pos hrepresentative, ih]
      simp [hrepresentative]
    · rw [if_neg hrepresentative]
      cases hfold : foldOverride windowsToIana event vevent with
      | error e =>
        have hnone : ∀ patch, reading windowsToIana event.start vevent ≠ some (key, patch) := by
          intro patch hreading
          have hok := foldOverride_eq_ok_iff.mpr ⟨key, patch, hreading, rfl⟩
          rw [hfold] at hok
          exact nomatch hok
        show (foldVevents windowsToIana representative (index + 1) rest event).Excludes key ↔ _
        rw [ih]
        simp [hrepresentative, hnone]
      | ok next =>
        obtain ⟨k, patch, hreading, rfl⟩ := foldOverride_eq_ok_iff.mp hfold
        show (foldVevents windowsToIana representative (index + 1) rest (event.withOverride k patch)).Excludes key ↔ _
        have hstart : (event.withOverride k patch).start = event.start := rfl
        have hfirst : (∀ patch', reading windowsToIana event.start vevent ≠ some (key, patch')) ↔ key ≠ k := by
          rw [hreading]
          constructor
          · rintro h rfl
            exact h patch rfl
          · intro hne patch' h
            exact hne (Prod.mk.inj (Option.some.inj h)).1.symm
        rw [ih, withOverride_excludes, hstart, hfirst]
        simp only [ne_eq, hrepresentative, not_false_eq_true, forall_const]
        tauto

/-! ## Exclusions -/

theorem get?_foldl_excluded (values : List CalendarDateTime) (overrides : Keyed LocalDateTime RecurrenceOverride) :
    (values.foldl (fun overrides value => overrides.put (overrideKey value seriesStart) .excluded) overrides).get? key =
        some .excluded ↔
      overrides.get? key = some .excluded ∨ ∃ value ∈ values, overrideKey value seriesStart = key := by
  induction values generalizing overrides with
  | nil => simp
  | cons value values ih =>
    rw [List.foldl_cons, ih, Keyed.get?_put]
    by_cases hkey : key = overrideKey value seriesStart
    · rw [if_pos hkey]
      simp [hkey]
    · rw [if_neg hkey]
      simp [Ne.symm hkey]

theorem parseRecurrence_excludes :
    (parseRecurrence windowsToIana vevent seriesStart).bind (fun recurrence => recurrence.overrides.get? key) =
      some .excluded ↔ Names windowsToIana seriesStart vevent key := by
  have hnames : Names windowsToIana seriesStart vevent key ↔
      ∃ value ∈ (vevent.allProperties "EXDATE".toList).flatMap (parseDateTimeList windowsToIana),
        overrideKey value seriesStart = key := by
    unfold Names
    simp only [List.mem_flatMap]
    constructor
    · rintro ⟨line, hline, value, hvalue, h⟩
      exact ⟨value, ⟨line, hline, hvalue⟩, h⟩
    · rintro ⟨value, ⟨line, hline, hvalue⟩, h⟩
      exact ⟨line, hline, value, hvalue, h⟩
  have hget := @get?_foldl_excluded seriesStart key
    ((vevent.allProperties "EXDATE".toList).flatMap (parseDateTimeList windowsToIana)) Keyed.empty
  rw [Keyed.get?_empty] at hget
  rw [hnames]
  unfold parseRecurrence
  dsimp only
  split
  · rename_i hempty
    rw [Bool.and_eq_true] at hempty
    have hnone := List.isEmpty_iff.mp hempty.2
    rw [Keyed.get?, hnone] at hget
    simpa using hget
  · simpa using hget

/-! ## The event read -/

/-- The exclusions of the series name the occurrence's wall clock, and no other event reads as an override there. -/
def StaysOut (windowsToIana : Text → Option Text) (vevents : List Component) (representative : Nat)
    (occurrence : CalendarDateTime) : Prop :=
  ∃ master seriesStart, vevents[representative]? = some master ∧ parseStart windowsToIana master = .ok seriesStart ∧
    Names windowsToIana seriesStart master (overrideKey occurrence seriesStart) ∧
    ∀ i vevent, vevents[i]? = some vevent → i ≠ representative →
      ∀ patch, reading windowsToIana seriesStart vevent ≠ some (overrideKey occurrence seriesStart, patch)

theorem recurrenceIdOf_of_master (h : isMaster vevent = true) : recurrenceIdOf windowsToIana vevent = .ok none := by
  unfold recurrenceIdOf timeOf
  unfold isMaster at h
  rw [Option.isNone_iff_eq_none.mp h]

theorem recurrenceIdOf_of_override {recurrenceId : Option CalendarDateTime} (h : isMaster vevent = false)
    (hread : recurrenceIdOf windowsToIana vevent = .ok recurrenceId) : recurrenceId.isSome = true := by
  unfold recurrenceIdOf timeOf at hread
  unfold isMaster at h
  cases hline : vevent.property "RECURRENCE-ID".toList with
  | none =>
    rw [hline] at h
    exact nomatch h
  | some line =>
    rw [hline] at hread
    cases hvalue : parseCalendarDateTime windowsToIana line with
    | error e =>
      have herror : (parseCalendarDateTime windowsToIana line).map some = .ok recurrenceId := hread
      rw [hvalue] at herror
      exact nomatch herror
    | ok value =>
      have hok : (parseCalendarDateTime windowsToIana line).map some = .ok recurrenceId := hread
      rw [hvalue] at hok
      rw [← Except.ok.inj hok]
      rfl

theorem eventFromVevent_eq_ok (h : eventFromVevent windowsToIana vevent = .ok event) :
    parseStart windowsToIana vevent = .ok event.start ∧ recurrenceIdOf windowsToIana vevent = .ok event.recurrenceId ∧
      event.recurrence = if event.recurrenceId.isNone then parseRecurrence windowsToIana vevent event.start else none := by
  unfold eventFromVevent at h
  obtain ⟨uid, -, h⟩ := bind_eq_ok.mp h
  obtain ⟨start, hstart, h⟩ := bind_eq_ok.mp h
  obtain ⟨duration, -, h⟩ := bind_eq_ok.mp h
  obtain ⟨recurrenceId, hid, h⟩ := bind_eq_ok.mp h
  obtain ⟨created, -, h⟩ := bind_eq_ok.mp h
  obtain ⟨updated, -, h⟩ := bind_eq_ok.mp h
  obtain rfl := Except.ok.inj h
  exact ⟨hstart, hid, rfl⟩

theorem parseCalendarObject_excludes {text : Text} {occurrence : CalendarDateTime}
    (h : parseCalendarObject windowsToIana text = .ok event) :
    event.Excludes (overrideKey occurrence event.start) ↔
      ∃ vevents representative, resourceComponents (parseComponents text) = .ok (vevents, some representative) ∧
        StaysOut windowsToIana vevents representative occurrence := by
  unfold parseCalendarObject at h
  obtain ⟨⟨vevents, master⟩, hresource, h⟩ := bind_eq_ok.mp h
  dsimp only at h
  cases hvevent : vevents[master.getD 0]? with
  | none =>
    rw [hvevent] at h
    exact nomatch h
  | some vevent =>
    rw [hvevent] at h
    obtain ⟨event₀, hevent, h⟩ := bind_eq_ok.mp h
    obtain rfl := Except.ok.inj h
    obtain ⟨hstart, hid, hrecurrence⟩ := eventFromVevent_eq_ok hevent
    have hfind : master = vevents.findIdx? isMaster := by
      unfold resourceComponents at hresource
      cases hall : collectVevents (parseComponents text) with
      | nil =>
        rw [hall] at hresource
        exact nomatch hresource
      | cons first rest =>
        rw [hall] at hresource
        obtain ⟨uid, -, hresource⟩ := bind_eq_ok.mp hresource
        obtain ⟨rfl, rfl⟩ := Prod.mk.inj (Except.ok.inj hresource)
        rfl
    cases master with
    | none =>
      -- an override on its own has no exclusions
      have hover : isMaster vevent = false :=
        List.findIdx?_eq_none_iff.mp hfind.symm vevent (List.mem_of_getElem? hvevent)
      have hnone : event₀.recurrence = none := by
        rw [hrecurrence, if_neg]
        rw [Option.isNone_iff_eq_none]
        intro hnone
        have hsome := recurrenceIdOf_of_override hover hid
        rw [hnone] at hsome
        exact nomatch hsome
      constructor
      · intro hexcludes
        have hexcludes' : event₀.Excludes (overrideKey occurrence event₀.start) := hexcludes
        unfold Event.Excludes at hexcludes'
        rw [hnone] at hexcludes'
        exact nomatch hexcludes'
      · rintro ⟨vevents', representative, hresource', -⟩
        rw [hresource] at hresource'
        exact nomatch (Prod.mk.inj (Except.ok.inj hresource')).2
    | some representative =>
      have hvevent' : vevents[representative]? = some vevent := hvevent
      have hmaster : isMaster vevent = true := by
        obtain ⟨hlt, hfound, -⟩ := List.findIdx?_eq_some_iff_getElem.mp hfind.symm
        rw [List.getElem?_eq_getElem hlt] at hvevent'
        rw [← Option.some.inj hvevent']
        exact hfound
      have hseries : event₀.Excludes (overrideKey occurrence event₀.start) ↔
          Names windowsToIana event₀.start vevent (overrideKey occurrence event₀.start) := by
        have hnone : event₀.recurrenceId = none := by
          rw [recurrenceIdOf_of_master hmaster] at hid
          exact (Except.ok.inj hid).symm
        unfold Event.Excludes
        rw [hrecurrence, hnone]
        exact parseRecurrence_excludes
      show (foldVevents windowsToIana representative 0 vevents event₀).Excludes
        (overrideKey occurrence (foldVevents windowsToIana representative 0 vevents event₀).start) ↔ _
      rw [foldVevents_start, foldVevents_excludes, hseries]
      constructor
      · rintro ⟨hnames, hothers⟩
        refine ⟨vevents, representative, hresource, vevent, event₀.start, hvevent', hstart, hnames, ?_⟩
        intro i v hv hne
        exact hothers i v hv (by omega)
      · rintro ⟨vevents', representative', hresource', master, start, hat, hread, hnames, hothers⟩
        rw [hresource] at hresource'
        obtain ⟨rfl, hrep⟩ := Prod.mk.inj (Except.ok.inj hresource')
        obtain rfl := Option.some.inj hrep
        rw [hvevent'] at hat
        obtain rfl := Option.some.inj hat
        rw [hstart] at hread
        obtain rfl := Except.ok.inj hread
        refine ⟨hnames, ?_⟩
        intro i v hv hne
        exact hothers i v hv (by omega)

end Ical

namespace Ical

/-!
## The bookkeeping of a revision

`DTSTAMP`, `LAST-MODIFIED` and `SEQUENCE` decide nothing about which occurrences are excluded: two lists of lines that
differ in these alone exclude the same.
-/

open Fallible (bind_eq_ok)

def bookkeeping : List Text := ["DTSTAMP".toList, "LAST-MODIFIED".toList, "SEQUENCE".toList]

def isOther (line : ContentLine) : Bool := !bookkeeping.any (eqIgnoreCase line.name)

variable {windowsToIana : Text → Option Text} {a b : Component} {vevents vevents' : List Component}
  {occurrence : CalendarDateTime}

theorem isOther_of_name {name : Text} (hname : bookkeeping.any (fun other => upper name = upper other) = false)
    (line : ContentLine) (h : eqIgnoreCase line.name name = true) : isOther line = true := by
  have hupper : upper line.name = upper name := of_decide_eq_true h
  have hnone : bookkeeping.any (eqIgnoreCase line.name) = false := by
    rw [← hname]
    unfold eqIgnoreCase
    rw [hupper]
  unfold isOther
  rw [hnone]
  rfl

theorem structural_isOther : Structural isOther := by
  intro line hline
  constructor
  · intro hbegin
    have hother : isOther line = true := @isOther_of_name "BEGIN".toList (by decide) line (by rw [hbegin]; decide)
    rw [hother] at hline
    exact nomatch hline
  · intro hend
    have hother : isOther line = true := @isOther_of_name "END".toList (by decide) line (by rw [hend]; decide)
    rw [hother] at hline
    exact nomatch hline

namespace Alike

variable (h : Alike isOther a b)
include h

theorem property_eq {name : Text} (hname : bookkeeping.any (fun other => upper name = upper other) = false) :
    a.property name = b.property name := h.property (isOther_of_name hname)

theorem value_eq {name : Text} (hname : bookkeeping.any (fun other => upper name = upper other) = false) :
    a.value name = b.value name := by
  unfold Component.value
  rw [h.property_eq hname]

theorem timeOf_eq {name : Text} (hname : bookkeeping.any (fun other => upper name = upper other) = false) :
    timeOf windowsToIana a name = timeOf windowsToIana b name := by
  unfold timeOf
  rw [h.property_eq hname]

theorem isMaster_eq : isMaster a = isMaster b := by
  unfold isMaster
  rw [h.property_eq (by decide)]

theorem hasUid_eq (uid : Text) : hasUid uid a = hasUid uid b := by
  unfold hasUid veventUid
  rw [h.value_eq (by decide)]

theorem veventUid_eq : veventUid a = veventUid b := by
  unfold veventUid
  rw [h.value_eq (by decide)]

theorem parseStart_eq : parseStart windowsToIana a = parseStart windowsToIana b := by
  unfold parseStart
  rw [h.timeOf_eq (by decide)]

theorem overrideTimes_eq : overrideTimes windowsToIana a = overrideTimes windowsToIana b := by
  unfold overrideTimes overrideDuration
  rw [h.timeOf_eq (by decide), h.timeOf_eq (by decide), h.value_eq (by decide)]

theorem reading_eq (seriesStart : CalendarDateTime) :
    reading windowsToIana seriesStart a = reading windowsToIana seriesStart b := by
  unfold reading recurrenceIdOf overridePatch isCancelled
  rw [h.timeOf_eq (by decide), h.overrideTimes_eq, h.value_eq (by decide), h.value_eq (by decide), h.value_eq (by decide),
    h.value_eq (by decide)]

theorem names_iff {seriesStart : CalendarDateTime} {key : LocalDateTime} :
    Names windowsToIana seriesStart a key ↔ Names windowsToIana seriesStart b key := by
  unfold Names
  rw [h.allProperties (isOther_of_name (by decide))]

end Alike

/-! ## Resources -/

theorem getElem?_alike (h : List.Forall₂ (Alike isOther) vevents vevents') {i : Nat} :
    (∀ v, vevents[i]? = some v → ∃ v', vevents'[i]? = some v' ∧ Alike isOther v v') ∧
      ∀ v', vevents'[i]? = some v' → ∃ v, vevents[i]? = some v ∧ Alike isOther v v' := by
  induction h generalizing i with
  | nil => simp
  | cons hv _ ih =>
    cases i with
    | zero =>
      constructor
      · intro v h
        obtain rfl := Option.some.inj h
        exact ⟨_, rfl, hv⟩
      · intro v' h
        obtain rfl := Option.some.inj h
        exact ⟨_, rfl, hv⟩
    | succ i => exact ih

theorem filter_alike {p : Component → Bool} (hp : ∀ v v', Alike isOther v v' → p v = p v')
    (h : List.Forall₂ (Alike isOther) vevents vevents') :
    List.Forall₂ (Alike isOther) (vevents.filter p) (vevents'.filter p) := by
  induction h with
  | nil => exact .nil
  | cons hv _ ih =>
    rw [List.filter_cons, List.filter_cons, hp _ _ hv]
    split
    · exact .cons hv ih
    · exact ih

theorem findIdx?_alike (h : List.Forall₂ (Alike isOther) vevents vevents') :
    vevents.findIdx? isMaster = vevents'.findIdx? isMaster := by
  induction h with
  | nil => rfl
  | cons hv _ ih => rw [List.findIdx?_cons, List.findIdx?_cons, hv.isMaster_eq, ih]

theorem staysOut_alike (h : List.Forall₂ (Alike isOther) vevents vevents') {representative : Nat} :
    StaysOut windowsToIana vevents representative occurrence ↔
      StaysOut windowsToIana vevents' representative occurrence := by
  constructor
  · rintro ⟨master, start, hat, hstart, hnames, hothers⟩
    obtain ⟨master', hat', halike⟩ := (getElem?_alike h).1 master hat
    refine ⟨master', start, hat', halike.parseStart_eq ▸ hstart, halike.names_iff.mp hnames, ?_⟩
    intro i v' hv' hne patch
    obtain ⟨v, hv, halike'⟩ := (getElem?_alike h).2 v' hv'
    rw [← halike'.reading_eq]
    exact hothers i v hv hne patch
  · rintro ⟨master', start, hat', hstart, hnames, hothers⟩
    obtain ⟨master, hat, halike⟩ := (getElem?_alike h).2 master' hat'
    refine ⟨master, start, hat, halike.parseStart_eq ▸ hstart, halike.names_iff.mpr hnames, ?_⟩
    intro i v hv hne patch
    obtain ⟨v', hv', halike'⟩ := (getElem?_alike h).1 v hv
    rw [halike'.reading_eq]
    exact hothers i v' hv' hne patch

def LeavesOut (windowsToIana : Text → Option Text) (lines : List ContentLine) (occurrence : CalendarDateTime) : Prop :=
  ∃ vevents representative, resourceComponents (components lines) = .ok (vevents, some representative) ∧
    StaysOut windowsToIana vevents representative occurrence

theorem resourceComponents_alike {roots roots' : List Component} {representative : Nat}
    (h : List.Forall₂ (AlikeInside isOther) roots roots') :
    (∃ vevents, resourceComponents roots = .ok (vevents, some representative) ∧
        StaysOut windowsToIana vevents representative occurrence) ↔
      ∃ vevents', resourceComponents roots' = .ok (vevents', some representative) ∧
        StaysOut windowsToIana vevents' representative occurrence := by
  have hall := collectVevents_alike h
  unfold resourceComponents
  generalize collectVevents roots = l at hall
  generalize collectVevents roots' = l' at hall
  cases hall with
  | nil => rfl
  | @cons first first' rest rest' hfirst hrest =>
    dsimp only
    rw [hfirst.veventUid_eq]
    cases huid : veventUid first' with
    | error e => simp [bind, Except.bind]
    | ok uid =>
      have hfiltered : List.Forall₂ (Alike isOther) ((first :: rest).filter (hasUid uid))
          ((first' :: rest').filter (hasUid uid)) := filter_alike (fun _ _ hv => hv.hasUid_eq uid) (.cons hfirst hrest)
      have hplace : ((first :: rest).filter (hasUid uid)).findIdx? isMaster =
          ((first' :: rest').filter (hasUid uid)).findIdx? isMaster := findIdx?_alike hfiltered
      constructor
      · rintro ⟨vevents, hok, hstays⟩
        obtain ⟨rfl, hrep⟩ := Prod.mk.inj (Except.ok.inj hok)
        refine ⟨_, ?_, (staysOut_alike hfiltered).mp hstays⟩
        rw [← hrep, hplace]
        rfl
      · rintro ⟨vevents, hok, hstays⟩
        obtain ⟨rfl, hrep⟩ := Prod.mk.inj (Except.ok.inj hok)
        refine ⟨_, ?_, (staysOut_alike hfiltered).mpr hstays⟩
        rw [← hrep, ← hplace]
        rfl

theorem leavesOut_congr {lines lines' : List ContentLine} (h : lines.filter isOther = lines'.filter isOther) :
    LeavesOut windowsToIana lines occurrence ↔ LeavesOut windowsToIana lines' occurrence := by
  obtain ⟨filtered, hlines, hlines'⟩ := components_alike structural_isOther h
  unfold LeavesOut
  rw [exists_comm, @exists_comm (List Component)]
  constructor
  · rintro ⟨representative, hleaves⟩
    exact ⟨representative, (resourceComponents_alike hlines').mpr ((resourceComponents_alike hlines).mp hleaves)⟩
  · rintro ⟨representative, hleaves⟩
    exact ⟨representative, (resourceComponents_alike hlines).mpr ((resourceComponents_alike hlines').mp hleaves)⟩

end Ical
end SyncEngine
