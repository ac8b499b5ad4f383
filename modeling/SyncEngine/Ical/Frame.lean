import SyncEngine.Ical.Plan
import SyncEngine.Library.Fallible

/-!
# An edit touches its own lines only

The lines an edit may touch are those of the properties it names, directly inside the event it is for, and of an
override that goes with a rule or an occurrence.  Every other physical line stands in the result as it was, in place.
-/

namespace SyncEngine
namespace Ical

open Fallible (bind_eq_ok)

variable {ρ κ β : Type}

/-- The texts stand in another, whole and one after the other. -/
def InOrder (lines : List Text) (text : Text) : Prop :=
  ∃ pieces : List Text, lines.Sublist pieces ∧ pieces.flatten = text

/-! ## What may be touched -/

def openStep (doc : Document) (stack : List Text) (i : Nat) : List Text :=
  if upper (propertyName (doc.logical i)) = "BEGIN".toList then componentName (doc.logical i) :: stack
  else if upper (propertyName (doc.logical i)) = "END".toList then stack.tail
  else stack

def openComponents (doc : Document) (index : Nat) : List Text :=
  (List.range index).foldl (openStep doc) []

def Vevent.directly (doc : Document) (vevent : Vevent) (index : Nat) : Bool :=
  vevent.start < index && index < vevent.finish &&
    (openComponents doc index).head? = some "VEVENT".toList

def Vevent.isProperty (doc : Document) (vevent : Vevent) (names : List Text) (index : Nat) : Bool :=
  vevent.directly doc index && isNamed doc names index

def whenever (condition : Bool) (names : List Text) : List Text := if condition then names else []

/-- The properties a patch of one event rewrites, by what it sets. -/
def touchedBy (patch : EventPatch ρ κ) : List (List Text) :=
  [["DTSTAMP".toList, "LAST-MODIFIED".toList],
    whenever patch.isSignificant ["SEQUENCE".toList],
    whenever patch.start.isSome ["DTSTART".toList],
    whenever patch.finish.isSome ["DTEND".toList, "DURATION".toList],
    whenever patch.summary.isSome ["SUMMARY".toList],
    whenever (patch.description.isSome || patch.conference.isSome) ["DESCRIPTION".toList],
    whenever (patch.location.isSome || patch.conference.isSome) ["LOCATION".toList],
    whenever patch.conference.isSome meetingProperties,
    whenever patch.invitees.isSome ["ATTENDEE".toList]]

def touchedNames (patch : EventPatch ρ κ) : List Text := (touchedBy patch).flatten

def ruleNames (patch : EventPatch ρ κ) : List Text :=
  match patch.recurrence with
  | none => []
  | some (.set _) => ["RRULE".toList]
  | some .clear => ["RRULE".toList, "RDATE".toList, "EXDATE".toList, "EXRULE".toList]

def EventPatch.clearsRule (patch : EventPatch ρ κ) : Bool :=
  match patch.recurrence with
  | some .clear => true
  | _ => false

def patchTouches (o : Outside ρ κ β) (doc : Document) (resource : Resource) (target : PatchTarget)
    (patch : EventPatch ρ κ) (index : Nat) : Bool :=
  match target with
  | .series =>
    (match resource.master doc with
      | .ok master => master.isProperty doc (touchedNames patch ++ ruleNames patch) index
      | .error _ => false) ||
    (patch.clearsRule && (resource.overrides doc).any fun vevent => vevent.groups.contains index)
  | .instance_ recurrenceId =>
    match resource.overrideFor o.windowsToIana doc recurrenceId with
    | some existing => existing.isProperty doc (touchedNames patch) index
    | none => false

def excludeTouches (o : Outside ρ κ β) (doc : Document) (resource : Resource)
    (occurrence : CalendarDateTime) (index : Nat) : Bool :=
  (match resource.master doc with
    | .ok master =>
      master.isProperty doc ["DTSTAMP".toList, "LAST-MODIFIED".toList, "SEQUENCE".toList] index
    | .error _ => false) ||
  (resource.overrideFor o.windowsToIana doc occurrence).any fun vevent => vevent.groups.contains index

def keptLines (doc : Document) (touched : Nat → Bool) : List Text :=
  ((List.range doc.len).filter fun i => !touched i).flatMap fun i =>
    (doc.group i).map PhysicalLine.text

/-! ## Rendering -/

/-- Edits that leave the lines outside some as they are. -/
def Edits.Within (touched : Nat → Bool) (edits : Edits) : Prop :=
  ∀ i, touched i = false → (edits i).line = .keep

theorem sublist_flatMap_filter {α : Type} {p : α → Bool} {f g : α → List Text}
    (h : ∀ a, p a = true → (f a).Sublist (g a)) (l : List α) :
    ((l.filter p).flatMap f).Sublist (l.flatMap g) := by
  induction l with
  | nil => exact List.Sublist.refl _
  | cons a l ih =>
    by_cases ha : p a = true
    · rw [List.filter_cons_of_pos ha, List.flatMap_cons, List.flatMap_cons]
      exact (h a ha).append ih
    · rw [List.filter_cons_of_neg ha, List.flatMap_cons]
      exact ih.trans (List.sublist_append_right _ _)

variable {doc : Document} {edits : Edits}

/-- What the edits make of a group, in pieces: the text put before it and its lines. -/
def Document.pieces (doc : Document) (edits : Edits) (i : Nat) : List Text :=
  (edits i).before ::
    match (edits i).line with
    | .keep => (doc.group i).map PhysicalLine.text
    | .replace text => [doc.fold i text]
    | .remove => []

theorem keptLines_render {touched : Nat → Bool}
    (h : edits.Within touched) : InOrder (keptLines doc touched) (doc.render edits) := by
  refine ⟨(List.range doc.len).flatMap (doc.pieces edits), ?_, ?_⟩
  · apply sublist_flatMap_filter
    intro i hi
    have hkeep : (edits i).line = .keep := h i (by simpa using hi)
    unfold Document.pieces
    rw [hkeep]
    exact List.sublist_cons_self _ _
  · have hpiece : ∀ i, (doc.pieces edits i).flatten = doc.renderGroup edits i := by
      intro i
      unfold Document.renderGroup Document.pieces
      rw [List.flatten_cons]
      cases (edits i).line with
      | keep => rw [List.flatMap_def]
      | replace text => simp
      | remove => simp
    rw [Document.render_eq, ← List.flatMap_id, List.flatMap_assoc]
    apply List.flatMap_congr
    intro i _
    rw [List.flatMap_id]
    exact hpiece i

/-! ## Edits -/

namespace Edits

variable {touched : Nat → Bool} {edits : Edits}

theorem within_empty (touched : Nat → Bool) : Edits.empty.Within touched := fun _ _ => rfl

theorem Within.setLine (h : edits.Within touched) {index : Nat} (hindex : touched index = true)
    (line : LineEdit) : (edits.setLine index line).Within touched := by
  intro i hi
  have hne : i ≠ index := by
    intro e
    rw [e, hindex] at hi
    cases hi
  unfold Edits.setLine
  rw [Function.update_of_ne hne]
  exact h i hi

theorem Within.spliceBefore (h : edits.Within touched) (index : Nat) (text : Text) :
    (edits.spliceBefore index text).Within touched := by
  intro i hi
  unfold Edits.spliceBefore
  by_cases e : i = index
  · subst e
    rw [Function.update_self]
    exact h i hi
  · rw [Function.update_of_ne e]
    exact h i hi

theorem Within.removeAll (h : edits.Within touched) {indices : List Nat}
    (hindices : ∀ i ∈ indices, touched i = true) : (indices.foldl Edits.remove edits).Within touched := by
  induction indices generalizing edits with
  | nil => exact h
  | cons i indices ih =>
    exact ih (h.setLine (hindices i List.mem_cons_self) .remove) fun j hj => hindices j (List.mem_cons_of_mem i hj)

end Edits

theorem isNamed_iff {names : List Text} {index : Nat} : isNamed doc names index = true ↔
      ∃ name ∈ names, eqIgnoreCase (propertyName (doc.logical index)) name = true := by
  unfold isNamed
  exact List.any_eq_true

section Planning

variable {doc : Document} {vevent : Vevent} {names : List Text} {touched : Nat → Bool}
  {edits edits' : Edits}

variable {name : Text} {group : Nat}

/-- The component's own lines of these names are touched. -/
def Vevent.Covered (vevent : Vevent) (doc : Document) (names : List Text) (touched : Nat → Bool) : Prop :=
  ∀ g ∈ vevent.own, isNamed doc names g = true → touched g = true

theorem Vevent.property_touched (hown : vevent.Covered doc names touched)
    (hname : name ∈ names) (h : vevent.property doc name = some group) :
    touched group = true :=
  hown group (List.mem_of_find?_eq_some h) (isNamed_iff.mpr ⟨name, hname, by simpa using List.find?_some h⟩)

theorem Edits.Within.insert (h : edits.Within touched) (line : Text) :
    (insert doc vevent edits line).Within touched := h.spliceBefore _ _

theorem Edits.Within.setOrInsert (h : edits.Within touched) (hown : vevent.Covered doc names touched)
    (hname : name ∈ names) (value : Text) :
    (setOrInsert doc vevent edits name value).Within touched := by
  unfold Ical.setOrInsert
  cases hproperty : vevent.property doc name with
  | none => exact h.insert _
  | some group => exact h.setLine (Vevent.property_touched hown hname hproperty) _

theorem Edits.Within.setText (h : edits.Within touched) (hown : vevent.Covered doc names touched)
    (hname : name ∈ names) (value : TextEdit) :
    (setText doc vevent edits name value).Within touched := by
  unfold Ical.setText
  cases hproperty : vevent.property doc name with
  | none =>
    cases value with
    | set text => exact h.insert _
    | clear => exact h
  | some group =>
    have hgroup := Vevent.property_touched hown hname hproperty
    cases value with
    | set text => exact h.setLine hgroup _
    | clear => exact h.setLine hgroup _

theorem Edits.Within.setStart (h : edits.Within touched) (hown : vevent.Covered doc names touched)
    (hname : "DTSTART".toList ∈ names) (start : CalendarDateTime) :
    (setStart doc vevent edits start).Within touched := by
  unfold Ical.setStart
  cases hproperty : vevent.property doc "DTSTART".toList with
  | none => exact h
  | some group => exact h.setLine (Vevent.property_touched hown hname hproperty) _

theorem Edits.Within.setEnd (h : edits.Within touched) (hown : vevent.Covered doc names touched)
    (hdtend : "DTEND".toList ∈ names) (hduration : "DURATION".toList ∈ names)
    (finish : CalendarDateTime) : (setEnd doc vevent edits finish).Within touched := by
  unfold Ical.setEnd
  cases hend : vevent.property doc "DTEND".toList with
  | some group => exact h.setLine (Vevent.property_touched hown hdtend hend) _
  | none =>
    cases hlength : vevent.property doc "DURATION".toList with
    | some group => exact h.setLine (Vevent.property_touched hown hduration hlength) _
    | none => exact h.insert _

theorem Edits.Within.modified (h : edits.Within touched) (hown : vevent.Covered doc names touched)
    (hmodified : "LAST-MODIFIED".toList ∈ names) (stamp : UtcDateTime) :
    (match vevent.property doc "LAST-MODIFIED".toList with
      | some group => edits.replace group ("LAST-MODIFIED:".toList ++ formatUtc stamp)
      | none => edits).Within touched := by
  cases hproperty : vevent.property doc "LAST-MODIFIED".toList with
  | none => exact h
  | some group => exact h.setLine (Vevent.property_touched hown hmodified hproperty) _

theorem Edits.Within.revise (h : edits.Within touched) (hown : vevent.Covered doc names touched)
    (hstamp : "DTSTAMP".toList ∈ names) (hmodified : "LAST-MODIFIED".toList ∈ names)
    (stamp : UtcDateTime) {significant : Bool}
    (hsequence : significant = true → "SEQUENCE".toList ∈ names) :
    (revise doc vevent edits stamp significant).Within touched := by
  have hfirst := h.setOrInsert hown hstamp (formatUtc stamp)
  have hsecond := hfirst.modified hown hmodified stamp
  unfold Ical.revise
  cases significant with
  | false => exact hsecond
  | true => exact hsecond.setOrInsert hown (hsequence rfl) _

variable {α : Type}

theorem Edits.Within.onSome (h : edits.Within touched) (value : Option α) (f : Edits → α → Edits)
    (hf : ∀ a, value = some a → (f edits a).Within touched) :
    (onSome value f edits).Within touched := by
  unfold Ical.onSome
  cases value with
  | none => exact h
  | some a => exact hf a rfl

theorem foldlM_within {f : Edits → α → Except IcalError Edits}
    (hf : ∀ edits edits' a, edits.Within touched → f edits a = .ok edits' → edits'.Within touched)
    {l : List α} (h : edits.Within touched) (hfold : l.foldlM f edits = .ok edits') :
    edits'.Within touched := by
  induction l generalizing edits with
  | nil =>
    cases hfold
    exact h
  | cons a l ih =>
    rw [List.foldlM_cons] at hfold
    obtain ⟨next, hnext, hrest⟩ := bind_eq_ok.mp hfold
    exact ih (hf edits next a h hnext) hrest

theorem isNamed_of_isAttendee {address : Text}
    (hname : "ATTENDEE".toList ∈ names) (h : isAttendee doc address group = true) :
    isNamed doc names group = true := by
  unfold isAttendee at h
  rw [Bool.and_eq_true] at h
  exact isNamed_iff.mpr ⟨_, hname, h.1⟩

theorem Edits.Within.setInvitees (h : edits.Within touched) (hown : vevent.Covered doc names touched)
    (hname : "ATTENDEE".toList ∈ names) {patch : InviteePatch}
    (hset : setInvitees doc vevent edits patch = .ok edits') : edits'.Within touched := by
  obtain ⟨removed, hremoved, hupserted⟩ := bind_eq_ok.mp hset
  have hmiddle : removed.Within touched := by
    refine foldlM_within ?_ h hremoved
    intro edits edits' address hedits hstep
    unfold removeInvitee at hstep
    split at hstep
    · cases hstep
    · cases hstep
      apply hedits.removeAll
      intro i hi
      obtain ⟨hi, hattendee⟩ := List.mem_filter.mp hi
      exact hown i hi (isNamed_of_isAttendee hname hattendee)
  refine foldlM_within ?_ hmiddle hupserted
  intro edits edits' invitee hedits hstep
  unfold upsertInvitee at hstep
  split at hstep
  · cases hstep
  · split at hstep
    · rename_i group hfound
      cases hstep
      refine hedits.setLine (hown group (List.mem_of_find?_eq_some hfound) ?_) _
      exact isNamed_of_isAttendee hname (by simpa using List.find?_some hfound)
    · cases hstep
      exact hedits.insert _

theorem meetingLines_touched (hown : vevent.Covered doc names touched)
    (hnames : ∀ name ∈ meetingProperties, name ∈ names) {p : Text → Bool} :
    ∀ i ∈ meetingLines doc vevent p, touched i = true := by
  intro i hi
  obtain ⟨hi, hmeeting⟩ := List.mem_filter.mp hi
  rw [Bool.and_eq_true] at hmeeting
  obtain ⟨name, hname, heq⟩ := List.any_eq_true.mp hmeeting.1
  exact hown i hi (isNamed_iff.mpr ⟨name, hnames name hname, heq⟩)

variable {o : Outside ρ κ β} {patch : EventPatch ρ κ}

theorem planConference_touched {base : β} {edit : κ} {write : ConferenceWrite} (hown : vevent.Covered doc names touched)
    (hnames : ∀ name ∈ meetingProperties, name ∈ names)
    (h : planConference o doc vevent base patch edit = .ok write) :
    ∀ i ∈ write.remove, touched i = true := by
  obtain ⟨⟨description, location⟩, -, hrest⟩ := bind_eq_ok.mp h
  obtain ⟨adds, -, hwrite⟩ := bind_eq_ok.mp hrest
  have hremoved : ∀ i ∈ ((o.removes base edit).map (meetingLines doc vevent)).getD [], touched i = true := by
    cases o.removes base edit with
    | none => simp
    | some p => exact meetingLines_touched hown hnames
  cases adds with
  | none =>
    cases hwrite
    exact hremoved
  | some added =>
    cases hwrite
    intro i hi
    rcases List.mem_append.mp hi with hi | hi
    · exact hremoved i hi
    · exact meetingLines_touched hown hnames i hi

theorem foldl_insert_within (h : edits.Within touched) (lines : List Text) :
    (lines.foldl (insert doc vevent) edits).Within touched := by
  induction lines generalizing edits with
  | nil => exact h
  | cons line lines ih => exact ih (h.insert line)

omit doc vevent names touched edits edits' in
theorem mem_whenever {condition : Bool} {names : List Text} (h : condition = true)
    (hname : name ∈ names) : name ∈ whenever condition names := by
  rw [whenever, if_pos h]
  exact hname

omit doc vevent names touched edits edits' in
theorem mem_touchedNames (i : Nat) {entry : List Text}
    (hentry : (touchedBy patch)[i]? = some entry) (hname : name ∈ entry) :
    name ∈ touchedNames patch :=
  List.mem_flatten.mpr ⟨entry, List.mem_of_getElem? hentry, hname⟩

variable {conference : Option ConferenceWrite}

theorem planLines_within (h : edits.Within touched) (hnames : ∀ name ∈ touchedNames patch, name ∈ names)
    (hown : vevent.Covered doc names touched)
    (hmeeting : conference.isSome → patch.conference.isSome)
    (hremoved : ∀ write, conference = some write → ∀ i ∈ write.remove, touched i = true) :
    (planLines doc vevent patch conference edits).Within touched := by
  have hstart := h.onSome patch.start (setStart doc vevent) fun start hsome =>
    h.setStart hown (hnames _ (mem_touchedNames 2 rfl (mem_whenever (by rw [hsome]; rfl) List.mem_cons_self))) start
  have hfinish := hstart.onSome patch.finish (setEnd doc vevent) fun finish hsome =>
    hstart.setEnd hown (hnames _ (mem_touchedNames 3 rfl (mem_whenever (by rw [hsome]; rfl) List.mem_cons_self)))
      (hnames _ (mem_touchedNames 3 rfl (mem_whenever (by rw [hsome]; rfl)
        (List.mem_cons_of_mem _ List.mem_cons_self)))) finish
  have hsummary := hfinish.onSome patch.summary (fun edits text => setText doc vevent edits "SUMMARY".toList (.set text))
    fun text hsome => hfinish.setText hown (hnames _ (mem_touchedNames 4 rfl
      (mem_whenever (by rw [hsome]; rfl) List.mem_cons_self))) (.set text)
  -- a text the meeting decides is set only where the patch edits the meeting
  have hsource : ∀ {value : Option TextEdit} {part : ConferenceWrite → Option TextEdit},
      ((conference.bind part).or value).isSome →
      (value.isSome || patch.conference.isSome) = true := by
    intro value part hsome
    cases conference with
    | none => rw [Bool.or_eq_true]; exact .inl hsome
    | some write => rw [Bool.or_eq_true]; exact .inr (hmeeting rfl)
  have hdescription := hsummary.onSome ((conference.bind ConferenceWrite.description).or patch.description)
    (fun edits => setText doc vevent edits "DESCRIPTION".toList) fun text hsome =>
    hsummary.setText hown (hnames _ (mem_touchedNames 5 rfl (mem_whenever
      (hsource (by rw [hsome]; rfl)) List.mem_cons_self))) text
  have hlocation := hdescription.onSome ((conference.bind ConferenceWrite.location).or patch.location)
    (fun edits => setText doc vevent edits "LOCATION".toList) fun text hsome =>
    hdescription.setText hown (hnames _ (mem_touchedNames 6 rfl (mem_whenever
      (hsource (by rw [hsome]; rfl)) List.mem_cons_self))) text
  exact hlocation.onSome _ _ fun write hwrite =>
    foldl_insert_within (hlocation.removeAll (hremoved write hwrite)) write.insert

variable {base : Option β}

theorem conferenceOf_touched (hnames : ∀ name ∈ touchedNames patch, name ∈ names)
    (hown : vevent.Covered doc names touched)
    (h : conferenceOf o doc vevent base patch = .ok conference) :
    (conference.isSome → patch.conference.isSome) ∧
      ∀ write, conference = some write → ∀ i ∈ write.remove, touched i = true := by
  unfold conferenceOf at h
  split at h
  · rename_i base edit hedit
    cases hplan : planConference o doc vevent base patch edit with
    | error e =>
      rw [hplan] at h
      cases h
    | ok write =>
      rw [hplan] at h
      cases h
      refine ⟨fun _ => by rw [hedit]; rfl, ?_⟩
      intro write' hwrite'
      cases hwrite'
      refine planConference_touched hown (fun name hname => hnames name ?_) hplan
      exact mem_touchedNames 7 rfl (mem_whenever (by rw [hedit]; rfl) hname)
  · cases h
    constructor
    · intro h
      cases h
    · intro write h
      cases h

theorem plan_within (h : edits.Within touched) (hnames : ∀ name ∈ touchedNames patch, name ∈ names)
    (hown : vevent.Covered doc names touched)
    (hplan : plan o doc vevent patch base edits = .ok edits') : edits'.Within touched := by
  obtain ⟨-, -, hplan⟩ := bind_eq_ok.mp hplan
  obtain ⟨conference, hconference, hplan⟩ := bind_eq_ok.mp hplan
  obtain ⟨invited, hinvited, hrevised⟩ := bind_eq_ok.mp hplan
  cases hrevised
  obtain ⟨hmeeting, hremoved⟩ := conferenceOf_touched hnames hown hconference
  have hlines := planLines_within h hnames hown hmeeting hremoved
  have hinvitees : invited.Within touched := by
    unfold planInvitees at hinvited
    split at hinvited
    · rename_i invitees hsome
      refine hlines.setInvitees hown (hnames _ ?_) hinvited
      exact mem_touchedNames 8 rfl (mem_whenever (by rw [hsome]; rfl) List.mem_cons_self)
    · cases hinvited
      exact hlines
  have hstamp : "DTSTAMP".toList ∈ touchedNames patch := mem_touchedNames 0 rfl List.mem_cons_self
  have hmodified : "LAST-MODIFIED".toList ∈ touchedNames patch :=
    mem_touchedNames 0 rfl (List.mem_cons_of_mem _ List.mem_cons_self)
  refine hinvitees.revise hown (hnames _ hstamp) (hnames _ hmodified) patch.stamp ?_
  intro hsignificant
  exact hnames _ (mem_touchedNames 1 rfl (mem_whenever hsignificant List.mem_cons_self))

theorem removeNamed_within (h : edits.Within touched) {some_ : List Text} (hsome : ∀ name ∈ some_, name ∈ names)
    (hown : vevent.Covered doc names touched) :
    (removeNamed doc vevent some_ edits).Within touched := by
  apply h.removeAll
  intro i hi
  obtain ⟨hi, hnamed⟩ := List.mem_filter.mp hi
  obtain ⟨name, hname, heq⟩ := isNamed_iff.mp hnamed
  exact hown i hi (isNamed_iff.mpr ⟨name, hsome name hname, heq⟩)

theorem removeComponents_within (h : edits.Within touched) {vevents : List Vevent}
    (hvevents : ∀ v ∈ vevents, ∀ g ∈ v.groups, touched g = true) :
    (vevents.foldl removeComponent edits).Within touched := by
  induction vevents generalizing edits with
  | nil => exact h
  | cons v vevents ih =>
    exact ih (h.removeAll (hvevents v List.mem_cons_self)) fun v' hv' => hvevents v' (List.mem_cons_of_mem v hv')

variable {resource : Resource}

theorem setRecurrence_within (h : edits.Within touched) (hnames : ∀ name ∈ ruleNames patch, name ∈ names)
    (hown : vevent.Covered doc names touched)
    (hoverrides : patch.clearsRule = true → ∀ v ∈ resource.overrides doc, ∀ g ∈ v.groups, touched g = true)
    (hset : setRecurrence o doc vevent resource patch edits = .ok edits') :
    edits'.Within touched := by
  unfold setRecurrence at hset
  unfold ruleNames at hnames
  unfold EventPatch.clearsRule at hoverrides
  cases hedit : patch.recurrence with
  | none =>
    rw [hedit] at hset
    cases hset
    exact h
  | some edit =>
    rw [hedit] at hset hnames hoverrides
    obtain ⟨start, -, hset⟩ := bind_eq_ok.mp hset
    cases edit with
    | set recurrence =>
      obtain ⟨value, -, hset⟩ := bind_eq_ok.mp hset
      cases hproperty : vevent.property doc "RRULE".toList with
      | none =>
        rw [hproperty] at hset
        cases hset
        exact h.insert _
      | some group =>
        rw [hproperty] at hset
        cases hset
        exact h.setLine (Vevent.property_touched hown (hnames _ List.mem_cons_self) hproperty) _
    | clear =>
      cases hset
      refine removeComponents_within ?_ (hoverrides rfl)
      refine removeNamed_within (removeNamed_within h ?_ hown) ?_ hown
      · intro name hname
        exact hnames name (List.mem_append_left ["EXRULE".toList] hname)
      · intro name hname
        exact hnames name (List.mem_append_right ["RRULE".toList, "RDATE".toList, "EXDATE".toList] hname)

theorem exclude_within {occurrence : CalendarDateTime} {stamp : UtcDateTime} (h : edits.Within touched)
    (hown : vevent.Covered doc ["DTSTAMP".toList, "LAST-MODIFIED".toList, "SEQUENCE".toList] touched)
    (hoverride : ∀ v, resource.overrideFor o.windowsToIana doc occurrence = some v → ∀ g ∈ v.groups, touched g = true)
    (hexclude : exclude o doc vevent resource occurrence stamp edits = .ok edits') :
    edits'.Within touched := by
  unfold exclude at hexclude
  split at hexclude
  · obtain ⟨start, -, hexclude⟩ := bind_eq_ok.mp hexclude
    obtain ⟨-, -, hexclude⟩ := bind_eq_ok.mp hexclude
    cases hexclude
    have hinserted : (insert doc vevent edits (dateTimeLine "EXDATE".toList occurrence)).Within touched := h.insert _
    have hremoved := hinserted.onSome (resource.overrideFor o.windowsToIana doc occurrence)
      removeComponent fun v hv => hinserted.removeAll (hoverride v hv)
    exact hremoved.revise hown List.mem_cons_self (List.mem_cons_of_mem _ List.mem_cons_self) stamp
      fun _ => List.mem_cons_of_mem _ (List.mem_cons_of_mem _ List.mem_cons_self)
  · cases hexclude

end Planning

/-! ## The scan -/

section Scanning

variable {doc : Document}

theorem openComponents_succ (doc : Document) (n : Nat) :
    openComponents doc (n + 1) = openStep doc (openComponents doc n) n := by
  unfold openComponents
  rw [List.range_succ, List.foldl_append]
  rfl

/-- The scan after `n` lines: the lines an event owns stand directly inside it. -/
structure Scan.Inside (doc : Document) (n : Nat) (s : Scan) : Prop where
  stack : s.stack = openComponents doc n
  ended : ∀ v ∈ s.vevents, ∀ g ∈ v.own, v.directly doc g = true
  started : ∀ v, s.current = some v → v.start < n
  owned : ∀ v, s.current = some v → ∀ g ∈ v.own,
    v.start < g ∧ g < n ∧ (openComponents doc g).head? = some "VEVENT".toList

variable {n : Nat} {s : Scan} {component : Text}

theorem Scan.Inside.started_succ (h : s.Inside doc n) (v : Vevent) (hv : s.current = some v) : v.start < n + 1 :=
  Nat.lt_succ_of_lt (h.started v hv)

theorem Scan.Inside.owned_succ (h : s.Inside doc n) (v : Vevent) (hv : s.current = some v) (g : Nat) (hg : g ∈ v.own) :
    v.start < g ∧ g < n + 1 ∧ (openComponents doc g).head? = some "VEVENT".toList := by
  obtain ⟨hafter, hbefore, hinner⟩ := h.owned v hv g hg
  exact ⟨hafter, Nat.lt_succ_of_lt hbefore, hinner⟩

theorem Scan.Inside.onBegin (h : s.Inside doc n)
    (hstack : openComponents doc (n + 1) = component :: openComponents doc n) :
    (s.onBegin n component).Inside doc (n + 1) := by
  refine ⟨?_, h.ended, ?_, ?_⟩
  · rw [hstack, ← h.stack]
    rfl
  · intro v hv
    unfold Scan.onBegin at hv
    cases hcurrent : s.current with
    | none =>
      simp only [hcurrent] at hv
      split at hv
      · cases hv
        exact Nat.lt_succ_self n
      · cases hv
    | some u =>
      have hlt := h.started u hcurrent
      simp only [hcurrent, Option.some.injEq] at hv
      subst hv
      split
      · exact Nat.lt_succ_of_lt hlt
      · exact Nat.lt_succ_of_lt hlt
  · intro v hv g hg
    unfold Scan.onBegin at hv
    cases hcurrent : s.current with
    | none =>
      simp only [hcurrent] at hv
      split at hv
      · cases hv
        cases hg
      · cases hv
    | some u =>
      simp only [hcurrent, Option.some.injEq] at hv
      have hown : v.own = u.own := by
        rw [← hv]
        split <;> rfl
      have hstart : v.start = u.start := by
        rw [← hv]
        split <;> rfl
      rw [hown] at hg
      rw [hstart]
      exact h.owned_succ u hcurrent g hg

theorem Scan.Inside.onEnd (h : s.Inside doc n) (hstack : openComponents doc (n + 1) = (openComponents doc n).tail) :
    (s.onEnd n component).Inside doc (n + 1) := by
  have hopen : s.stack.tail = openComponents doc (n + 1) := by rw [hstack, ← h.stack]
  have hstarted := h.started_succ
  have howned := h.owned_succ
  unfold Scan.onEnd
  cases hcurrent : s.current with
  | none =>
    rw [hcurrent] at hstarted howned
    exact ⟨hopen, h.ended, hstarted, howned⟩
  | some u =>
    dsimp only
    by_cases hevent : component = "VEVENT".toList
    · rw [if_pos hevent]
      refine ⟨hopen, ?_, fun v hv => (nomatch hv), fun v hv => (nomatch hv)⟩
      intro v hv g hg
      rcases List.mem_append.mp hv with hv | hv
      · exact h.ended v hv g hg
      · have hv := List.mem_singleton.mp hv
        subst hv
        obtain ⟨hafter, hbefore, hinner⟩ := h.owned u hcurrent g hg
        unfold Vevent.directly
        simp [hafter, hbefore, hinner]
    · rw [if_neg hevent]
      rw [hcurrent] at hstarted howned
      exact ⟨hopen, h.ended, hstarted, howned⟩

theorem Scan.Inside.onProperty (h : s.Inside doc n) (hstack : openComponents doc (n + 1) = openComponents doc n) :
    (s.onProperty n).Inside doc (n + 1) := by
  have hopen : s.stack = openComponents doc (n + 1) := by rw [hstack, ← h.stack]
  have hstarted := h.started_succ
  have howned := h.owned_succ
  unfold Scan.onProperty
  cases hcurrent : s.current with
  | none =>
    dsimp only
    exact ⟨hopen, h.ended, hstarted, howned⟩
  | some u =>
    dsimp only
    by_cases hevent : s.stack.head? = some "VEVENT".toList
    · rw [if_pos hevent]
      refine ⟨hopen, h.ended, ?_, ?_⟩
      · intro v hv
        cases hv
        exact hstarted u hcurrent
      · intro v hv g hg
        cases hv
        rcases List.mem_append.mp hg with hg | hg
        · exact howned u hcurrent g hg
        · rw [List.mem_singleton.mp hg, ← h.stack]
          exact ⟨h.started u hcurrent, Nat.lt_succ_self n, hevent⟩
    · rw [if_neg hevent]
      exact ⟨hopen, h.ended, hstarted, howned⟩

theorem scan_inside (n : Nat) : ((List.range n).foldl (Scan.step doc) Scan.start).Inside doc n := by
  induction n with
  | zero => exact ⟨rfl, fun v hv => (nomatch hv), fun v hv => (nomatch hv), fun v hv => (nomatch hv)⟩
  | succ n ih =>
    rw [List.range_succ, List.foldl_append, List.foldl_cons, List.foldl_nil]
    have hsucc := openComponents_succ doc n
    unfold openStep at hsucc
    unfold Scan.step
    dsimp only
    split
    · rename_i hbegin
      rw [if_pos hbegin] at hsucc
      exact ih.onBegin hsucc
    · rename_i hbegin
      rw [if_neg hbegin] at hsucc
      split
      · rename_i hend
        rw [if_pos hend] at hsucc
        exact ih.onEnd hsucc
      · rename_i hend
        rw [if_neg hend] at hsucc
        exact ih.onProperty hsucc

theorem scan_own {resource : Resource} (h : scan doc = .ok resource) :
    ∀ v ∈ resource.vevents, ∀ g ∈ v.own, v.directly doc g = true := by
  unfold scan at h
  dsimp only at h
  split at h
  · cases h
  · cases h
    exact (scan_inside doc.len).ended

end Scanning

/-! ## Whole edits -/

variable {resource : Resource} {vevent : Vevent}

theorem Vevent.isProperty_of_own
    (hscan : scan doc = .ok resource) (hvevent : vevent ∈ resource.vevents) (names : List Text) :
    ∀ g ∈ vevent.own, isNamed doc names g = true → vevent.isProperty doc names g = true := by
  intro g hg hnamed
  unfold Vevent.isProperty
  rw [scan_own hscan vevent hvevent g hg, hnamed]
  rfl

theorem Resource.master_mem (h : resource.master doc = .ok vevent) : vevent ∈ resource.vevents := by
  unfold Resource.master at h
  split at h
  · rename_i found hfound
    cases h
    exact List.mem_of_find?_eq_some hfound
  · cases h

variable {text : Text}

theorem patchEdits_within {o : Outside ρ κ β}
    {target : PatchTarget} {patch : EventPatch ρ κ} (hscan : scan doc = .ok resource)
    (h : patchEdits o text doc resource target patch = .ok edits) :
    edits.Within (patchTouches o doc resource target patch) := by
  cases target with
  | series =>
    obtain ⟨master, hmaster, h⟩ := bind_eq_ok.mp h
    obtain ⟨base, -, h⟩ := bind_eq_ok.mp h
    obtain ⟨planned, hplanned, hrule⟩ := bind_eq_ok.mp h
    have hown : ∀ g ∈ master.own, isNamed doc (touchedNames patch ++ ruleNames patch) g = true →
          patchTouches o doc resource .series patch g = true := by
      intro g hg hnamed
      unfold patchTouches
      rw [hmaster, Bool.or_eq_true]
      exact .inl (Vevent.isProperty_of_own hscan (Resource.master_mem hmaster) _ g hg hnamed)
    have hplan := plan_within (Edits.within_empty _)
      (fun name hname => List.mem_append_left (ruleNames patch) hname) hown hplanned
    refine setRecurrence_within hplan (fun name hname => List.mem_append_right _ hname) hown ?_ hrule
    intro hclear v hv g hg
    unfold patchTouches
    rw [Bool.or_eq_true, Bool.and_eq_true]
    exact .inr ⟨hclear, List.any_eq_true.mpr ⟨v, hv, by simpa using hg⟩⟩
  | instance_ recurrenceId =>
    unfold patchEdits at h
    dsimp only at h
    split at h
    · cases h
    split at h
    · cases h
    split at h
    · cases h
    cases hoverride : resource.overrideFor o.windowsToIana doc recurrenceId with
    | some existing =>
      rw [hoverride] at h
      refine plan_within (Edits.within_empty _) (fun name hname => hname) ?_ h
      intro g hg hnamed
      have hmem : existing ∈ resource.vevents := List.mem_of_find?_eq_some hoverride
      unfold patchTouches
      dsimp only
      rw [hoverride]
      exact Vevent.isProperty_of_own hscan hmem _ g hg hnamed
    | none =>
      rw [hoverride] at h
      obtain ⟨master, -, h⟩ := bind_eq_ok.mp h
      obtain ⟨block, -, h⟩ := bind_eq_ok.mp h
      obtain ⟨index, -, h⟩ := bind_eq_ok.mp h
      cases h
      exact (Edits.within_empty _).spliceBefore index block

/-- A document without edits is its text, and every physical line an edit may not touch stands in the
edited document as it was. -/
theorem edit_keeps_other_lines (o : Outside ρ κ β) : (∀ raw, (Document.parse raw).render Edits.empty = raw) ∧
    (∀ text target patch out, patchEventIcal o text target patch = .ok out →
      ∃ resource, scan (Document.parse text) = .ok resource ∧ InOrder (keptLines (Document.parse text)
          (patchTouches o (Document.parse text) resource target patch)) out) ∧
    ∀ text occurrence stamp out, excludeOccurrenceIcal o text occurrence stamp = .ok out →
      ∃ resource, scan (Document.parse text) = .ok resource ∧ InOrder (keptLines (Document.parse text)
          (excludeTouches o (Document.parse text) resource occurrence)) out := by
  refine ⟨Document.render_parse, ?_, ?_⟩
  · intro text target patch out h
    obtain ⟨resource, hscan, h⟩ := bind_eq_ok.mp h
    obtain ⟨edits, hedits, h⟩ := bind_eq_ok.mp h
    cases h
    exact ⟨resource, hscan, keptLines_render (patchEdits_within hscan hedits)⟩
  · intro text occurrence stamp out h
    obtain ⟨resource, hscan, h⟩ := bind_eq_ok.mp h
    obtain ⟨master, hmaster, h⟩ := bind_eq_ok.mp h
    obtain ⟨edits, hedits, h⟩ := bind_eq_ok.mp h
    cases h
    refine ⟨resource, hscan, keptLines_render (exclude_within (Edits.within_empty _) ?_ ?_ hedits)⟩
    · intro g hg hnamed
      unfold excludeTouches
      rw [hmaster, Bool.or_eq_true]
      exact .inl (Vevent.isProperty_of_own hscan (Resource.master_mem hmaster) _ g hg hnamed)
    · intro v hv g hg
      unfold excludeTouches
      rw [hv, Bool.or_eq_true]
      exact .inr (by simpa using hg)

namespace Sample

/-- Nothing outside the document is asked for: its times are in UTC, no rule is written and no
meeting edited. -/
def outside : Outside Unit Unit Unit where
  windowsToIana := fun _ => none
  bound := fun _ => .unbounded
  formatRrule := fun _ _ => .error .untilNeedsInstant
  project := fun _ => .error .noVevent
  meetingText := fun _ _ => .ok (none, none)
  removes := fun _ _ => none
  adds := fun _ => .ok none

def line (text : String) : Text := text.toList ++ ['\r', '\n']

def series : Text :=
  line "BEGIN:VCALENDAR" ++ line "BEGIN:VEVENT" ++ line "DTSTART:20260105T093000Z" ++
    line "RRULE:FREQ=DAILY" ++ line "X-COLOR:r" ++ line " ed" ++ line "END:VEVENT" ++
    line "BEGIN:VEVENT" ++ line "RECURRENCE-ID:20260106T093000Z" ++ line "SUMMARY:Moved?" ++
    line "END:VEVENT" ++ line "END:VCALENDAR"

def clearRule : EventPatch Unit Unit where
  stamp := ⟨(4371587 + 20454) * 86400 * 1000000000, by decide⟩
  summary := none
  description := none
  location := none
  start := none
  finish := none
  recurrence := some .clear
  invitees := none
  conference := none

def cleared : Except IcalError Text := patchEventIcal outside series .series clearRule

/-- What the scan finds: the master, and the override after it. -/
def found : Resource := ⟨[⟨1, 5, [2, 3, 4], 5⟩, ⟨6, 9, [7, 8], 9⟩], some 10⟩

theorem scan_series : scan (Document.parse series) = .ok found := by decide

theorem cleared_ok : ∃ out, cleared = .ok out ∧ '?' ∉ out := by
  have hout : (match cleared with
      | .ok out => decide ('?' ∉ out)
      | .error _ => false) = true := by decide
  cases h : cleared with
  | error e =>
    rw [h] at hout
    cases hout
  | ok out =>
    rw [h] at hout
    exact ⟨out, rfl, of_decide_eq_true hout⟩

end Sample

open Sample in
theorem edit_keeps_other_lines_series :
    ∃ out, cleared = .ok out ∧ InOrder ["X-COLOR:r\r\n".toList, " ed\r\n".toList] out := by
  obtain ⟨out, hout, -⟩ := cleared_ok
  obtain ⟨resource, hscan, pieces, hsub, hflat⟩ := (edit_keeps_other_lines outside).2.1 series .series clearRule out hout
  rw [scan_series] at hscan
  cases hscan
  have hkept : ["X-COLOR:r\r\n".toList, " ed\r\n".toList].Sublist (keptLines (Document.parse series)
      (patchTouches outside (Document.parse series) found .series clearRule)) := by decide
  exact ⟨out, hout, pieces, hkept.trans hsub, hflat⟩

theorem mem_of_inOrder {lines : List Text} {line : Text} (h : InOrder lines text)
    (hline : line ∈ lines) {c : Char} (hc : c ∈ line) : c ∈ text := by
  obtain ⟨pieces, hsub, rfl⟩ := h
  exact List.mem_flatten.mpr ⟨line, hsub.subset hline, hc⟩

open Sample in
/-- A line of another event, the override of an occurrence, is gone with the rule. -/
theorem clearRule_removes_override : ∃ out master, cleared = .ok out ∧ scan (Document.parse series) = .ok found ∧
      found.master (Document.parse series) = .ok master ∧
      master.directly (Document.parse series) 8 = false ∧
      (Document.parse series).group 8 = [⟨"SUMMARY:Moved?".toList, "\r\n".toList⟩] ∧
      ¬InOrder ["SUMMARY:Moved?\r\n".toList] out := by
  obtain ⟨out, hout, hgone⟩ := cleared_ok
  refine ⟨out, ⟨1, 5, [2, 3, 4], 5⟩, hout, scan_series, by decide, by decide, by decide, ?_⟩
  intro h
  exact hgone (mem_of_inOrder h List.mem_cons_self (by decide))

end Ical
end SyncEngine
