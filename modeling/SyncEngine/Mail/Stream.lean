import SyncEngine.Mail.Cell
import SyncEngine.Clock.WallClock

/-!
# Chunks of an email pass

A provider yields a pass as chunks, each with what it changed and how the pass is to be applied.  One
driver applies every chunk as it arrives; another takes the whole pass and applies it at once.
-/

namespace SyncEngine
namespace Mail

/-!
## The sync-depth window

A pass keeps mail from a floor date on, and stores the floor with the cursor it leaves.
-/

abbrev CalendarDate := Recurrence.Date

namespace CalendarDate

def nanosPerDay : Nat := 86400 * second

def ofInstant (t : UtcDateTime) : CalendarDate := (Clock.wallOf t).date

/-- The days since the start of the range `UtcDateTime` covers. -/
def days (date : CalendarDate) : Nat := (date.number - Clock.firstDay).toNat

def padded (width n : Nat) : String :=
  let digits := toString n
  String.ofList (List.replicate (width - digits.length) '0') ++ digits

def text (date : CalendarDate) : String := String.ofList (Clock.formatDate date)

def parse (text : List Char) : Option CalendarDate := (Clock.parseCalendarDate text).run.bind Except.toOption

end CalendarDate

structure SyncWindow where
  since : Option CalendarDate
deriving DecidableEq

namespace SyncWindow

def full : SyncWindow := ⟨none⟩

def isBounded (window : SyncWindow) : Bool := window.since.isSome

/-- The floor is inclusive and compared as a date; undated mail is admitted. -/
def admits (window : SyncWindow) (date : Option UtcDateTime) : Bool :=
  match window.since, date with
  | some floor, some date => floor ≤ CalendarDate.ofInstant date
  | _, _ => true

/-- The cursor as a pass over the window stores it. -/
def stamp (window : SyncWindow) (cursor : SyncState) : SyncState :=
  match window.since with
  | none => cursor
  | some floor => s!"since={floor.text}\n{cursor}"

/-- The floor a stored cursor was fetched under and the provider's own cursor.  One that only looks
stamped is the provider's, whole. -/
def split (stored : SyncState) : Option CalendarDate × SyncState :=
  let stamped := do
    let rest ← stripFront "since=".toList stored.toList
    let (floor, cursor) ← splitAtFirst ['\n'] rest
    let floor ← CalendarDate.parse floor
    return (some floor, String.ofList cursor)
  stamped.getD (none, stored)

/-- The provider's cursor to go on from.  One fetched under a later floor knows nothing of the mail
between the two floors. -/
def resume (window : SyncWindow) (stored : Option SyncState) : Option SyncState := do
  let (floor, cursor) := split (← stored)
  let covers : Bool :=
    match window.since, floor with
    | _, none => true
    | none, some _ => false
    | some asked, some fetched => fetched ≤ asked
  if covers then some cursor else none

end SyncWindow

example : SyncWindow.full.resume (some "since=2026-01-01\nc1") = none := by decide

/-!
## Projecting mail into rows

The rows a message sent whole stands in, and the row a change of its state touches.
-/

/-- What a projection reads out of the content of a message: the addresses in it, each with its
field, and the message ids it owns or references. -/
class MailContent (γ : Type) where
  addresses : γ → List (String × String)
  refs : γ → List (String × Bool)

instance : MailContent Unit := ⟨fun _ => [], fun _ => []⟩

variable {γ : Type}

def Message.row (m : Message γ) : MailRow γ where
  key := m.key
  content := m.content
  date := m.date
  threadId := m.threadId
  preview := m.preview
  flags := MailFlags.fromKeywords m.keywords
  revisions := m.revisions
  lastModified := m.lastModified

def Message.membershipRows (m : Message γ) : List MembershipRow :=
  (m.mailboxes.map fun mailbox => ⟨m.key, .mailbox, mailbox⟩) ++
    m.keywords.map fun keyword => ⟨m.key, .keyword, keyword⟩

theorem Message.membershipRows_ne_nil (m : Message γ) : m.membershipRows ≠ [] := by
  intro h
  apply m.filed
  simpa using (List.append_eq_nil_iff.mp h).1

theorem Message.key_of_mem_membershipRows {m : Message γ} {r : MembershipRow}
    (h : r ∈ m.membershipRows) : r.key = m.key := by
  rcases List.mem_append.mp h with h | h
  · obtain ⟨mailbox, -, rfl⟩ := List.mem_map.mp h
    rfl
  · obtain ⟨keyword, -, rfl⟩ := List.mem_map.mp h
    rfl

variable [MailContent γ]

def deriveMessages (messages : List (Message γ)) : DerivedWrite γ :=
  { (DerivedWrite.empty : DerivedWrite γ) with
    fts := messages.map fun m => ⟨m.key, m.content⟩
    messages := messages.map Message.row
    msgidRefs := messages.flatMap fun m =>
      (MailContent.refs m.content).map fun (msgid, owned) => ⟨m.key, msgid, owned⟩
    addresses := messages.flatMap fun m =>
      (MailContent.addresses m.content).map fun (field, address) => ⟨m.key, field, address⟩
    memberships := messages.flatMap Message.membershipRows }

def projectStateChange (change : MailStateChange) : MailStateRow where
  key := change.key
  flags := MailFlags.fromKeywords change.state.keywords
  keywords := change.state.keywords
  mailboxes := change.state.mailboxes
  revisions := change.state.revisions
  lastModified := change.state.lastModified

end Mail

namespace Mail

inductive PassMode
  | additive
  | reconcile
deriving DecidableEq, Repr

structure EmailChunk (γ : Type) where
  mode : PassMode
  changed : List (Message γ)
  patched : List MailStateChange
  removed : List ProviderKey
  present : List ProviderKey
  total : Option Nat
  advanceTo : Option SyncState

abbrev MailUpdate (γ : Type) := SyncUpdate (Message γ) MailStateChange

variable {γ : Type}

def keyed (messages : List (Message γ)) : List (ProviderKey × Message γ) :=
  messages.map fun m => (m.key, m)

namespace SyncUpdate

/-- Adds partial changes to a delta, but for those of objects it carries whole.  A snapshot carries
whole objects only. -/
def withPatched (patches : List MailStateChange) : MailUpdate γ → MailUpdate γ
  | .delta changed _ removed =>
    .delta changed (patches.filter fun p => p.key ∉ changed.map Prod.fst) removed
  | .snapshot objects present => .snapshot objects present

/-- The update as a store keeps it: of a message, its content. -/
def payloads : MailUpdate γ → SyncUpdate γ MailStateChange
  | .delta changed patched removed =>
    .delta (changed.map fun o => (o.1, o.2.content)) patched removed
  | .snapshot objects present => .snapshot (objects.map fun o => (o.1, o.2.content)) present

end SyncUpdate

namespace EmailChunk

def isReconcileFinal (c : EmailChunk γ) : Bool := c.mode = .reconcile && c.advanceTo.isSome

end EmailChunk

def admitted (changed : List (Message γ)) (window : SyncWindow) : List (Message γ) :=
  if window.isBounded then changed.filter fun m => window.admits m.date else changed

/-- The update of one chunk, and the present set with what the chunk covers.  A reconcile pass holds
its cursor, and its last chunk, which carries one, is the whole state of the scope. -/
def buildUpdate (chunk : EmailChunk γ) (window : SyncWindow) (present : List ProviderKey) :
    MailUpdate γ × List ProviderKey :=
  let (update, present) : MailUpdate γ × List ProviderKey :=
    match chunk.mode with
    | .additive => (.delta (keyed (admitted chunk.changed window)) [] chunk.removed, present)
    | .reconcile =>
      let present := present ++ chunk.present
      if chunk.advanceTo.isSome then (.snapshot (keyed chunk.changed) present, [])
      else (.delta (keyed chunk.changed) [] chunk.removed, present)
  (update.withPatched chunk.patched, present)

variable [MailContent γ]

def derive (update : MailUpdate γ) : DerivedWrite γ :=
  { deriveMessages (update.changed.map Prod.snd) with
    stateChanges := update.patched.map projectStateChange }

def commit (kind : StoreKind) (cell : ScopeCell γ) (update : MailUpdate γ)
    (next : Option SyncState) : ScopeCell γ :=
  (cell.apply kind update.payloads (derive update) next).1

def commitChunk (kind : StoreKind) (window : SyncWindow) (s : ScopeCell γ × List ProviderKey)
    (chunk : EmailChunk γ) : ScopeCell γ × List ProviderKey :=
  let (update, present) := buildUpdate chunk window s.2
  (commit kind s.1 update (chunk.advanceTo.map window.stamp), present)

def streamed (kind : StoreKind) (window : SyncWindow) (cell : ScopeCell γ)
    (chunks : List (EmailChunk γ)) : ScopeCell γ :=
  (chunks.foldl (commitChunk kind window) (cell, [])).1

inductive DrainError
  | noFinalCursor
deriving DecidableEq, Repr

/-- The whole pass as one update, and the cursor it ends with.  The mode is the last chunk's. -/
def drainEmail (chunks : List (EmailChunk γ)) : Except DrainError (MailUpdate γ × SyncState) :=
  let changed := chunks.flatMap EmailChunk.changed
  let patched := chunks.flatMap EmailChunk.patched
  let removed := chunks.flatMap EmailChunk.removed
  let present := chunks.flatMap EmailChunk.present
  let mode := (chunks.getLast?.map EmailChunk.mode).getD .additive
  match (chunks.filterMap EmailChunk.advanceTo).getLast? with
  | none => .error .noFinalCursor
  | some cursor =>
    match mode with
    | .reconcile => .ok (.snapshot (keyed changed) present, cursor)
    | .additive =>
      .ok (SyncUpdate.withPatched patched (.delta (keyed changed) [] removed), cursor)

end Mail

namespace Mail

/-!
## Resuming from a stamped cursor

A cursor is stored with the floor of its window before it, or bare under the full history.  It comes back whole
under every window that asks for no older mail, unless the floor is of a year the date parser does not read or a
bare cursor looks stamped itself.
-/

open Clock (formatDate parseYmd gives_parseYmd Gives gives_of_toOption)

namespace CalendarDate

theorem parse_eq_some_iff {s : List Char} {date : CalendarDate} :
    parse s = some date ↔ 0 ≤ date.year ∧ s = formatDate date := by
  rw [← gives_parseYmd]
  constructor
  · exact gives_of_toOption
  · intro h
    show (parseYmd s).run.bind Except.toOption = some date
    rw [show (parseYmd s).run = some (.ok date) from h]
    rfl

end CalendarDate

namespace SyncWindow

variable {window asked : SyncWindow} {cursor : SyncState}

def NotBefore (window asked : SyncWindow) : Prop :=
  match window.since, asked.since with
  | none, _ => True
  | some _, none => False
  | some fetched, some asked => fetched ≤ asked

instance (window asked : SyncWindow) : Decidable (NotBefore window asked) := by
  unfold NotBefore
  split <;> infer_instance

def LooksStamped (cursor : SyncState) : Prop :=
  ∃ (floor : CalendarDate) (rest : List Char), 0 ≤ floor.year ∧
    cursor.toList = "since=".toList ++ (formatDate floor ++ '\n' :: rest)

theorem ne_newline_of_formatDate (date : CalendarDate) : ∀ c ∈ formatDate date, c ≠ '\n' := by
  intro c hc hnewline
  have hdigits : ∀ width n, '\n' ∉ zeroPadded width n := fun width n hmem =>
    absurd (isDigits_zeroPadded '\n' hmem) (by decide)
  have hyear : '\n' ∉ zeroPaddedInt 4 date.year := by
    unfold zeroPaddedInt
    split_ifs
    · intro hmem
      rcases List.mem_cons.mp hmem with hsign | hdigit
      · exact absurd hsign (by decide)
      · exact hdigits _ _ hdigit
    · exact hdigits _ _
  subst hnewline
  rcases List.mem_append.mp hc with hmem | hrest
  · exact hyear hmem
  · rcases List.mem_cons.mp hrest with hdash | hrest
    · exact absurd hdash (by decide)
    · rcases List.mem_append.mp hrest with hmem | hrest
      · exact hdigits _ _ hmem
      · rcases List.mem_cons.mp hrest with hdash | hmem
        · exact absurd hdash (by decide)
        · exact hdigits _ _ hmem

theorem split_of_stamped {stored : SyncState} {floor : CalendarDate} {rest : List Char} (hyear : 0 ≤ floor.year)
    (hstored : stored.toList = "since=".toList ++ (formatDate floor ++ '\n' :: rest)) :
    split stored = (some floor, String.ofList rest) := by
  unfold split
  rw [stripFront_eq_some_iff.mpr hstored]
  show ((splitAtFirst ['\n'] (formatDate floor ++ '\n' :: rest)).bind _).getD _ = _
  rw [splitAtFirst_eq_some_iff.mpr ⟨rfl, ne_newline_of_formatDate floor⟩]
  show ((CalendarDate.parse (formatDate floor)).bind _).getD _ = _
  rw [CalendarDate.parse_eq_some_iff.mpr ⟨hyear, rfl⟩]
  rfl

theorem split_of_not_stamped {stored : SyncState} (h : ¬ LooksStamped stored) : split stored = (none, stored) := by
  unfold split
  cases hsince : stripFront "since=".toList stored.toList with
  | none => rfl
  | some rest =>
    show ((splitAtFirst ['\n'] rest).bind _).getD _ = _
    cases hnewline : splitAtFirst ['\n'] rest with
    | none => rfl
    | some cut =>
      obtain ⟨date, cursor⟩ := cut
      show ((CalendarDate.parse date).bind _).getD _ = _
      cases hdate : CalendarDate.parse date with
      | none => rfl
      | some floor =>
        obtain ⟨hyear, rfl⟩ := CalendarDate.parse_eq_some_iff.mp hdate
        have hstored := stripFront_eq_some_iff.mp hsince
        rw [(splitAtFirst_eq_some_iff.mp hnewline).1] at hstored
        exact absurd ⟨floor, cursor, hyear, hstored⟩ h

theorem resume_eq (stored : SyncState) : asked.resume (some stored) =
    if NotBefore ⟨(split stored).1⟩ asked then some (split stored).2 else none := by
  unfold resume NotBefore
  simp only [Option.bind_eq_bind, Option.bind_some]
  obtain ⟨floor, cursor⟩ := split stored
  obtain ⟨since⟩ := asked
  cases floor with
  | none => cases since <;> rfl
  | some fetched =>
    cases since with
    | none => rfl
    | some floor => exact if_congr decide_eq_true_iff rfl rfl

theorem toList_stamp {floor : CalendarDate} (hfloor : window.since = some floor) (cursor : SyncState) :
    (window.stamp cursor).toList = "since=".toList ++ (formatDate floor ++ '\n' :: cursor.toList) := by
  unfold stamp
  rw [hfloor]
  simp [CalendarDate.text, toString]

theorem not_looksStamped_of_negative {floor : CalendarDate} (hfloor : window.since = some floor)
    (hyear : floor.year < 0) (cursor : SyncState) : ¬ LooksStamped (window.stamp cursor) := by
  rintro ⟨read, rest, hread, hstored⟩
  rw [toList_stamp hfloor cursor] at hstored
  have htext := List.append_cancel_left hstored
  unfold formatDate zeroPaddedInt at htext
  rw [if_pos hyear, if_neg (by omega)] at htext
  have hdigit : ∀ c ∈ zeroPadded 4 read.year.toNat, c.isDigit = true := isDigits_zeroPadded
  cases hyearText : zeroPadded 4 read.year.toNat with
  | nil =>
    rw [hyearText] at htext
    exact absurd (List.append_eq_nil_iff.mp hyearText).2 decimal_ne_nil
  | cons c text =>
    rw [hyearText] at htext hdigit
    injection htext with hsign
    exact absurd (hdigit c List.mem_cons_self) (by rw [← hsign]; decide)

def ReadsStamp (window : SyncWindow) (cursor : SyncState) : Prop :=
  match window.since with
  | none => ¬ LooksStamped cursor
  | some floor => 0 ≤ floor.year

theorem split_stamp (h : ReadsStamp window cursor) : split (window.stamp cursor) = (window.since, cursor) := by
  unfold ReadsStamp at h
  cases hsince : window.since with
  | none =>
    rw [hsince] at h
    rw [show window.stamp cursor = cursor by unfold stamp; rw [hsince]]
    exact split_of_not_stamped h
  | some floor =>
    rw [hsince] at h
    rw [split_of_stamped h (toList_stamp hsince cursor), String.ofList_toList]

theorem ne_of_length {a b : SyncState} (h : a.toList.length < b.toList.length) : a ≠ b := by
  rintro rfl
  exact Nat.lt_irrefl _ h

/-- A cursor comes back whole under the windows that ask for no older mail, and under no other, exactly where the
stamp is read as it was written. -/
theorem resume_stamp_iff (window asked : SyncWindow) (cursor : SyncState) :
    asked.resume (some (window.stamp cursor)) = (if NotBefore window asked then some cursor else none) ↔
      ReadsStamp window cursor := by
  constructor
  · intro hresumed
    by_contra hmisread
    rw [resume_eq] at hresumed
    unfold ReadsStamp at hmisread
    cases hsince : window.since with
    | none =>
      rw [hsince] at hmisread
      obtain ⟨floor, rest, hyear, hstored⟩ := not_not.mp hmisread
      have hbare : window.stamp cursor = cursor := by
        unfold stamp
        rw [hsince]
      have hall : NotBefore window asked := by
        unfold NotBefore
        rw [hsince]
        trivial
      -- what is left of the cursor is shorter than it
      have hshorter : String.ofList rest ≠ cursor := by
        refine ne_of_length ?_
        rw [String.toList_ofList, hstored]
        simp only [List.length_append, List.length_cons]
        omega
      rw [hbare, split_of_stamped hyear hstored, if_pos hall] at hresumed
      split_ifs at hresumed
      exact hshorter (Option.some.inj hresumed)
    | some floor =>
      rw [hsince] at hmisread
      have hlonger : cursor ≠ window.stamp cursor := by
        refine ne_of_length ?_
        rw [toList_stamp hsince]
        simp only [List.length_append, List.length_cons]
        omega
      rw [split_of_not_stamped (not_looksStamped_of_negative hsince (not_le.mp hmisread) cursor),
        if_pos (show NotBefore ⟨none⟩ asked from trivial)] at hresumed
      split_ifs at hresumed
      exact hlonger (Option.some.inj hresumed).symm
  · intro hreads
    rw [resume_eq, split_stamp hreads]

/-- A provider's own cursor that looks stamped, under the full history. -/
theorem resume_stamp_bare : ¬ ∀ (window asked : SyncWindow) (cursor : SyncState),
    asked.resume (some (window.stamp cursor)) = if NotBefore window asked then some cursor else none := by
  intro h
  exact absurd (h full full "since=2026-04-01\nc1") (by decide)

end SyncWindow

end Mail
end SyncEngine
